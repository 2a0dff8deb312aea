import Mathlib.Data.List.TakeWhile
import Mathlib.Data.Nat.Digits.Defs
import RazenLint.Json.Print
import RazenLint.Json.Read

/-!
# Scanning what was written

A string is read from its text, where every character is written in one of three ways
(`string_quote`, `escapeChar_cases`), and a whole number from its digits, when it fits into a
word and no digit, point or exponent stands behind it (`number_toDigits`, `EndsNumber`).
-/

namespace RazenLint.Json.Scan

/-! ## Steps -/

section

variable {ε α β : Type} {cs rest : List Char}

/-- What follows a step that succeeds. -/
theorem bind_of_eq_ok {scan : StateT (List Char) (Except ε) α} {found : α}
    {next : α → StateT (List Char) (Except ε) β} (h : scan cs = .ok (found, rest)) :
    (scan >>= next) cs = next found rest := by
  show (scan cs >>= fun pair => next pair.1 pair.2) = _
  rw [h]
  rfl

end

variable {cs rest : List Char}

theorem peek_eq_ok (cs : List Char) : peek cs = .ok (cs.head?, cs) :=
  rfl

theorem next_cons (c : Char) (cs : List Char) : next (c :: cs) = .ok (some c, cs) :=
  rfl

theorem discard_next_cons (c : Char) (cs : List Char) :
    (discard next : Scan Unit) (c :: cs) = .ok ((), cs) :=
  rfl

theorem get_eq_ok (cs : List Char) : (get : Scan (List Char)) cs = .ok (cs, cs) :=
  rfl

theorem peekPastSpace_append {blanks : List Char} (hblanks : ∀ b ∈ blanks, isSpace b = true)
    {c : Char} (hc : isSpace c = false) (cs : List Char) :
    peekPastSpace (blanks ++ c :: cs) = .ok (some c, c :: cs) := by
  have hdrop : (blanks ++ c :: cs).dropWhile isSpace = c :: cs := by
    rw [List.dropWhile_append_of_pos hblanks, List.dropWhile_cons_of_neg (by simp [hc])]
  show Except.ok (((blanks ++ c :: cs).dropWhile isSpace).head?,
    (blanks ++ c :: cs).dropWhile isSpace) = _
  rw [hdrop]
  rfl

theorem peekPastSpace_cons {c : Char} (hc : isSpace c = false) (cs : List Char) :
    peekPastSpace (c :: cs) = .ok (some c, c :: cs) :=
  peekPastSpace_append (List.forall_mem_nil _) hc cs

theorem letters_append (word cs : List Char) : letters word (word ++ cs) = .ok ((), cs) := by
  induction word with
  | nil => rfl
  | cons c word ih =>
    rw [List.cons_append, letters, bind_of_eq_ok (next_cons c _)]
    dsimp only
    rw [if_pos rfl]
    exact ih

/-! ## Strings -/

theorem hexDigit?_hexDigit {n : Nat} (h : n < 16) : Text.hexDigit? (hexDigit n) = some n := by
  have hall : ∀ n < 16, Text.hexDigit? (hexDigit n) = some n := by decide
  exact hall n h

theorem hexFour_control {n : Nat} (h : n < 0x20) (cs : List Char) :
    hexFour ('0' :: '0' :: hexDigit (n / 16) :: hexDigit (n % 16) :: cs) = .ok (n, cs) := by
  have hdigits : ['0', '0', hexDigit (n / 16), hexDigit (n % 16)].mapM Text.hexDigit? =
      some [0, 0, n / 16, n % 16] := by
    simp [hexDigit?_hexDigit (show n / 16 < 16 by omega),
      hexDigit?_hexDigit (show n % 16 < 16 by omega), show Text.hexDigit? '0' = some 0 by decide]
  rw [hexFour, bind_of_eq_ok (get_eq_ok _)]
  simp only [List.take_succ_cons, List.take_zero]
  rw [hdigits]
  show Except.ok (((0 * 16 + 0) * 16 + n / 16) * 16 + n % 16, cs) = _
  rw [show ((0 * 16 + 0) * 16 + n / 16) * 16 + n % 16 = n by omega]

/-- A control character is read from the number that stands for it. -/
theorem escape_control {c : Char} (h : c.toNat < 0x20) (cs : List Char) :
    escape ('u' :: '0' :: '0' :: hexDigit (c.toNat / 16) :: hexDigit (c.toNat % 16) :: cs) =
      .ok (c, cs) := by
  have hlow : isLowSurrogate c.toNat = false := by
    simp only [isLowSurrogate, Bool.and_eq_false_iff, decide_eq_false_iff_not]
    omega
  have hhigh : isHighSurrogate c.toNat = false := by
    simp only [isHighSurrogate, Bool.and_eq_false_iff, decide_eq_false_iff_not]
    omega
  rw [escape, bind_of_eq_ok (next_cons _ _)]
  refine (bind_of_eq_ok (hexFour_control h cs)).trans ?_
  rw [hlow, hhigh, Char.ofNat_toNat]
  rfl

/-- A character is written as a short escape, by its number, or as it is. -/
theorem escapeChar_cases (c : Char) :
    (∃ d, escapeChar c = ['\\', d] ∧ d ≠ 'u' ∧ shortEscape? d = some c) ∨
    (c.toNat < 0x20 ∧
      escapeChar c = ['\\', 'u', '0', '0', hexDigit (c.toNat / 16), hexDigit (c.toNat % 16)]) ∨
    (c ≠ '"' ∧ c ≠ '\\' ∧ ¬c.toNat < 0x20 ∧ escapeChar c = [c]) := by
  by_cases hshort : c ∈ ['"', '\\', '\x08', '\t', '\n', '\x0c', '\r']
  · simp only [List.mem_cons, List.not_mem_nil, or_false] at hshort
    refine Or.inl ?_
    rcases hshort with rfl | rfl | rfl | rfl | rfl | rfl | rfl <;>
      exact ⟨_, rfl, by decide, by decide⟩
  · simp only [List.mem_cons, List.not_mem_nil, or_false, not_or] at hshort
    obtain ⟨hquote, hbackslash, h8, ht, hn, hc, hr⟩ := hshort
    rw [escapeChar, if_neg hquote, if_neg hbackslash, if_neg h8, if_neg ht, if_neg hn, if_neg hc,
      if_neg hr]
    by_cases hcontrol : c.toNat < 0x20
    · exact Or.inr (Or.inl ⟨hcontrol, if_pos hcontrol⟩)
    · exact Or.inr (Or.inr ⟨hquote, hbackslash, hcontrol, if_neg hcontrol⟩)

/-- A character of a string is read from its text. -/
theorem stringBody_escapeChar (c : Char) (steps : Nat) (reversed cs : List Char) :
    stringBody (steps + 1) reversed (escapeChar c ++ cs) = stringBody steps (c :: reversed) cs := by
  rcases escapeChar_cases c with ⟨d, hd, hne, hshort⟩ | ⟨hcontrol, hd⟩ | ⟨hquote, hbackslash,
    hcontrol, hd⟩ <;> rw [hd, stringBody, List.cons_append, bind_of_eq_ok (next_cons _ _)]
  · refine bind_of_eq_ok ?_
    rw [escape, List.singleton_append, bind_of_eq_ok (next_cons d cs)]
    simp only [hshort]
    rfl
  · exact bind_of_eq_ok (escape_control hcontrol cs)
  · simp [hcontrol]

theorem stringBody_flatMap (text cs : List Char) (steps : Nat) (reversed : List Char)
    (hsteps : text.length < steps) :
    stringBody steps reversed (text.flatMap escapeChar ++ '"' :: cs) =
      .ok (reversed.reverse ++ text, cs) := by
  induction text generalizing steps reversed with
  | nil =>
    obtain ⟨steps, rfl⟩ := Nat.exists_eq_add_of_lt hsteps
    rw [List.append_nil]
    rfl
  | cons c text ih =>
    obtain ⟨steps, rfl⟩ := Nat.exists_eq_add_one_of_ne_zero (Nat.ne_zero_of_lt hsteps)
    rw [List.flatMap_cons, List.append_assoc, stringBody_escapeChar, ih _ _ (by simpa using hsteps)]
    simp

theorem length_escapeChar_pos (c : Char) : 0 < (escapeChar c).length := by
  rcases escapeChar_cases c with ⟨d, hd, -⟩ | ⟨-, hd⟩ | ⟨-, -, -, hd⟩ <;> rw [hd] <;>
    exact Nat.succ_pos _

theorem length_le_length_flatMap (text : List Char) :
    text.length ≤ (text.flatMap escapeChar).length := by
  induction text with
  | nil => exact Nat.le_refl 0
  | cons c text ih =>
    have hc := length_escapeChar_pos c
    rw [List.flatMap_cons, List.length_append, List.length_cons]
    omega

/-- A string is read from its text, past the opening quote. -/
theorem string_quote (text : String) (cs : List Char) :
    string (text.toList.flatMap escapeChar ++ '"' :: cs) = .ok (text, cs) := by
  have hlength := length_le_length_flatMap text.toList
  rw [string, bind_of_eq_ok (get_eq_ok _),
    bind_of_eq_ok (stringBody_flatMap text.toList cs _ [] (by rw [List.length_append]; omega))]
  show Except.ok (String.ofList ([].reverse ++ text.toList), cs) = _
  rw [List.reverse_nil, List.nil_append, String.ofList_toList]

/-! ## Numbers -/

/-- A text that does not go on with a number. -/
def EndsNumber (cs : List Char) : Prop :=
  ∀ c ∈ cs.head?, c.isDigit = false ∧ c ≠ '.' ∧ isExponentSign (some c) = false

theorem EndsNumber.ne_point (h : EndsNumber cs) : cs.head? ≠ some '.' :=
  fun hc => (h '.' hc).2.1 rfl

theorem EndsNumber.not_isExponentSign (h : EndsNumber cs) : ¬isExponentSign cs.head? = true := by
  cases cs with
  | nil => decide
  | cons c cs => simp [(h c rfl).2.2]

theorem digits_append {ds : List Char} (hds : ∀ d ∈ ds, d.isDigit = true) (hcs : EndsNumber cs) :
    digits (ds ++ cs) = .ok (ds, cs) := by
  have htake : (ds ++ cs).takeWhile Char.isDigit = ds := by
    rw [List.takeWhile_append_of_pos hds]
    cases cs with
    | nil => simp
    | cons c cs => rw [List.takeWhile_cons_of_neg (by simp [(hcs c rfl).1]), List.append_nil]
  have hdrop : (ds ++ cs).dropWhile Char.isDigit = cs := by
    rw [List.dropWhile_append_of_pos hds]
    cases cs with
    | nil => rfl
    | cons c cs => rw [List.dropWhile_cons_of_neg (by simp [(hcs c rfl).1])]
  show Except.ok ((ds ++ cs).takeWhile Char.isDigit, (ds ++ cs).dropWhile Char.isDigit) = _
  rw [htake, hdrop]

theorem le_ofDigitChars (ds : List Char) (n : Nat) : n ≤ Nat.ofDigitChars 10 ds n := by
  induction ds generalizing n with
  | nil => exact Nat.le_refl n
  | cons d ds ih =>
    rw [Nat.ofDigitChars_cons]
    have := ih (10 * n + (d.toNat - '0'.toNat))
    omega

/-- A word takes all digits of a number that fits into it. -/
theorem takeIntoWord_eq {ds : List Char} {n : Nat} (h : Nat.ofDigitChars 10 ds n ≤ maxWord) :
    takeIntoWord n ds = (Nat.ofDigitChars 10 ds n, ds.length, false) := by
  induction ds generalizing n with
  | nil => rfl
  | cons d ds ih =>
    rw [Nat.ofDigitChars_cons, Nat.mul_comm] at h
    have hmore := (le_ofDigitChars ds _).trans h
    rw [takeIntoWord, if_neg (Nat.not_lt.2 hmore), ih h, Nat.ofDigitChars_cons, Nat.mul_comm 10,
      List.length_cons]

theorem isDigit_of_mem_toDigits {n : Nat} {d : Char} (h : d ∈ Nat.toDigits 10 n) :
    d.isDigit = true :=
  Nat.isDigit_of_mem_toDigits (by decide) (by decide) h

/-- Only zero begins with a zero. -/
theorem eq_zero_of_head?_toDigits {n : Nat} (h : (Nat.toDigits 10 n).head? = some '0') :
    n = 0 := by
  induction n using Nat.strong_induction_on with
  | _ n ih =>
    by_cases hn : n < 10
    · rw [Nat.toDigits_of_lt_base hn] at h
      have hall : ∀ n < 10, n.digitChar = '0' → n = 0 := by decide
      exact hall n hn (Option.some.inj h)
    · rw [Nat.toDigits_of_base_le (by decide) (by omega), List.head?_append] at h
      obtain ⟨d, ds, hd⟩ := List.exists_cons_of_ne_nil (Nat.toDigits_ne_nil (n := n / 10) (b := 10))
      have := ih (n / 10) (by omega) (by simpa [hd] using h)
      omega

/-- A whole number is read from its digits. -/
theorem number_toDigits {n : Nat} (hn : n ≤ maxWord) (hcs : EndsNumber cs) :
    number true (Nat.toDigits 10 n ++ cs) = .ok (.whole n, cs) := by
  have hvalue : Nat.ofDigitChars 10 (Nat.toDigits 10 n) 0 = n := Nat.ofDigitChars_ten_toDigits
  have hdigits : ∀ d ∈ Nat.toDigits 10 n, d.isDigit = true := fun _ => isDigit_of_mem_toDigits
  have htake := takeIntoWord_eq (hvalue.trans_le hn)
  have hzero := eq_zero_of_head?_toDigits (n := n)
  rw [hvalue] at htake
  cases hd : Nat.toDigits 10 n with
  | nil => exact absurd hd Nat.toDigits_ne_nil
  | cons d ds =>
    have hlength : ¬(d = '0' ∧ (d :: ds).length ≠ 1) := by
      rintro ⟨rfl, hlength⟩
      rw [hzero (by rw [hd]; rfl)] at hd
      rw [← hd] at hlength
      exact hlength rfl
    rw [hd] at hdigits htake
    have hread := digits_append hdigits hcs
    rw [List.cons_append] at hread ⊢
    rw [number, bind_of_eq_ok (peek_eq_ok _), List.head?_cons]
    dsimp only
    rw [hdigits d List.mem_cons_self]
    simp only [Bool.not_true, Bool.false_eq_true, if_false]
    rw [bind_of_eq_ok hread, if_neg hlength, htake,
      bind_of_eq_ok (peek_eq_ok cs), if_neg hcs.ne_point, if_neg hcs.not_isExponentSign]
    rfl

end RazenLint.Json.Scan
