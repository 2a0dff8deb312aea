import RazenLint.Proofs.Text.Ident
import RazenLint.Text.Literal

/-!
# Reading a line in parts

The reading of a line after its first part decides how the second part is masked
(`maskFrom_append`), and the code of the line is the code of its parts, as long as
no comment has begun (`codeFrom_append`). A quote in a masked line is always the
end of a literal, so what stands in a masked line says where code is : text without
quotes is read as code and kept (`exists_append_of_codeFrom_eq_plain`), and a
character that is neither a blank nor a quote has been read as code
(`eq_code_of_codeFrom_eq_cons`).
-/

namespace RazenLint.Text

namespace Reading

@[simp] theorem after_nil (reading : Reading) : reading.after [] = reading :=
  rfl

@[simp] theorem after_cons (reading : Reading) (c : Char) (cs : List Char) :
    reading.after (c :: cs) = (reading.next c).after cs :=
  rfl

theorem after_append (reading : Reading) (front back : List Char) :
    reading.after (front ++ back) = (reading.after front).after back :=
  List.foldl_append

end Reading

/-- The code of a line from a given reading on. -/
def codeFrom (reading : Reading) (line : List Char) : List Char :=
  (maskFrom reading line).takeWhile (· ≠ commentSign)

theorem code_eq_codeFrom (line : List Char) : code line = codeFrom .code line :=
  rfl

theorem length_code_le (line : List Char) : (code line).length ≤ line.length := by
  rw [← length_mask line]
  exact (List.takeWhile_prefix _).length_le

theorem maskFrom_append (reading : Reading) (front back : List Char) :
    maskFrom reading (front ++ back) =
      maskFrom reading front ++ maskFrom (reading.after front) back := by
  induction front generalizing reading with
  | nil => rfl
  | cons c cs ih => simp [maskFrom, ih]

@[simp] theorem codeFrom_nil (reading : Reading) : codeFrom reading [] = [] :=
  rfl

/-- The character that stands for one in a masked line. -/
def shown (reading : Reading) (c : Char) : Char :=
  if reading.hides c then ' ' else c

theorem maskFrom_cons (reading : Reading) (c : Char) (cs : List Char) :
    maskFrom reading (c :: cs) = shown reading c :: maskFrom (reading.next c) cs :=
  rfl

theorem codeFrom_cons (reading : Reading) (c : Char) (cs : List Char) :
    codeFrom reading (c :: cs) = if shown reading c = commentSign then []
      else shown reading c :: codeFrom (reading.next c) cs := by
  rw [codeFrom, maskFrom_cons, List.takeWhile_cons]
  by_cases h : shown reading c = commentSign <;> simp [h, codeFrom]

/-- What the code of a line begins with is shown for the first character of the line. -/
theorem exists_cons_of_codeFrom_eq_cons {reading : Reading} {line back : List Char} {c : Char}
    (h : codeFrom reading line = c :: back) : ∃ d ds, line = d :: ds ∧ shown reading d = c ∧
      codeFrom (reading.next d) ds = back := by
  cases line with
  | nil => simp at h
  | cons d ds =>
    rw [codeFrom_cons] at h
    split at h
    · simp at h
    · obtain ⟨hc, hback⟩ := List.cons.inj h
      exact ⟨d, ds, rfl, hc, hback⟩

/-- The code of a line in two parts, where the first part has no comment. -/
theorem codeFrom_append {reading : Reading} {front : List Char}
    (h : commentSign ∉ maskFrom reading front) (back : List Char) :
    codeFrom reading (front ++ back) =
      maskFrom reading front ++ codeFrom (reading.after front) back := by
  rw [codeFrom, maskFrom_append, List.takeWhile_append_of_pos]
  · rfl
  · intro c hc
    have : c ≠ commentSign := fun heq => h (heq ▸ hc)
    simpa using this

theorem commentSign_notMem_codeFrom (reading : Reading) (line : List Char) :
    commentSign ∉ codeFrom reading line := by
  intro h
  have := List.all_eq_true.1 (List.all_takeWhile (l := maskFrom reading line)) _ h
  simp at this

/-- A part of the code of a line is the masked form of a part of the line. -/
theorem exists_append_of_codeFrom_eq : ∀ {front back : List Char} {reading : Reading}
    {line : List Char}, codeFrom reading line = front ++ back →
      ∃ front' back', line = front' ++ back' ∧ maskFrom reading front' = front ∧
        codeFrom (reading.after front') back' = back
  | [], _, _, line, h => ⟨[], line, rfl, rfl, h⟩
  | c :: front, back, reading, line, h => by
    obtain ⟨d, ds, rfl, hc, hrest⟩ := exists_cons_of_codeFrom_eq_cons h
    obtain ⟨front', back', rfl, hmask, hback⟩ := exists_append_of_codeFrom_eq hrest
    exact ⟨d :: front', back', rfl, by rw [maskFrom_cons, hc, hmask], hback⟩

theorem isQuote_of_isBlank {c : Char} (h : isBlank c = true) : isQuote c = false := by
  by_contra hquote
  simp only [isQuote, Bool.or_eq_false_iff, beq_eq_false_iff_ne, not_and_or, not_not] at hquote
  rcases hquote with rfl | rfl <;> exact absurd h (by decide)

theorem isQuote_of_isIdentRest {c : Char} (h : isIdentRest c = true) : isQuote c = false := by
  by_contra hquote
  simp only [isQuote, Bool.or_eq_false_iff, beq_eq_false_iff_ne, not_and_or, not_not] at hquote
  rcases hquote with rfl | rfl <;> exact absurd h (by decide)

/-- Code goes on after a character that is no quote. -/
theorem next_code {c : Char} (h : isQuote c = false) : Reading.code.next c = .code := by
  rw [Reading.next, h]
  rfl

/-- A quote opens a literal. -/
theorem next_quote {c : Char} (h : isQuote c = true) : Reading.code.next c = .literal c :=
  if_pos h

theorem ne_of_isQuote {quote c : Char} (hquote : isQuote quote = true) (hc : isQuote c = false) :
    quote ≠ c := by
  rintro rfl
  rw [hquote] at hc
  exact absurd hc (by simp)

theorem next_slash (quote : Char) : (Reading.literal quote).next '\\' = .escape quote := by
  rw [Reading.next, if_pos rfl]

/-- The quote that opened a literal closes it. -/
theorem next_closing {quote : Char} (h : isQuote quote = true) :
    (Reading.literal quote).next quote = .code := by
  rw [Reading.next, if_neg (ne_of_isQuote h rfl), if_pos rfl]

theorem next_literal {quote c : Char} (hc : c ≠ quote) (hslash : c ≠ '\\') :
    (Reading.literal quote).next c = .literal quote := by
  rw [Reading.next, if_neg hslash, if_neg hc]

theorem shown_closing {quote : Char} (h : isQuote quote = true) :
    shown (.literal quote) quote = quote := by
  have hslash : quote ≠ '\\' := ne_of_isQuote h rfl
  simp [shown, Reading.hides, hslash]

theorem shown_literal {quote c : Char} (hc : c ≠ quote) : shown (.literal quote) c = ' ' := by
  simp [shown, Reading.hides, hc]

/-- A reading whose open literal began with a quote. -/
def Reading.Proper : Reading → Prop
  | code => True
  | literal quote => isQuote quote = true
  | escape quote => isQuote quote = true

theorem Reading.Proper.next {reading : Reading} (h : reading.Proper) (c : Char) :
    (reading.next c).Proper := by
  cases reading with
  | code =>
    rw [Reading.next]
    split
    · assumption
    · trivial
  | literal quote =>
    rw [Reading.next]
    split
    · exact h
    · split
      · trivial
      · exact h
  | escape quote => exact h

theorem Reading.Proper.after {reading : Reading} (h : reading.Proper) (cs : List Char) :
    (reading.after cs).Proper := by
  induction cs generalizing reading with
  | nil => exact h
  | cons c cs ih => exact ih (h.next c)

theorem Reading.proper_after_code (cs : List Char) : (Reading.code.after cs).Proper :=
  Reading.Proper.after (show Reading.code.Proper from trivial) cs

/-- Inside a literal only blanks and quotes are shown. -/
theorem shown_of_ne_code {reading : Reading} (hproper : reading.Proper) (hopen : reading ≠ .code)
    (c : Char) : shown reading c = ' ' ∨ isQuote (shown reading c) = true := by
  unfold shown
  cases reading with
  | code => exact absurd rfl hopen
  | literal quote =>
    by_cases hc : (Reading.literal quote).hides c = true
    · exact Or.inl (if_pos hc)
    · have hquote : c = quote := by
        simp only [Reading.hides, Bool.or_eq_true, decide_eq_true_eq, not_or, not_not] at hc
        exact hc.2
      rw [if_neg hc, hquote]
      exact Or.inr hproper
  | escape quote => exact Or.inl rfl

/-- A character of the code that is neither a blank nor a quote stands in the line, in
a reading as code. -/
theorem eq_code_of_codeFrom_eq_cons {reading : Reading} {line back : List Char} {c : Char}
    (hproper : reading.Proper) (h : codeFrom reading line = c :: back) (hspace : c ≠ ' ')
    (hquote : isQuote c = false) :
    reading = .code ∧ ∃ back', line = c :: back' ∧ codeFrom .code back' = back := by
  obtain ⟨d, ds, rfl, hc, hback⟩ := exists_cons_of_codeFrom_eq_cons h
  have hcode : reading = .code := by
    by_contra hopen
    rcases shown_of_ne_code hproper hopen d with hd | hd
    · exact hspace (hc.symm.trans hd)
    · rw [hc, hquote] at hd
      exact absurd hd (by simp)
  subst hcode
  have hd : d = c := hc
  subst hd
  exact ⟨rfl, ds, rfl, by rw [← hback, next_code hquote]⟩

/-- Code without quotes stands in the line as it is shown. -/
theorem exists_append_of_codeFrom_eq_plain : ∀ {plain back line : List Char},
    (∀ c ∈ plain, isQuote c = false) → codeFrom .code line = plain ++ back →
      ∃ back', line = plain ++ back' ∧ codeFrom .code back' = back
  | [], _, line, _, h => ⟨line, rfl, h⟩
  | c :: plain, back, line, hplain, h => by
    obtain ⟨d, ds, rfl, hd, hrest⟩ := exists_cons_of_codeFrom_eq_cons h
    change d = c at hd
    subst hd
    rw [next_code (hplain d List.mem_cons_self)] at hrest
    obtain ⟨back', rfl, hback⟩ := exists_append_of_codeFrom_eq_plain
      (fun e he => hplain e (List.mem_cons_of_mem _ he)) hrest
    exact ⟨back', rfl, hback⟩

/-- Text whose masked form has no quotes is code and is shown as it is. -/
theorem after_code_of_maskFrom_plain : ∀ {cs : List Char},
    (∀ c ∈ maskFrom .code cs, isQuote c = false) →
      Reading.code.after cs = .code ∧ maskFrom .code cs = cs
  | [], _ => ⟨rfl, rfl⟩
  | c :: cs, h => by
    have hnext := next_code (h c List.mem_cons_self)
    rw [maskFrom_cons, hnext] at h
    obtain ⟨hafter, hmask⟩ :=
      after_code_of_maskFrom_plain fun d hd => h d (List.mem_cons_of_mem _ hd)
    rw [Reading.after_cons, maskFrom_cons, hnext, hafter, hmask]
    exact ⟨rfl, rfl⟩

/-- Text without quotes is shown as it is. -/
theorem maskFrom_code_of_plain : ∀ {cs : List Char}, (∀ c ∈ cs, isQuote c = false) →
    Reading.code.after cs = .code ∧ maskFrom .code cs = cs
  | [], _ => ⟨rfl, rfl⟩
  | c :: cs, h => by
    obtain ⟨hafter, hmask⟩ := maskFrom_code_of_plain fun d hd => h d (List.mem_cons_of_mem _ hd)
    rw [Reading.after_cons, maskFrom_cons, next_code (h c List.mem_cons_self), hafter, hmask]
    exact ⟨rfl, rfl⟩

/-- A plain part of the code of a line that begins with no blank stands in the line,
in a reading as code. -/
theorem exists_line_of_code_eq {line front plain back : List Char} {c : Char}
    (h : code line = front ++ (c :: plain ++ back)) (hspace : c ≠ ' ')
    (hplain : ∀ d ∈ c :: plain, isQuote d = false) :
    ∃ front' back', line = front' ++ (c :: plain ++ back') ∧ mask front' = front ∧
      Reading.code.after front' = .code ∧ codeFrom .code back' = back := by
  obtain ⟨front', rest, rfl, hmask, hrest⟩ := exists_append_of_codeFrom_eq h
  obtain ⟨hcode, -⟩ := eq_code_of_codeFrom_eq_cons (Reading.proper_after_code front') hrest hspace
    (hplain c List.mem_cons_self)
  rw [hcode] at hrest
  obtain ⟨back', rfl, hback⟩ := exists_append_of_codeFrom_eq_plain hplain hrest
  exact ⟨front', back', rfl, hmask, hcode, hback⟩

/-! ## Comment lines -/

/-- The code of a comment line is blank. -/
theorem isBlank_of_mem_code {line : List Char} (h : isCommentLine line = true) {c : Char}
    (hc : c ∈ code line) : isBlank c = true := by
  have hsplit := takeWhile_append_trimStart line
  have hplain : ∀ d ∈ line.takeWhile isBlank, isQuote d = false :=
    fun d hd => isQuote_of_isBlank (isBlank_of_mem_takeWhile hd)
  obtain ⟨hafter, hmask⟩ := maskFrom_code_of_plain hplain
  have hsign : commentSign ∉ maskFrom .code (line.takeWhile isBlank) := by
    rw [hmask]
    intro hmem
    exact absurd (isBlank_of_mem_takeWhile hmem) (by decide)
  cases htrim : trimStart line with
  | nil => simp [isCommentLine, htrim] at h
  | cons d rest =>
    have hd : d = commentSign := by simpa [isCommentLine, htrim] using h
    rw [← hsplit, htrim, hd, code_eq_codeFrom, codeFrom_append hsign, hafter, hmask,
      codeFrom_cons, if_pos (show shown .code commentSign = commentSign from rfl),
      List.append_nil] at hc
    exact isBlank_of_mem_takeWhile hc

end RazenLint.Text
