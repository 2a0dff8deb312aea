import RazenLint.Proofs.Shape
import Mathlib.Computability.Language

/-!
# The pattern of a literal and the reading of a literal

Two parts of the linter know what a literal is. The shape of a value is found by a pattern : a
quote, then plain characters and escaped ones, then the same quote (`quotedPattern`). A line is
masked by a reading from left to right. `isLiteral` is the pattern
(`isLiteral_iff_mem_quotedPattern`), and on one line it is also the reading : the pattern matches
the texts whose first character opens a literal and whose last character is the first one to close
it (`isLiteral_iff_isWholeLiteral`).
-/

namespace RazenLint

open Text Reading

open scoped Computability

/-! ## The pattern -/

/-- A character that a literal takes as it is. -/
def plainCharacter (quote : Char) : Language Char :=
  {cs | ∃ c, c ≠ quote ∧ c ≠ '\\' ∧ cs = [c]}

/-- A backslash and the character that it takes along. -/
def escapedCharacter : Language Char :=
  {cs | ∃ c, c ≠ '\n' ∧ cs = ['\\', c]}

/-- What may follow an opening quote up to the quote that closes the literal. -/
def closingPattern (quote : Char) : Language Char :=
  (plainCharacter quote + escapedCharacter)∗ * {[quote]}

/-- A literal with its quotes. -/
def quotedPattern (quote : Char) : Language Char :=
  {[quote]} * closingPattern quote

/-- A repeated pattern is done, or it is matched once more. -/
theorem kstar_mul_eq (unit rest : Language Char) :
    unit∗ * rest = rest + unit * (unit∗ * rest) := by
  calc unit∗ * rest = (1 + unit * unit∗) * rest := by
        rw [Language.one_add_self_mul_kstar_eq_kstar]
    _ = rest + unit * (unit∗ * rest) := by rw [add_mul, one_mul, mul_assoc]

theorem singleton_mul_iff {c : Char} {rest : Language Char} {cs : List Char} :
    cs ∈ ({[c]} : Language Char) * rest ↔ ∃ ds ∈ rest, cs = c :: ds := by
  rw [Language.mem_mul]
  constructor
  · rintro ⟨_, rfl, ds, hds, rfl⟩
    exact ⟨ds, hds, rfl⟩
  · rintro ⟨ds, hds, rfl⟩
    exact ⟨[c], rfl, ds, hds, rfl⟩

theorem closingPattern_eq (quote : Char) : closingPattern quote = {[quote]} +
    (plainCharacter quote * closingPattern quote + escapedCharacter * closingPattern quote) := by
  rw [← add_mul]
  exact kstar_mul_eq _ _

/-- What the first step through a literal can be : the closing quote, a plain character or an
escaped one. -/
theorem mem_closingPattern_iff {quote : Char} {cs : List Char} :
    cs ∈ closingPattern quote ↔ cs = [quote] ∨
      (∃ c ds, c ≠ quote ∧ c ≠ '\\' ∧ ds ∈ closingPattern quote ∧ cs = c :: ds) ∨
      ∃ c ds, c ≠ '\n' ∧ ds ∈ closingPattern quote ∧ cs = '\\' :: c :: ds := by
  nth_rewrite 1 [closingPattern_eq]
  rw [Language.mem_add, Language.mem_add, Language.mem_mul, Language.mem_mul]
  refine or_congr Iff.rfl (or_congr ⟨?_, ?_⟩ ⟨?_, ?_⟩)
  · rintro ⟨_, ⟨c, hc, hslash, rfl⟩, ds, hds, rfl⟩
    exact ⟨c, ds, hc, hslash, hds, rfl⟩
  · rintro ⟨c, ds, hc, hslash, hds, rfl⟩
    exact ⟨[c], ⟨c, hc, hslash, rfl⟩, ds, hds, rfl⟩
  · rintro ⟨_, ⟨c, hc, rfl⟩, ds, hds, rfl⟩
    exact ⟨c, ds, hc, hds, rfl⟩
  · rintro ⟨c, ds, hc, hds, rfl⟩
    exact ⟨['\\', c], ⟨c, hc, rfl⟩, ds, hds, rfl⟩

theorem nil_notMem_closingPattern (quote : Char) : [] ∉ closingPattern quote := by
  rw [mem_closingPattern_iff]
  simp

theorem cons_mem_closingPattern_iff {quote c : Char} {cs : List Char} :
    c :: cs ∈ closingPattern quote ↔ (c = quote ∧ cs = []) ∨
      (c ≠ quote ∧ c ≠ '\\' ∧ cs ∈ closingPattern quote) ∨
      (c = '\\' ∧ ∃ d ds, d ≠ '\n' ∧ ds ∈ closingPattern quote ∧ cs = d :: ds) := by
  rw [mem_closingPattern_iff]
  simp only [List.cons.injEq]
  refine or_congr Iff.rfl (or_congr ⟨?_, ?_⟩ ⟨?_, ?_⟩)
  · rintro ⟨d, ds, hd, hslash, hds, rfl, rfl⟩
    exact ⟨hd, hslash, hds⟩
  · rintro ⟨hc, hslash, hcs⟩
    exact ⟨c, cs, hc, hslash, hcs, rfl, rfl⟩
  · rintro ⟨d, ds, hd, hds, rfl, rfl⟩
    exact ⟨rfl, d, ds, hd, hds, rfl⟩
  · rintro ⟨rfl, d, ds, hd, hds, rfl⟩
    exact ⟨d, ds, hd, hds, rfl, rfl⟩

theorem closesLiteral_iff_mem_closingPattern {quote : Char} (h : isQuote quote = true)
    (cs : List Char) : closesLiteral quote cs = true ↔ cs ∈ closingPattern quote := by
  have hslash : quote ≠ '\\' := ne_of_isQuote h rfl
  induction cs using closesLiteral.induct quote with
  | case1 => simp [closesLiteral, nil_notMem_closingPattern]
  | case2 cs => simp [closesLiteral_closing, cons_mem_closingPattern_iff, hslash]
  | case3 hc => simp [closesLiteral, cons_mem_closingPattern_iff, hc]
  | case4 escaped rest hc ih =>
    -- the escaped character is no newline on either side
    rw [closesLiteral_escape hc, Bool.and_eq_true, decide_eq_true_eq, cons_mem_closingPattern_iff]
    simp [hc, ih]
  | case5 c cs hc hescape ih =>
    rw [closesLiteral_cons hc hescape, cons_mem_closingPattern_iff]
    simp [hc, hescape, ih]

/-- A text is taken for a literal when one of the two patterns matches it. -/
theorem isLiteral_iff_mem_quotedPattern (cs : List Char) :
    isLiteral cs = true ↔ cs ∈ quotedPattern '"' + quotedPattern '\'' := by
  have hpattern : cs ∈ quotedPattern '"' + quotedPattern '\'' ↔
      ∃ quote ds, isQuote quote = true ∧ ds ∈ closingPattern quote ∧ cs = quote :: ds := by
    rw [Language.mem_add, quotedPattern, quotedPattern, singleton_mul_iff, singleton_mul_iff]
    constructor
    · rintro (⟨ds, hds, rfl⟩ | ⟨ds, hds, rfl⟩)
      · exact ⟨'"', ds, rfl, hds, rfl⟩
      · exact ⟨'\'', ds, rfl, hds, rfl⟩
    · rintro ⟨quote, ds, hquote, hds, rfl⟩
      simp only [isQuote, Bool.or_eq_true, beq_iff_eq] at hquote
      rcases hquote with rfl | rfl
      · exact Or.inl ⟨ds, hds, rfl⟩
      · exact Or.inr ⟨ds, hds, rfl⟩
  rw [hpattern]
  cases cs with
  | nil => simp [isLiteral]
  | cons c cs =>
    rw [isLiteral, Bool.and_eq_true]
    constructor
    · rintro ⟨hc, hclose⟩
      exact ⟨c, cs, hc, (closesLiteral_iff_mem_closingPattern hc cs).1 hclose, rfl⟩
    · rintro ⟨quote, ds, hquote, hds, heq⟩
      obtain ⟨rfl, rfl⟩ := List.cons.injEq .. ▸ heq
      exact ⟨hquote, (closesLiteral_iff_mem_closingPattern hquote _).2 hds⟩

/-! ## The reading -/

/-- A reading that is first back in code after the last character of a text. -/
structure Text.Reading.ClosesWith (reading : Reading) (cs : List Char) : Prop where
  staysOpen : ∀ n < cs.length, (reading.after (cs.take n)).isOpen = true
  closes : reading.after cs = .code

theorem Text.Reading.closesWith_nil {reading : Reading} :
    reading.ClosesWith [] ↔ reading = .code :=
  ⟨fun h => h.closes, fun h => ⟨fun _ hn => absurd hn (Nat.not_lt_zero _), h⟩⟩

theorem Text.Reading.closesWith_cons {reading : Reading} {c : Char} {cs : List Char} :
    reading.ClosesWith (c :: cs) ↔
      reading.isOpen = true ∧ (reading.next c).ClosesWith cs := by
  constructor
  · intro h
    refine ⟨h.staysOpen 0 (Nat.succ_pos _), fun n hn => ?_, h.closes⟩
    exact h.staysOpen (n + 1) (Nat.succ_lt_succ hn)
  · rintro ⟨hopen, hstays, hcloses⟩
    refine ⟨fun n hn => ?_, hcloses⟩
    cases n with
    | zero => exact hopen
    | succ n => exact hstays n (Nat.lt_of_succ_lt_succ hn)

theorem Text.Reading.closesWith_code {cs : List Char} :
    Reading.code.ClosesWith cs ↔ cs = [] := by
  cases cs with
  | nil => simp [closesWith_nil]
  | cons c cs => simp [closesWith_cons, Reading.isOpen]

theorem closesLiteral_iff_closesWith {quote : Char} (h : isQuote quote = true) (cs : List Char) :
    '\n' ∉ cs → (closesLiteral quote cs = true ↔ (Reading.literal quote).ClosesWith cs) := by
  induction cs using closesLiteral.induct quote with
  | case1 => simp [closesLiteral, closesWith_nil]
  | case2 cs =>
    intro _
    simp [closesLiteral_closing, closesWith_cons, next_closing h, closesWith_code, Reading.isOpen]
  | case3 hc => simp [closesLiteral, closesWith_cons, next_slash, closesWith_nil, hc]
  | case4 escaped rest hc ih =>
    intro hnewline
    simp only [List.mem_cons, not_or] at hnewline
    rw [closesLiteral_escape hc, decide_eq_true (Ne.symm hnewline.2.1), Bool.true_and,
      closesWith_cons, next_slash, closesWith_cons, ih hnewline.2.2]
    simp [Reading.isOpen, Reading.next]
  | case5 c cs hc hescape ih =>
    intro hnewline
    rw [closesLiteral_cons hc hescape, closesWith_cons, next_literal hc hescape,
      ih (List.not_mem_of_not_mem_cons hnewline)]
    simp [Reading.isOpen]

/-- A text that is read as one literal : its first character opens it, and it is closed with the
last character and not before. -/
structure IsWholeLiteral (cs : List Char) : Prop where
  opens : (Reading.code.after (cs.take 1)).isOpen = true
  staysOpen : ∀ n, 1 ≤ n → n < cs.length → (Reading.code.after (cs.take n)).isOpen = true
  closes : Reading.code.after cs = .code

theorem isWholeLiteral_cons {c : Char} {cs : List Char} :
    IsWholeLiteral (c :: cs) ↔ isQuote c = true ∧ (Reading.literal c).ClosesWith cs := by
  have hopens : (Reading.code.next c).isOpen = true ↔ isQuote c = true := by
    cases hc : isQuote c with
    | false => simp [next_code hc, Reading.isOpen]
    | true => simp [next_quote hc, Reading.isOpen]
  constructor
  · intro h
    have hquote : isQuote c = true := hopens.1 h.opens
    refine ⟨hquote, fun n hn => ?_, ?_⟩
    · have hstays := h.staysOpen (n + 1) (Nat.le_add_left 1 n) (Nat.succ_lt_succ hn)
      rwa [List.take_succ_cons, Reading.after_cons, next_quote hquote] at hstays
    · have hcloses := h.closes
      rwa [Reading.after_cons, next_quote hquote] at hcloses
  · rintro ⟨hquote, hstays, hcloses⟩
    refine ⟨hopens.2 hquote, fun n hpos hn => ?_, ?_⟩
    · obtain ⟨m, rfl⟩ : ∃ m, n = m + 1 := ⟨n - 1, by omega⟩
      rw [List.take_succ_cons, Reading.after_cons, next_quote hquote]
      exact hstays m (Nat.lt_of_succ_lt_succ hn)
    · rwa [Reading.after_cons, next_quote hquote]

theorem isLiteral_iff_isWholeLiteral {cs : List Char} (h : '\n' ∉ cs) :
    isLiteral cs = true ↔ IsWholeLiteral cs := by
  cases cs with
  | nil => exact ⟨fun hliteral => absurd hliteral (by decide), fun hwhole => hwhole.opens⟩
  | cons c cs =>
    rw [isLiteral, isWholeLiteral_cons, Bool.and_eq_true]
    refine and_congr_right fun hc => ?_
    exact closesLiteral_iff_closesWith hc cs (List.not_mem_of_not_mem_cons h)

/-- What the masked form of one literal shows are its two quotes. -/
theorem isLiteral_iff_mask {cs : List Char} (h : '\n' ∉ cs) :
    isLiteral cs = true ↔
      ∃ quote n, isQuote quote = true ∧ mask cs = quote :: (List.replicate n ' ' ++ [quote]) := by
  cases cs with
  | nil => simp [isLiteral, mask, maskFrom]
  | cons c cs =>
    have hcs : '\n' ∉ cs := List.not_mem_of_not_mem_cons h
    have hmask : mask (c :: cs) = c :: maskFrom (Reading.code.next c) cs := rfl
    rw [isLiteral, Bool.and_eq_true, hmask]
    constructor
    · rintro ⟨hc, hclose⟩
      obtain ⟨n, hn⟩ := (closesLiteral_iff hc cs hcs).1 hclose
      exact ⟨c, n, hc, by rw [next_quote hc, hn]⟩
    · rintro ⟨quote, n, hquote, heq⟩
      obtain ⟨rfl, hrest⟩ := List.cons.inj heq
      rw [next_quote hquote] at hrest
      exact ⟨hquote, (closesLiteral_iff hquote cs hcs).2 ⟨n, hrest⟩⟩

/-! ## The rule for literals -/

theorem Shape.ofExpression_of_isLiteral {cs : List Char} (h : isLiteral cs = true) :
    Shape.ofExpression cs = .textual := by
  cases cs with
  | nil => exact absurd h (by decide)
  | cons c cs =>
    have hquote : isQuote c = true := (Bool.and_eq_true_iff.1 h).1
    have hrest : isIdentRest c = false := by
      by_contra hident
      rw [Bool.not_eq_false] at hident
      exact absurd hquote (by simp [isQuote_of_isIdentRest hident])
    have hsign : c ≠ '+' ∧ c ≠ '-' ∧ c ≠ '.' := by
      refine ⟨?_, ?_, ?_⟩ <;> exact fun hc => ne_of_isQuote hquote (by decide) hc
    rw [Shape.ofExpression_of_mem List.mem_cons_self hrest hsign, if_pos h]

/-- What is text and no literal is a sum. -/
theorem Shape.plus_mem_mask_of_textual {cs : List Char} (h : Shape.ofExpression cs = .textual)
    (hliteral : isLiteral cs = false) : '+' ∈ mask cs := by
  by_contra hplus
  have hsum : (mask cs).contains '+' = false := by simpa using hplus
  simp only [Shape.ofExpression, Shape.ofOperators, hliteral, hsum, Bool.false_eq_true,
    if_false] at h
  split_ifs at h

/-- The two recognisers of literals agree on every text of one line. The patterns match exactly
the texts that are read as one literal, which are those whose masked form shows a quote at each
end and nothing between them. A shape can also be textual for a sum that is shown, so without a
plus sign it is textual exactly when the expression is read as one literal. -/
theorem quotedPattern_iff_isWholeLiteral {fragment : List Char} (h : '\n' ∉ fragment) :
    (fragment ∈ quotedPattern '"' + quotedPattern '\'' ↔ IsWholeLiteral fragment) ∧
      (isLiteral fragment = true ↔ IsWholeLiteral fragment) ∧
      (IsWholeLiteral fragment ↔ ∃ quote n, isQuote quote = true ∧
        mask fragment = quote :: (List.replicate n ' ' ++ [quote])) ∧
      (Shape.classify fragment = .textual ∧ '+' ∉ mask (expressionOf fragment) ↔
        IsWholeLiteral (expressionOf fragment)) := by
  have hwhole := isLiteral_iff_isWholeLiteral h
  have hexpression : '\n' ∉ expressionOf fragment :=
    fun hmem => h ((expressionOf_sublist fragment).subset hmem)
  refine ⟨?_, hwhole, ?_, ?_⟩
  · rw [← isLiteral_iff_mem_quotedPattern, hwhole]
  · rw [← hwhole, isLiteral_iff_mask h]
  · rw [← isLiteral_iff_isWholeLiteral hexpression]
    constructor
    · rintro ⟨htextual, hplus⟩
      by_contra hno
      exact hplus (Shape.plus_mem_mask_of_textual htextual (by simpa using hno))
    · intro hliteral
      refine ⟨Shape.ofExpression_of_isLiteral hliteral, ?_⟩
      obtain ⟨quote, n, hquote, hmask⟩ := (isLiteral_iff_mask hexpression).1 hliteral
      have hne : '+' ≠ quote := (ne_of_isQuote hquote rfl).symm
      simp [hmask, hne]

/-- An escaped quote and a quote of the other kind close nothing. -/
theorem quotedPattern_iff_isWholeLiteral_escapedQuote :
    '\n' ∉ ['"', '\\', '"', '\'', '"'] ∧
      ['"', '\\', '"', '\'', '"'] ∈ quotedPattern '"' + quotedPattern '\'' := by
  have hnewline : '\n' ∉ ['"', '\\', '"', '\'', '"'] := by decide
  have hopen : ∀ n < 5, 1 ≤ n →
      (Reading.code.after (['"', '\\', '"', '\'', '"'].take n)).isOpen = true := by decide
  exact ⟨hnewline, (quotedPattern_iff_isWholeLiteral hnewline).1.2
    ⟨rfl, fun n hpos hn => hopen n hn hpos, rfl⟩⟩

end RazenLint
