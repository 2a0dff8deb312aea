import RazenLint.Proofs.Event.CallHead
import RazenLint.Proofs.Text.Bracket
import RazenLint.Proofs.Text.Outline

/-!
# What the shape of a value depends on

The shape of a value is guessed from its text, but only from what the masked text
shows : expressions with one outline have one shape (`Shape.classify_congr`), whatever
their literals hold. Nor does it matter which head of a call stands behind the beginning
of an expression (`Shape.classify_exchange`) : no head shows an operator, and every head
leaves the depth of brackets as it was.
-/

namespace RazenLint

open Text Reading

/-! ## Expressions with a sign in them -/

theorem of_mem_isNumeral {cs : List Char} (h : isNumeral cs = true) {c : Char} (hc : c ∈ cs) :
    c = '+' ∨ c = '-' ∨ c = '.' ∨ c.isDigit = true := by
  cases cs with
  | nil => exact absurd hc List.not_mem_nil
  | cons d ds =>
    obtain ⟨unsigned, hunsigned, hmem⟩ : ∃ unsigned,
        unsigned = (if d = '+' ∨ d = '-' then ds else d :: ds) ∧
          (c = '+' ∨ c = '-' ∨ c ∈ unsigned) := by
      refine ⟨_, rfl, ?_⟩
      split
      · rename_i hd
        rcases List.mem_cons.1 hc with rfl | hc
        · exact hd.imp_right Or.inl
        · exact Or.inr (Or.inr hc)
      · exact Or.inr (Or.inr hc)
    rw [isNumeral, ← hunsigned] at h
    refine hmem.imp_right (Or.imp_right fun hmem => ?_)
    rw [← List.takeWhile_append_dropWhile (p := Char.isDigit) (l := unsigned)] at hmem
    rcases List.mem_append.1 hmem with hmem | hmem
    · exact Or.inr (List.all_eq_true.1 List.all_takeWhile c hmem)
    · split at h
      · rename_i hdrop
        rw [hdrop] at hmem
        exact absurd hmem List.not_mem_nil
      · rename_i point fraction hdrop
        rw [hdrop] at hmem
        simp only [Bool.and_eq_true, decide_eq_true_eq, List.all_eq_true] at h
        rcases List.mem_cons.1 hmem with rfl | hmem
        · exact Or.inl h.1.1
        · exact Or.inr (h.1.2 c hmem)

/-- An expression with a character that stands in no number and in no word. -/
theorem Shape.ofExpression_of_mem {cs : List Char} {c : Char} (hc : c ∈ cs)
    (hrest : isIdentRest c = false) (hsign : c ≠ '+' ∧ c ≠ '-' ∧ c ≠ '.') :
    Shape.ofExpression cs =
      if isLiteral cs then .textual
      else if encloses '[' ']' (mask cs) then .array
      else if hasArithmetic (mask cs) || hasLogic (mask cs) then .ofOperators (mask cs)
      else .unknown := by
  have hnil : cs.isEmpty = false := by
    rw [List.isEmpty_eq_false_iff]
    exact List.ne_nil_of_mem hc
  have hnumeral : isNumeral cs = false := by
    by_contra h
    rw [Bool.not_eq_false] at h
    rcases of_mem_isNumeral h hc with h | h | h | h
    · exact hsign.1 h
    · exact hsign.2.1 h
    · exact hsign.2.2 h
    · have : isIdentRest c = true := by simp [isIdentRest, Char.isAlphanum, h]
      rw [hrest] at this
      exact absurd this (by simp)
  have hident : isIdent cs = false := by
    by_contra h
    rw [Bool.not_eq_false] at h
    rw [isIdentRest_of_mem_isIdent h hc] at hrest
    exact absurd hrest (by simp)
  have hword : ¬(cs = "true".toList ∨ cs = "false".toList) := by
    rintro (rfl | rfl)
    · exact absurd hident (by decide)
    · exact absurd hident (by decide)
  simp only [Shape.ofExpression, hnil, hnumeral, hident, hword, if_false, Bool.false_eq_true]

/-! ## Literals -/

theorem closesLiteral_closing (quote : Char) (cs : List Char) :
    closesLiteral quote (quote :: cs) = cs.isEmpty := by
  rw [closesLiteral.eq_def]
  exact if_pos rfl

theorem closesLiteral_escape {quote : Char} (h : '\\' ≠ quote) (c : Char) (cs : List Char) :
    closesLiteral quote ('\\' :: c :: cs) = (decide (c ≠ '\n') && closesLiteral quote cs) := by
  rw [closesLiteral, if_neg h, if_pos rfl]

theorem closesLiteral_cons {quote c : Char} (hc : c ≠ quote) (hslash : c ≠ '\\')
    (cs : List Char) : closesLiteral quote (c :: cs) = closesLiteral quote cs := by
  rw [closesLiteral.eq_def]
  exact (if_neg hc).trans (if_neg hslash)

/-- A masked text that shows nothing but the end of a literal. -/
def EndsLiteral (quote : Char) (masked : List Char) : Prop :=
  ∃ n, masked = List.replicate n ' ' ++ [quote]

theorem endsLiteral_space_cons {quote : Char} (h : isQuote quote = true) {masked : List Char} :
    EndsLiteral quote (' ' :: masked) ↔ EndsLiteral quote masked := by
  constructor
  · rintro ⟨n, hn⟩
    cases n with
    | zero =>
      rw [List.replicate_zero, List.nil_append, List.cons.injEq] at hn
      exact absurd hn.1 (ne_of_isQuote h rfl).symm
    | succ n =>
      rw [List.replicate_succ, List.cons_append, List.cons.injEq] at hn
      exact ⟨n, hn.2⟩
  · rintro ⟨n, rfl⟩
    exact ⟨n + 1, rfl⟩

/-- The end of a literal is shown where nothing follows it. -/
theorem endsLiteral_closing_cons {quote : Char} (h : isQuote quote = true) {masked : List Char} :
    EndsLiteral quote (quote :: masked) ↔ masked = [] := by
  constructor
  · rintro ⟨n, hn⟩
    cases n with
    | zero =>
      rw [List.replicate_zero, List.nil_append, List.cons.injEq] at hn
      exact hn.2
    | succ n =>
      rw [List.replicate_succ, List.cons_append, List.cons.injEq] at hn
      exact absurd hn.1 (ne_of_isQuote h rfl)
  · rintro rfl
    exact ⟨0, rfl⟩

/-- A literal is closed by the last character exactly when the masked text shows nothing
but that. -/
theorem closesLiteral_iff {quote : Char} (h : isQuote quote = true) (cs : List Char) :
    '\n' ∉ cs →
      (closesLiteral quote cs = true ↔ EndsLiteral quote (maskFrom (.literal quote) cs)) := by
  induction cs using closesLiteral.induct quote with
  | case1 =>
    intro _
    simp [closesLiteral, EndsLiteral, maskFrom]
  | case2 cs =>
    intro _
    rw [closesLiteral_closing, maskFrom_cons, shown_closing h, endsLiteral_closing_cons h,
      List.isEmpty_iff, ← List.length_eq_zero_iff, ← List.length_eq_zero_iff, length_maskFrom]
  | case3 hc =>
    intro _
    rw [maskFrom_cons, shown_literal hc, endsLiteral_space_cons h]
    simp [closesLiteral, hc, EndsLiteral, maskFrom]
  | case4 escaped rest hc ih =>
    intro hnewline
    rw [List.mem_cons, List.mem_cons, not_or, not_or] at hnewline
    have hescaped : shown (.escape quote) escaped = ' ' := rfl
    rw [maskFrom_cons, shown_literal hc, next_slash, maskFrom_cons, hescaped,
      endsLiteral_space_cons h, endsLiteral_space_cons h, closesLiteral_escape hc,
      decide_eq_true (Ne.symm hnewline.2.1), Bool.true_and]
    exact ih hnewline.2.2
  | case5 c cs hc hescape ih =>
    intro hnewline
    rw [List.mem_cons, not_or] at hnewline
    rw [maskFrom_cons, shown_literal hc, next_literal hc hescape, endsLiteral_space_cons h,
      closesLiteral_cons hc hescape]
    exact ih hnewline.2

/-- Whether a text is one literal shows in its masked form. -/
theorem isLiteral_congr {cs cs' : List Char} (h : mask cs = mask cs') (hcs : '\n' ∉ cs)
    (hcs' : '\n' ∉ cs') : isLiteral cs = isLiteral cs' := by
  cases cs with
  | nil =>
    cases cs' with
    | nil => rfl
    | cons d ds => exact absurd h (by simp [mask, maskFrom])
  | cons c cs =>
    cases cs' with
    | nil => exact absurd h (by simp [mask, maskFrom])
    | cons d ds =>
      rw [mask, mask, maskFrom_cons, maskFrom_cons, List.cons.injEq] at h
      obtain ⟨hcd, htail⟩ := h
      have hcd : c = d := hcd
      subst hcd
      rw [isLiteral, isLiteral]
      cases hc : isQuote c with
      | false => rfl
      | true =>
        rw [next_quote hc] at htail
        rw [Bool.true_and, Bool.true_and, Bool.eq_iff_iff,
          closesLiteral_iff hc cs fun hmem => hcs (List.mem_cons_of_mem c hmem),
          closesLiteral_iff hc ds fun hmem => hcs' (List.mem_cons_of_mem c hmem), htail]

/-- A literal is closed at its end, and code goes on. -/
theorem after_of_closesLiteral {quote : Char} (h : isQuote quote = true) (cs : List Char) :
    closesLiteral quote cs = true → (Reading.literal quote).after cs = .code := by
  induction cs using closesLiteral.induct quote with
  | case1 => simp [closesLiteral]
  | case2 cs =>
    rw [closesLiteral_closing, List.isEmpty_iff]
    rintro rfl
    exact next_closing h
  | case3 hc => simp [closesLiteral, hc]
  | case4 escaped rest hc ih =>
    rw [closesLiteral_escape hc, Bool.and_eq_true]
    exact fun hclose => ih hclose.2
  | case5 c cs hc hescape ih =>
    rw [closesLiteral_cons hc hescape, Reading.after_cons, next_literal hc hescape]
    exact ih

/-- No literal is closed in the middle and at the end. -/
theorem closesLiteral_append {quote : Char} {back : List Char} (hback : back ≠ [])
    (front : List Char) : (Reading.literal quote).after front = .code →
      closesLiteral quote (front ++ back) = false := by
  induction front using closesLiteral.induct quote with
  | case1 => exact fun h => absurd h (by simp)
  | case2 front =>
    intro _
    rw [List.cons_append, closesLiteral_closing]
    simp [hback]
  | case3 hc => exact fun h => absurd h (by simp [Reading.next])
  | case4 escaped rest hc ih =>
    intro h
    rw [Reading.after_cons, next_slash] at h
    rw [List.cons_append, List.cons_append, closesLiteral_escape hc, ih h, Bool.and_false]
  | case5 c cs hc hescape ih =>
    intro h
    rw [Reading.after_cons, next_literal hc hescape] at h
    rw [List.cons_append, closesLiteral_cons hc hescape, ih h]

theorem isLiteral_append {front back : List Char} (hfront : front ≠ []) (hback : back ≠ [])
    (hcode : Reading.code.after front = .code) : isLiteral (front ++ back) = false := by
  obtain ⟨c, front, rfl⟩ := List.exists_cons_of_ne_nil hfront
  rw [List.cons_append, isLiteral]
  cases hc : isQuote c with
  | false => rfl
  | true =>
    rw [Reading.after_cons, next_quote hc] at hcode
    rw [closesLiteral_append hback front hcode]
    rfl

/-! ## Operators -/

theorem hasPair_append_of_notMem {first second : Char} (back : List Char) :
    ∀ {front : List Char}, first ∉ front →
      hasPair first second (front ++ back) = hasPair first second back
  | [], _ => rfl
  | c :: front, h => by
    rw [List.mem_cons, not_or] at h
    have hc : c ≠ first := Ne.symm h.1
    rw [List.cons_append, hasPair, hasPair_append_of_notMem back h.2]
    simp [hc]

/-- A pair stands in one of two parts unless it is where they meet. -/
theorem hasPair_append {first second : Char} {back : List Char} (h : back.head? ≠ some second) :
    ∀ front : List Char,
      hasPair first second (front ++ back) =
        (hasPair first second front || hasPair first second back)
  | [] => rfl
  | c :: front => by
    rw [List.cons_append, hasPair, hasPair, hasPair_append h front]
    cases front with
    | nil => simp [h]
    | cons d ds => simp [Bool.or_assoc]

/-- Two masked texts that show the same operators. -/
structure SameOperators (masked masked' : List Char) : Prop where
  arithmetic : hasArithmetic masked = hasArithmetic masked'
  logic : hasLogic masked = hasLogic masked'
  quotes : masked.any isQuote = masked'.any isQuote
  plus : masked.contains '+' = masked'.contains '+'

theorem Shape.ofOperators_congr {masked masked' : List Char} (h : SameOperators masked masked') :
    Shape.ofOperators masked = Shape.ofOperators masked' := by
  rw [ofOperators, ofOperators, h.logic, h.quotes, h.plus]

/-- A character that is no part of an operator and no quote. -/
def isNeutral (c : Char) : Bool :=
  !isQuote c && !(['+', '-', '*', '/', '%', '=', '&', '|', '<', '>', '!'].contains c)

theorem any_between {p : Char → Bool} {cs : List Char} (h : ∀ c ∈ cs, p c = false)
    (front back : List Char) : (front ++ (cs ++ back)).any p = (front.any p || back.any p) := by
  have hnone : cs.any p = false := List.any_eq_false.2 fun c hc => by simp [h c hc]
  rw [List.any_append, List.any_append, hnone, Bool.false_or]

/-- A sign that stands in no middle part is not doubled across it. -/
theorem hasPair_between {sign : Char} {cs back : List Char} (h : sign ∉ cs)
    (hne : cs ≠ [] ∨ back = []) (front : List Char) :
    hasPair sign sign (front ++ (cs ++ back)) =
      (hasPair sign sign front || hasPair sign sign back) := by
  have hhead : (cs ++ back).head? ≠ some sign := by
    by_cases hnil : cs = []
    · simp [hnil, hne.resolve_left (absurd hnil)]
    · rw [List.head?_append_of_ne_nil cs hnil]
      exact fun heq => h (List.mem_of_head? heq)
  rw [hasPair_append hhead, hasPair_append_of_notMem back h]

theorem of_isNeutral {c : Char} (h : isNeutral c = true) : isQuote c = false ∧
    ['+', '-', '*', '/', '%'].contains c = false ∧ ['<', '>', '!'].contains c = false := by
  simp only [isNeutral, Bool.and_eq_true, Bool.not_eq_true', List.contains_eq_mem,
    decide_eq_false_iff_not, List.mem_cons, List.not_mem_nil, or_false, not_or] at h ⊢
  obtain ⟨hquote, h1, h2, h3, h4, h5, -, -, -, h6, h7, h8⟩ := h
  exact ⟨hquote, ⟨h1, h2, h3, h4, h5⟩, h6, h7, h8⟩

/-- Text that shows no operators can be exchanged. -/
theorem sameOperators_append {neutral neutral' back : List Char} (h : neutral ≠ [] ∨ back = [])
    (h' : neutral' ≠ [] ∨ back = []) (hall : ∀ c ∈ neutral, isNeutral c = true)
    (hall' : ∀ c ∈ neutral', isNeutral c = true) (front : List Char) :
    SameOperators (front ++ (neutral ++ back)) (front ++ (neutral' ++ back)) := by
  have hany : ∀ p : Char → Bool, (∀ c, isNeutral c = true → p c = false) →
      (front ++ (neutral ++ back)).any p = (front ++ (neutral' ++ back)).any p := fun p hp => by
    rw [any_between fun c hc => hp c (hall c hc), any_between fun c hc => hp c (hall' c hc)]
  have hpair : ∀ sign, isNeutral sign = false → hasPair sign sign (front ++ (neutral ++ back)) =
      hasPair sign sign (front ++ (neutral' ++ back)) := fun sign hsign => by
    have hnone : ∀ {cs : List Char}, (∀ c ∈ cs, isNeutral c = true) → sign ∉ cs :=
      fun hcs hmem => absurd (hcs sign hmem) (by simp [hsign])
    rw [hasPair_between (hnone hall) h, hasPair_between (hnone hall') h']
  constructor
  · exact hany _ fun c hc => (of_isNeutral hc).2.1
  · rw [hasLogic, hasLogic, hpair '=' rfl, hpair '&' rfl, hpair '|' rfl,
      hany _ fun c hc => (of_isNeutral hc).2.2]
  · exact hany isQuote fun c hc => (of_isNeutral hc).1
  · rw [List.contains_eq_any_beq, List.contains_eq_any_beq]
    refine hany _ fun c hc => ?_
    have hplus := (of_isNeutral hc).2.1
    rw [List.contains_cons, Bool.or_eq_false_iff] at hplus
    exact beq_eq_false_iff_ne.2 (Ne.symm (beq_eq_false_iff_ne.1 hplus.1))

/-! ## One outline, one shape -/

theorem isNeutral_of_isBlank {c : Char} (h : isBlank c = true) : isNeutral c = true := by
  rw [isNeutral, isQuote_of_isBlank h]
  simp only [Bool.not_false, Bool.true_and, Bool.not_eq_true', List.contains_eq_mem,
    decide_eq_false_iff_not, List.mem_cons, List.not_mem_nil, or_false]
  rintro (rfl | rfl | rfl | rfl | rfl | rfl | rfl | rfl | rfl | rfl | rfl) <;>
    exact absurd h (by decide)

theorem isNeutral_of_isIdentRest {c : Char} (h : isIdentRest c = true) : isNeutral c = true := by
  by_contra hno
  simp only [isNeutral, isQuote, Bool.and_eq_true, Bool.not_eq_true', List.contains_eq_mem,
    decide_eq_false_iff_not, List.mem_cons, List.not_mem_nil, or_false, Bool.or_eq_false_iff,
    beq_eq_false_iff_ne, not_and_or, not_not] at hno
  rcases hno with
    (rfl | rfl) | rfl | rfl | rfl | rfl | rfl | rfl | rfl | rfl | rfl | rfl | rfl <;>
    exact absurd h (by decide)

/-- Blanks at the end show no operators. -/
theorem sameOperators_outline (cs : List Char) : SameOperators (mask cs) (outline cs) := by
  obtain ⟨blanks, hmask, hblank⟩ := exists_trimEnd_append (mask cs)
  have h : SameOperators (trimEnd (mask cs) ++ (blanks ++ [])) (trimEnd (mask cs) ++ ([] ++ [])) :=
    sameOperators_append (Or.inr rfl) (Or.inr rfl)
      (fun c hc => isNeutral_of_isBlank (hblank c hc)) (by simp) (trimEnd (mask cs))
  rw [List.append_nil, List.append_nil, List.append_nil, ← hmask] at h
  exact h

theorem mem_of_mem_maskFrom {c : Char} : ∀ {reading : Reading} {cs : List Char},
    c ∈ maskFrom reading cs → c = ' ' ∨ c ∈ cs
  | _, [], h => absurd h List.not_mem_nil
  | reading, d :: ds, h => by
    rw [maskFrom_cons] at h
    rcases List.mem_cons.1 h with rfl | h
    · unfold shown
      split
      · exact Or.inl rfl
      · exact Or.inr List.mem_cons_self
    · exact (mem_of_mem_maskFrom h).imp_right (List.mem_cons_of_mem d)

/-- The shape of an expression with a quote in it. -/
theorem Shape.ofExpression_of_quote {cs : List Char} {c : Char} (hc : c ∈ mask cs)
    (hquote : isQuote c = true) : Shape.ofExpression cs =
      if isLiteral cs then .textual
      else if encloses '[' ']' (mask cs) then .array
      else if hasArithmetic (mask cs) || hasLogic (mask cs) then .ofOperators (mask cs)
      else .unknown := by
  have hmem : c ∈ cs := by
    rcases mem_of_mem_maskFrom hc with rfl | hmem
    · exact absurd hquote (by decide)
    · exact hmem
  simp only [isQuote, Bool.or_eq_true, beq_iff_eq] at hquote
  rcases hquote with rfl | rfl
  · exact Shape.ofExpression_of_mem hmem rfl (by decide)
  · exact Shape.ofExpression_of_mem hmem rfl (by decide)

/-- Expressions that are masked alike have one shape. -/
theorem Shape.ofExpression_congr_mask {cs cs' : List Char} (h : mask cs = mask cs')
    (hcs : '\n' ∉ cs) (hcs' : '\n' ∉ cs') : Shape.ofExpression cs = Shape.ofExpression cs' := by
  by_cases hquote : ∃ c ∈ mask cs, isQuote c = true
  · obtain ⟨c, hc, hquote⟩ := hquote
    rw [Shape.ofExpression_of_quote hc hquote, Shape.ofExpression_of_quote (h ▸ hc) hquote,
      isLiteral_congr h hcs hcs', h]
  · have hplain : ∀ c ∈ mask cs, isQuote c = false := fun c hc => by
      by_contra hne
      exact hquote ⟨c, hc, by simpa using hne⟩
    have heq := (after_code_of_maskFrom_plain hplain).2
    rw [h] at hplain
    rw [← heq, ← (after_code_of_maskFrom_plain hplain).2]
    exact congrArg Shape.ofExpression h

/-- The shape of an expression that ends in an open literal is read off its outline. -/
theorem Shape.ofExpression_of_open {cs : List Char} (hopen : Reading.code.after cs ≠ .code) :
    Shape.ofExpression cs =
      if hasArithmetic (outline cs) || hasLogic (outline cs) then .ofOperators (outline cs)
      else .unknown := by
  obtain ⟨c, hc, hquote⟩ : ∃ c ∈ mask cs, isQuote c = true := by
    by_contra hno
    refine hopen (after_code_of_maskFrom_plain fun c hc => ?_).1
    by_contra hquote
    exact hno ⟨c, hc, by simpa using hquote⟩
  have hliteral : isLiteral cs = false := by
    by_contra h
    rw [Bool.not_eq_false] at h
    cases cs with
    | nil => exact absurd h (by simp [isLiteral])
    | cons d ds =>
      rw [isLiteral, Bool.and_eq_true] at h
      rw [Reading.after_cons, next_quote h.1] at hopen
      exact hopen (after_of_closesLiteral h.1 ds h.2)
  have hlast : (mask cs).getLast? ≠ some ']' := by
    rcases List.eq_nil_or_concat cs with rfl | ⟨front, d, rfl⟩
    · simp [mask, maskFrom]
    · rw [List.concat_eq_append] at *
      rw [Reading.after_append, Reading.after_cons, Reading.after_nil] at hopen
      rw [mask, maskFrom_append, maskFrom_cons, maskFrom, List.getLast?_concat, ne_eq,
        Option.some.injEq]
      intro hbracket
      by_cases hcode : Reading.code.after front = .code
      · rw [hcode] at hopen hbracket
        have hd : d = ']' := hbracket
        subst hd
        exact hopen rfl
      · rcases shown_of_ne_code (Reading.proper_after_code front) hcode d with hd | hd <;>
          rw [hbracket] at hd <;> exact absurd hd (by decide)
  have hencloses : encloses '[' ']' (mask cs) = false := by simp [encloses, hlast]
  have hoperators := sameOperators_outline cs
  rw [Shape.ofExpression_of_quote hc hquote, hliteral, hencloses, hoperators.arithmetic,
    hoperators.logic, Shape.ofOperators_congr hoperators]
  simp

theorem expressionOf_sublist (cs : List Char) : (expressionOf cs).Sublist cs :=
  (trimEnd_sublist _).trans <| (dropSemicolon_sublist _).trans <|
    (trimEnd_sublist _).trans (List.dropWhile_sublist _)

/-- Texts with one outline have one shape. -/
theorem Shape.classify_congr {cs cs' : List Char} (h : outline cs = outline cs')
    (hcs : '\n' ∉ cs) (hcs' : '\n' ∉ cs') : Shape.classify cs = Shape.classify cs' := by
  have houtline := outline_expressionOf h
  have hquote : (Reading.code.after (expressionOf cs)).quote? =
      (Reading.code.after (expressionOf cs')).quote? := by
    rw [quote?_after_eq_outline, quote?_after_eq_outline, houtline]
  have htrim : ∀ cs, trimEnd (expressionOf cs) = expressionOf cs := fun cs => trimEnd_trimEnd _
  unfold Shape.classify
  by_cases hcode : Reading.code.after (expressionOf cs) = .code
  · have hcode' : Reading.code.after (expressionOf cs') = .code := by
      rw [← quote?_eq_none_iff, ← hquote, quote?_eq_none_iff]
      exact hcode
    refine Shape.ofExpression_congr_mask ?_
      (fun hmem => hcs ((expressionOf_sublist cs).subset hmem))
      (fun hmem => hcs' ((expressionOf_sublist cs').subset hmem))
    rw [(mask_eq_outline (htrim cs) hcode).1, (mask_eq_outline (htrim cs') hcode').1]
    exact houtline
  · have hopen' : Reading.code.after (expressionOf cs') ≠ .code := by
      rw [ne_eq, ← quote?_eq_none_iff, ← hquote, quote?_eq_none_iff]
      exact hcode
    rw [Shape.ofExpression_of_open hcode, Shape.ofExpression_of_open hopen', houtline]

/-! ## Exchanging a head -/

theorem CallHead.Fits.isNeutral_of_mem {head : CallHead} {blanks : List Char}
    (hfits : head.Fits blanks) {c : Char} (hc : c ∈ head.written blanks) : isNeutral c = true := by
  rw [CallHead.written_eq, List.mem_append, List.mem_singleton] at hc
  rcases hc with hc | rfl
  · rcases hfits.of_mem_stem hc with hrest | hblank | rfl | rfl | rfl
    · exact isNeutral_of_isIdentRest hrest
    · exact isNeutral_of_isBlank hblank
    · rfl
    · rfl
    · rfl
  · rfl

/-- A head leaves the depth of brackets as it was. -/
theorem CallHead.Fits.closesAtEnd_written {head : CallHead} {blanks : List Char}
    (hfits : head.Fits blanks) {depth : Nat} (hdepth : 1 ≤ depth) (rest : List Char) :
    closesAtEnd '[' ']' depth (head.written blanks ++ rest) = closesAtEnd '[' ']' depth rest := by
  have hident : ∀ {ident : List Char}, isIdent ident = true → ∀ c ∈ ident, c ≠ '[' ∧ c ≠ ']' := by
    intro ident hident c hc
    have hrest := isIdentRest_of_mem_isIdent hident hc
    constructor <;> rintro rfl <;> exact absurd hrest (by decide)
  have hblanks : ∀ c ∈ blanks ++ ['('], c ≠ '[' ∧ c ≠ ']' := by
    intro c hc
    rcases List.mem_append.1 hc with hc | hc
    · have hblank := hfits.blank c hc
      constructor <;> rintro rfl <;> exact absurd hblank (by decide)
    · rw [List.mem_singleton.1 hc]
      decide
  have hparen :
      closesAtEnd '[' ']' depth (blanks ++ '(' :: rest) = closesAtEnd '[' ']' depth rest := by
    rw [← closesAtEnd_append_of_plain hblanks depth rest, List.append_assoc]
    rfl
  cases hlegacy : head.legacy with
  | true =>
    rw [written_append_of_legacy hlegacy, closesAtEnd_append_of_plain (hident hfits.library),
      closesAtEnd_group (by decide) (hident hfits.function) hdepth, hparen]
  | false =>
    have hcolons : ∀ c ∈ [':', ':'], c ≠ '[' ∧ c ≠ ']' := by simp
    rw [written_append_of_modern hlegacy, closesAtEnd_append_of_plain (hident hfits.library),
      show ':' :: ':' :: (head.function ++ (blanks ++ '(' :: rest)) =
        [':', ':'] ++ (head.function ++ (blanks ++ '(' :: rest)) from rfl,
      closesAtEnd_append_of_plain hcolons, closesAtEnd_append_of_plain (hident hfits.function),
      hparen]

theorem CallHead.Fits.isQuote_of_mem {head : CallHead} {blanks : List Char}
    (hfits : head.Fits blanks) {c : Char} (hc : c ∈ head.written blanks) : isQuote c = false := by
  have hneutral := hfits.isNeutral_of_mem hc
  rw [isNeutral, Bool.and_eq_true, Bool.not_eq_true'] at hneutral
  exact hneutral.1

theorem CallHead.Fits.maskFrom_written_append {head : CallHead} {blanks : List Char}
    (hfits : head.Fits blanks) (rest : List Char) :
    maskFrom .code (head.written blanks ++ rest) = head.written blanks ++ maskFrom .code rest ∧
      Reading.code.after (head.written blanks) = .code := by
  obtain ⟨hafter, hmask⟩ := maskFrom_code_of_plain fun c hc => hfits.isQuote_of_mem hc
  exact ⟨by rw [maskFrom_append, hafter, hmask], hafter⟩

variable {head head' : CallHead} {blanks blanks' front : List Char}

/-- One head in an expression can be exchanged for another one. -/
theorem Shape.ofExpression_exchange (hfits : head.Fits blanks) (hfits' : head'.Fits blanks')
    (hfront : front ≠ []) (hcode : Reading.code.after front = .code) (back : List Char) :
    Shape.ofExpression (front ++ (head.written blanks ++ back)) =
      Shape.ofExpression (front ++ (head'.written blanks' ++ back)) := by
  have hne : ∀ (head : CallHead) (blanks : List Char), head.written blanks ≠ [] := by
    intro head blanks hnil
    have := head.getLast?_written blanks
    rw [hnil] at this
    exact absurd this (by simp)
  have hmem : ∀ (head : CallHead) (blanks : List Char),
      '(' ∈ front ++ (head.written blanks ++ back) := by
    intro head blanks
    simp [List.mem_of_getLast? (head.getLast?_written blanks)]
  have hmask : ∀ {head : CallHead} {blanks : List Char}, head.Fits blanks →
      mask (front ++ (head.written blanks ++ back)) =
        mask front ++ (head.written blanks ++ maskFrom .code back) := by
    intro head blanks hfits
    rw [mask, maskFrom_append, hcode, (hfits.maskFrom_written_append back).1]
    rfl
  have hoperators : SameOperators (mask front ++ (head.written blanks ++ maskFrom .code back))
      (mask front ++ (head'.written blanks' ++ maskFrom .code back)) :=
    sameOperators_append (Or.inl (hne head blanks)) (Or.inl (hne head' blanks'))
      (fun c => hfits.isNeutral_of_mem) (fun c => hfits'.isNeutral_of_mem) (mask front)
  have hencloses : encloses '[' ']' (mask front ++ (head.written blanks ++ maskFrom .code back)) =
      encloses '[' ']' (mask front ++ (head'.written blanks' ++ maskFrom .code back)) := by
    refine encloses_append_congr ?_ (by simp [hne]) (by simp [hne]) ?_ fun depth hdepth => ?_
    · rw [← List.length_pos_iff, length_mask, List.length_pos_iff]
      exact hfront
    · rw [List.getLast?_append, List.getLast?_append, CallHead.getLast?_written,
        CallHead.getLast?_written]
    · rw [hfits.closesAtEnd_written hdepth, hfits'.closesAtEnd_written hdepth]
  rw [Shape.ofExpression_of_mem (hmem head blanks) rfl (by decide),
    Shape.ofExpression_of_mem (hmem head' blanks') rfl (by decide),
    isLiteral_append hfront (by simp [hne]) hcode, isLiteral_append hfront (by simp [hne]) hcode,
    hmask hfits, hmask hfits', hencloses, hoperators.arithmetic, hoperators.logic,
    Shape.ofOperators_congr hoperators]

/-- What trimming does to an expression behind something that is kept. -/
def expressionTail (back : List Char) : List Char :=
  trimEnd (dropSemicolon (trimEnd back))

theorem expressionOf_append {c : Char} {kept : List Char} (hfront : trimStart front ≠ [])
    (hlast : kept.getLast? = some c) (hblank : isBlank c = false) (hsemicolon : c ≠ ';')
    (back : List Char) : expressionOf (front ++ (kept ++ back)) =
      trimStart front ++ (kept ++ expressionTail back) := by
  have hkept : kept ≠ [] := by
    rintro rfl
    exact absurd hlast (by simp)
  have htrim : ∀ back : List Char, trimEnd (trimStart front ++ (kept ++ back)) =
      trimStart front ++ (kept ++ trimEnd back) := by
    intro back
    rw [← List.append_assoc, trimEnd_append (c := c) _ hblank, List.append_assoc]
    rw [List.getLast?_append_of_ne_nil _ hkept, hlast]
  have hdrop : dropSemicolon (trimStart front ++ (kept ++ trimEnd back)) =
      trimStart front ++ (kept ++ dropSemicolon (trimEnd back)) := by
    by_cases hnil : trimEnd back = []
    · rw [hnil, List.append_nil, dropSemicolon_append hkept]
      simp [dropSemicolon, hlast, hsemicolon]
    · rw [← List.append_assoc, dropSemicolon_append hnil, List.append_assoc]
  rw [expressionOf, trim, trimStart_append hfront, htrim, hdrop, htrim]
  rfl

/-- One head in a value can be exchanged for another one, unless the value begins with it. -/
theorem Shape.classify_exchange (hfits : head.Fits blanks) (hfits' : head'.Fits blanks')
    (hfront : trimStart front ≠ []) (hcode : Reading.code.after front = .code) (back : List Char) :
    Shape.classify (expressionOf (front ++ (head.written blanks ++ back))) =
      Shape.classify (expressionOf (front ++ (head'.written blanks' ++ back))) := by
  have hidem : trimStart (trimStart front) = trimStart front :=
    List.dropWhile_idempotent isBlank front
  have hcode' : Reading.code.after (trimStart front) = .code := by
    have hplain : ∀ c ∈ front.takeWhile isBlank, isQuote c = false :=
      fun c hc => isQuote_of_isBlank (isBlank_of_mem_takeWhile hc)
    rw [← takeWhile_append_trimStart front, Reading.after_append,
      (maskFrom_code_of_plain hplain).1] at hcode
    exact hcode
  have hblank : isBlank '(' = false := by decide
  unfold Shape.classify
  rw [expressionOf_append hfront (head.getLast?_written blanks) hblank (by decide),
    expressionOf_append hfront (head'.getLast?_written blanks') hblank (by decide),
    expressionOf_append (by rwa [hidem]) (head.getLast?_written blanks) hblank (by decide),
    expressionOf_append (by rwa [hidem]) (head'.getLast?_written blanks') hblank (by decide)]
  rw [hidem]
  exact Shape.ofExpression_exchange hfits hfits' hfront hcode' _

end RazenLint
