import RazenLint.Proofs.Text.Trim
import RazenLint.Shape

/-!
# The outline of a text

The outline of a text is its masked form without blanks at the end. What a masked line
shows decides where its literals are (`quote?_after`), so the outline says whether a
literal is still open at the end. Trimming and dropping a semicolon may cut characters
off an open literal, and an outline does not show them : texts with one outline have
expressions with one outline (`outline_expressionOf`).
-/

namespace RazenLint.Text

/-! ## Open literals -/

namespace Reading

/-- The quote of the literal that is open. -/
def quote? : Reading → Option Char
  | code => none
  | literal quote => some quote
  | escape quote => some quote

/-- The quote of the literal that is open after a character of a masked line. -/
def nextQuote : Option Char → Char → Option Char
  | none, c => if isQuote c then some c else none
  | some quote, c => if c = quote then none else some quote

theorem quote?_eq_none_iff {reading : Reading} : reading.quote? = none ↔ reading = .code := by
  cases reading <;> simp [quote?]

theorem quote?_next {reading : Reading} (h : reading.Proper) (c : Char) :
    (reading.next c).quote? = nextQuote reading.quote? (shown reading c) := by
  cases reading with
  | code =>
    unfold next shown hides
    by_cases hc : isQuote c = true <;> simp [hc, quote?, nextQuote]
  | literal q =>
    have hspace : ' ' ≠ q := (ne_of_isQuote h rfl).symm
    have hslash : q ≠ '\\' := ne_of_isQuote h rfl
    unfold next shown hides
    by_cases hc : c = '\\'
    · simp [hc, quote?, nextQuote, hspace]
    · by_cases hcq : c = q
      · simp [hcq, hslash, quote?, nextQuote]
      · simp [hc, hcq, quote?, nextQuote, hspace]
  | escape q =>
    have hspace : ' ' ≠ q := (ne_of_isQuote h rfl).symm
    simp [next, shown, hides, quote?, nextQuote, hspace]

/-- The masked form of a text tells which literal is open after it. -/
theorem quote?_after : ∀ {reading : Reading}, reading.Proper → ∀ cs : List Char,
    (reading.after cs).quote? = (maskFrom reading cs).foldl nextQuote reading.quote?
  | _, _, [] => rfl
  | reading, h, c :: cs => by
    rw [after_cons, maskFrom_cons, List.foldl_cons, ← quote?_next h c, quote?_after (h.next c) cs]

end Reading

open Reading

/-- Whatever opens a literal is a quote. -/
theorem isQuote_of_foldl_nextQuote : ∀ {cs : List Char} {quote : Option Char} {q : Char},
    (∀ q, quote = some q → isQuote q = true) → cs.foldl nextQuote quote = some q → isQuote q = true
  | [], _, q, h, hq => h q hq
  | c :: cs, quote, q, h, hq => by
    refine isQuote_of_foldl_nextQuote (fun p (hp : nextQuote quote c = some p) => ?_) hq
    cases quote with
    | none =>
      obtain ⟨hc, hcp⟩ := Option.ite_none_right_eq_some.1 hp
      rw [Option.some.injEq] at hcp
      exact hcp ▸ hc
    | some r =>
      obtain ⟨-, hr⟩ := Option.ite_none_left_eq_some.1 hp
      exact h p hr

theorem foldl_nextQuote_of_blank {quote : Option Char}
    (hquote : ∀ q, quote = some q → isQuote q = true) :
    ∀ {cs : List Char}, (∀ c ∈ cs, isBlank c = true) → cs.foldl nextQuote quote = quote
  | [], _ => rfl
  | c :: cs, h => by
    have hc := h c List.mem_cons_self
    have hcq := isQuote_of_isBlank hc
    have hnext : nextQuote quote c = quote := by
      cases quote with
      | none => simp [nextQuote, hcq]
      | some q =>
        have hne : c ≠ q := by
          rintro rfl
          rw [hquote c rfl] at hcq
          exact absurd hcq (by simp)
        simp [nextQuote, hne]
    rw [List.foldl_cons, hnext]
    exact foldl_nextQuote_of_blank hquote fun d hd => h d (List.mem_cons_of_mem c hd)

/-! ## Outlines -/

/-- The masked form of a text without blanks at its end. -/
def outline (cs : List Char) : List Char :=
  trimEnd (mask cs)

theorem isBlank_of_mem_maskFrom {cs : List Char} (h : ∀ c ∈ cs, isBlank c = true) :
    ∀ {reading : Reading}, ∀ c ∈ maskFrom reading cs, isBlank c = true := by
  induction cs with
  | nil => exact fun c hc => absurd hc List.not_mem_nil
  | cons d ds ih =>
    intro reading c hc
    rw [maskFrom_cons] at hc
    rcases List.mem_cons.1 hc with rfl | hc
    · unfold shown
      split
      · rfl
      · exact h d List.mem_cons_self
    · exact ih (fun c hc => h c (List.mem_cons_of_mem d hc)) c hc

theorem outline_trimEnd (cs : List Char) : outline (trimEnd cs) = outline cs := by
  obtain ⟨blanks, hcs, hblank⟩ := exists_trimEnd_append cs
  conv_rhs => rw [outline, hcs, mask, maskFrom_append,
    trimEnd_append_of_blank (isBlank_of_mem_maskFrom hblank)]
  rfl

theorem mask_trimStart (cs : List Char) : mask (trimStart cs) = trimStart (mask cs) := by
  have hplain : ∀ c ∈ cs.takeWhile isBlank, isQuote c = false :=
    fun c hc => isQuote_of_isBlank (isBlank_of_mem_takeWhile hc)
  obtain ⟨hafter, hmask⟩ := maskFrom_code_of_plain hplain
  conv_rhs => rw [← takeWhile_append_trimStart cs, mask, maskFrom_append, hafter, hmask,
    trimStart_append_of_blank fun c hc => isBlank_of_mem_takeWhile hc]
  cases hrest : trimStart cs with
  | nil => rfl
  | cons c rest =>
    have hc : isBlank c = false := by
      have := List.head?_dropWhile_not isBlank cs
      rw [show cs.dropWhile isBlank = c :: rest from hrest] at this
      simpa using this
    rw [mask, maskFrom_cons]
    exact (trimStart_of_not_blank (c := shown .code c) hc _).symm

/-- The outline tells whether a literal is open at the end. -/
theorem quote?_after_eq_outline (cs : List Char) :
    (Reading.code.after cs).quote? = (outline cs).foldl nextQuote none := by
  obtain ⟨blanks, hmask, hblank⟩ := exists_trimEnd_append (mask cs)
  have hquote : (Reading.code.after cs).quote? = (mask cs).foldl nextQuote none :=
    quote?_after (show Reading.code.Proper from trivial) cs
  rw [hmask, List.foldl_append] at hquote
  rw [hquote, foldl_nextQuote_of_blank (fun q hq => ?_) hblank]
  · rfl
  · exact isQuote_of_foldl_nextQuote (fun q hq => absurd hq (by simp)) hq

/-- A character after which code goes on is shown. -/
theorem shown_of_next_eq_code {reading : Reading} {c : Char} (h : reading.next c = .code) :
    shown reading c = c := by
  cases reading with
  | code => rfl
  | literal q =>
    rw [Reading.next] at h
    split at h
    · exact absurd h (by simp)
    · rename_i hslash
      split at h
      · rename_i hq
        subst hq
        simp [shown, hides, hslash]
      · exact absurd h (by simp)
  | escape q => exact absurd h (by simp [Reading.next])

/-- What a text ends with in code is shown at the end of its outline. -/
theorem mask_eq_outline {cs : List Char} (htrim : trimEnd cs = cs)
    (hcode : Reading.code.after cs = .code) :
    mask cs = outline cs ∧ (mask cs).getLast? = cs.getLast? := by
  rcases List.eq_nil_or_concat cs with rfl | ⟨front, c, rfl⟩
  · exact ⟨rfl, rfl⟩
  · rw [List.concat_eq_append] at *
    rw [Reading.after_append, Reading.after_cons, Reading.after_nil] at hcode
    have hmask : mask (front ++ [c]) = mask front ++ [c] := by
      rw [mask, maskFrom_append, maskFrom_cons, shown_of_next_eq_code hcode]
      rfl
    have hlast : (trimEnd (front ++ [c])).getLast? = some c := by
      rw [htrim, List.getLast?_concat]
    have hblank := isBlank_of_getLast?_trimEnd hlast
    refine ⟨?_, by rw [hmask, List.getLast?_concat, List.getLast?_concat]⟩
    rw [outline, hmask, trimEnd_concat_of_not_blank hblank]

/-- A semicolon at the end of an open literal is not shown. -/
theorem outline_dropSemicolon_of_open {cs : List Char} (hopen : Reading.code.after cs ≠ .code) :
    outline (dropSemicolon cs) = outline cs := by
  unfold dropSemicolon
  split
  · rename_i hlast
    obtain ⟨front, rfl⟩ := List.getLast?_eq_some_iff.1 hlast
    rw [Reading.after_append, Reading.after_cons, Reading.after_nil] at hopen
    have hproper := Reading.proper_after_code front
    have hshown : shown (Reading.code.after front) ';' = ' ' := by
      cases hreading : Reading.code.after front with
      | code =>
        rw [hreading] at hopen
        exact absurd rfl hopen
      | literal q =>
        rw [hreading] at hproper
        exact shown_literal (ne_of_isQuote hproper rfl).symm
      | escape q => rfl
    have hmask : mask (front ++ [';']) = mask front ++ [' '] := by
      rw [mask, maskFrom_append, maskFrom_cons, hshown]
      rfl
    rw [List.dropLast_concat, outline, outline, hmask,
      trimEnd_append_of_blank fun c hc => by rw [List.mem_singleton.1 hc]; rfl]
  · rfl

/-- Texts that are trimmed and have one outline still have one without a semicolon. -/
theorem outline_dropSemicolon {cs cs' : List Char} (htrim : trimEnd cs = cs)
    (htrim' : trimEnd cs' = cs') (h : outline cs = outline cs') :
    outline (dropSemicolon cs) = outline (dropSemicolon cs') := by
  have hquote : (Reading.code.after cs).quote? = (Reading.code.after cs').quote? := by
    rw [quote?_after_eq_outline, quote?_after_eq_outline, h]
  by_cases hcode : Reading.code.after cs = .code
  · have hcode' : Reading.code.after cs' = .code := by
      rw [← quote?_eq_none_iff, ← hquote, quote?_eq_none_iff]
      exact hcode
    obtain ⟨hmask, hlast⟩ := mask_eq_outline htrim hcode
    obtain ⟨hmask', hlast'⟩ := mask_eq_outline htrim' hcode'
    have heq : mask cs = mask cs' := by rw [hmask, hmask', h]
    have hends : cs.getLast? = cs'.getLast? := by rw [← hlast, ← hlast', heq]
    have hdrop : ∀ cs : List Char, mask cs.dropLast = (mask cs).dropLast := by
      intro cs
      rcases List.eq_nil_or_concat cs with rfl | ⟨front, c, rfl⟩
      · rfl
      · rw [List.concat_eq_append, List.dropLast_concat, mask, mask, maskFrom_append, maskFrom_cons]
        exact List.dropLast_concat.symm
    unfold dropSemicolon
    rw [← hends]
    split
    · rw [outline, outline, hdrop, hdrop, heq]
    · exact h
  · have hopen' : Reading.code.after cs' ≠ .code := by
      rw [ne_eq, ← quote?_eq_none_iff, ← hquote, quote?_eq_none_iff]
      exact hcode
    rw [outline_dropSemicolon_of_open hcode, outline_dropSemicolon_of_open hopen', h]

/-- Texts with one outline have expressions with one outline. -/
theorem outline_expressionOf {cs cs' : List Char} (h : outline cs = outline cs') :
    outline (expressionOf cs) = outline (expressionOf cs') := by
  have hstart : outline (trimStart cs) = outline (trimStart cs') := by
    rw [outline, outline, mask_trimStart, mask_trimStart, trimEnd_trimStart,
      trimEnd_trimStart (mask cs')]
    exact congrArg (fun cs => trimEnd (trimStart cs)) h
  unfold expressionOf trim
  rw [outline_trimEnd, outline_trimEnd]
  refine outline_dropSemicolon (trimEnd_trimEnd _) (trimEnd_trimEnd _) ?_
  rw [outline_trimEnd, outline_trimEnd, hstart]

end RazenLint.Text
