import RazenLint.Proofs.Fix.Heads

/-!
# Fixing everything

`fixAll` makes rounds of fixes until nothing is left, and a round leaves out a call that
stands inside another one. Whatever the rounds are, every one keeps the text with all
heads rewritten at once, and takes as many heads away as it applies edits
(`Fixed.rewrite_oldHeads`). A round that applies no edit has no heads left
(`oldHeads_eq_nil`), and each edit takes one opening bracket out of the text, so there are
enough rounds (`fixRun_fixRounds`). `fixAll_eq_rewrite` puts it together.
-/

namespace RazenLint

open Text

/-- The rounds of fixes on a text, up to the first one that applies no edit, with the text
after them and the number of edits. -/
inductive FixRun : List Char → List Char → Nat → Prop
  | stop {text : List Char} (h : (fixRound text).2 = 0) : FixRun text text 0
  | round {text final : List Char} {count : Nat} (h : (fixRound text).2 ≠ 0)
    (hrest : FixRun (fixRound text).1 final count) :
    FixRun text final ((fixRound text).2 + count)

/-! ## One round -/

theorem count_eq_zero_of_isIdent {ident : List Char} (h : isIdent ident = true) :
    ident.count '[' = 0 :=
  List.count_eq_zero.2 fun hmem => absurd (isIdentRest_of_mem_isIdent h hmem) (by decide)

/-- A fix takes one opening bracket out of the text. -/
theorem CallSite.count_old (site : CallSite) (rest : List Char) :
    (site.old rest).count '[' = (site.new rest).count '[' + 1 := by
  have hblanks : site.blanks.count '[' = 0 :=
    List.count_eq_zero.2 fun hmem => absurd (site.fits.blank _ hmem) (by decide)
  have hlibrary := count_eq_zero_of_isIdent site.fits.library
  have hlower : (site.head.library.map Char.toLower).count '[' = 0 :=
    count_eq_zero_of_isIdent site.fits.modern.library
  simp [old, new, CallHead.written, CallHead.opener, CallHead.closer, CallHead.modern, site.legacy,
    hblanks, hlibrary, hlower]
  omega

/-- Fixing some calls keeps the text with all heads rewritten, and each of the calls is
one head less. -/
theorem Fixed.rewrite_oldHeads {text t : List Char} {spans : List Span} (h : Fixed text spans t) :
    Replacement.rewrite text (oldHeads text) = Replacement.rewrite t (oldHeads t) ∧
      (oldHeads text).length = (oldHeads t).length + spans.length ∧
      text.count '[' = t.count '[' + spans.length := by
  induction h with
  | nil => exact ⟨rfl, rfl, rfl⟩
  | cons site rest h hpast ih =>
    obtain ⟨hrewrite, hlength, hcount⟩ := ih
    obtain ⟨hsite, hone⟩ := site.rewrite_oldHeads rest
    have hbracket := site.count_old rest
    refine ⟨hrewrite.trans hsite, ?_, ?_⟩ <;> rw [List.length_cons] <;> omega

/-- A round fixes as many calls as it counts. -/
theorem exists_fixed_fixRound (text : List Char) :
    ∃ spans, Fixed text spans (fixRound text).1 ∧ spans.length = (fixRound text).2 := by
  obtain ⟨applied, spans, happlied, hfixed, hranges⟩ :=
    exists_fixed fun e (he : e ∈ proposedEdits "" text) => he
  have hlength := hranges.length_eq
  rw [List.length_map, List.length_map] at hlength
  exact ⟨spans, hfixed, hlength.trans happlied.count.symm⟩

/-- While there are heads to be fixed, a round applies some edit. -/
theorem oldHeads_eq_nil {text : List Char} (h : (fixRound text).2 = 0) : oldHeads text = [] := by
  by_contra hne
  obtain ⟨r, hr⟩ := List.exists_mem_of_ne_nil _ hne
  obtain ⟨site, rest, rfl, -⟩ := mem_oldHeads_iff.1 hr
  obtain ⟨applied, happlied, -⟩ :=
    exists_applied (site.old rest) (proposedEdits "" (site.old rest))
  have hnil : applied = [] := List.length_eq_zero_iff.1 (happlied.count.symm.trans h)
  obtain ⟨others, hothers, hoverlaps⟩ := happlied.overlaps
  have hmem := edit_mem_proposedEdits "" site rest
  rw [hothers.mem_iff, hnil, List.nil_append] at hmem
  obtain ⟨a, ha, -⟩ := hoverlaps site.edit hmem (by rw [site.resolve?_edit]; rfl)
  rw [hnil] at ha
  exact absurd ha List.not_mem_nil

/-! ## All rounds -/

/-- A run of rounds rewrites all heads, and ends where no head is left. -/
theorem FixRun.eq_rewrite {text final : List Char} {count : Nat} (h : FixRun text final count) :
    final = Replacement.rewrite text (oldHeads text) ∧ count = (oldHeads text).length ∧
      (fixRound final).2 = 0 := by
  induction h with
  | stop h =>
    rw [oldHeads_eq_nil h]
    exact ⟨rfl, rfl, h⟩
  | @round text final count h hrest ih =>
    obtain ⟨hfinal, hcount, hstop⟩ := ih
    obtain ⟨spans, hfixed, hspans⟩ := exists_fixed_fixRound text
    obtain ⟨hrewrite, hlength, -⟩ := hfixed.rewrite_oldHeads
    exact ⟨hfinal.trans hrewrite.symm, by omega, hstop⟩

/-- With more rounds than opening brackets there are enough of them. -/
theorem fixRun_fixRounds : ∀ {rounds : Nat} {text : List Char}, text.count '[' < rounds →
    FixRun text (fixRounds rounds text).1 (fixRounds rounds text).2
  | rounds + 1, text, h => by
    rw [fixRounds]
    dsimp only
    split
    · rename_i hstop
      exact .stop hstop
    · rename_i hround
      obtain ⟨spans, hfixed, hspans⟩ := exists_fixed_fixRound text
      have hcount := hfixed.rewrite_oldHeads.2.2
      exact .round hround (fixRun_fixRounds (by omega))

theorem fixRun_fixAll (text : List Char) : FixRun text (fixAll text).1 (fixAll text).2 :=
  fixRun_fixRounds (Nat.lt_succ_self _)

/-! ## Counting the calls -/

/-- Whether a range ends with a closing parenthesis, as the range of a call does that its
line closes. -/
def endsClosed (text : List Char) (range : Range) : Bool :=
  (sliceRange? text range).any fun slice => slice.getLast? = some ')'

/-- A diagnostic about the old form of a call that its line closes. -/
def Diagnostic.isClosedCall (text : List Char) (d : Diagnostic) : Bool :=
  d.rule = .deprecatedCall && endsClosed text d.range

theorem endsClosed_ofHead {text line : List Char} {index column : Nat} {head : CallHead}
    (hline : (lines text)[index]? = some line) (hhead : (column, head) ∈ callHeads (code line))
    (hlegacy : head.legacy = true)
    (hregistered : isLibraryName (String.ofList head.library) = true) (bound : Bool) :
    endsClosed text (.ofSpan (LibraryCall.ofHead index line bound column head).callSpan) =
      (closingParen (code line) (column + head.openingOffset)).isSome := by
  unfold endsClosed
  cases hclosing : closingParen (code line) (column + head.openingOffset) with
  | none =>
    obtain ⟨blanks, -, hslice⟩ :=
      exists_sliceRange?_of_open hline hhead hlegacy hregistered hclosing bound
    simp [hslice, head.getLast?_written blanks]
  | some n =>
    obtain ⟨site, rest, rfl, hspan⟩ := CallSite.exists_of_mem_callHeads hline hhead hlegacy
      hregistered (by rw [hclosing]; rfl)
    simp [hspan, site.sliceRange?_old rest]

/-- A call has one such diagnostic when its head is to be fixed. -/
theorem countP_orderedFindings_ofHead {text line : List Char} {index column : Nat}
    {head : CallHead} (hline : (lines text)[index]? = some line)
    (hhead : (column, head) ∈ callHeads (code line)) (bound : Bool) :
    (LibraryCall.ofHead index line bound column head).orderedFindings.countP
        (fun f => f.diagnostic.isClosedCall text) =
      if isOldHead (code line) (column, head) then 1 else 0 := by
  have hends := fun hlegacy hregistered =>
    endsClosed_ofHead hline hhead hlegacy hregistered bound
  set c := LibraryCall.ofHead index line bound column head with hc
  have hlibrary : c.library = String.ofList head.library := rfl
  have hlegacy : c.legacy = head.legacy := rfl
  unfold LibraryCall.orderedFindings isOldHead
  rw [hlibrary, hlegacy]
  dsimp only
  cases hresolve : Library.resolve? (String.ofList head.library) with
  | none =>
    have hregistered : isLibraryName (String.ofList head.library) = false := by
      simp [isLibraryName, hresolve]
    cases head.legacy <;>
      simp [hregistered, Diagnostic.isClosedCall, Finding.diagnostic, Finding.rule]
  | some library =>
    have hregistered : isLibraryName (String.ofList head.library) = true := by
      simp [isLibraryName, hresolve]
    have hfunction : (if library.hasFunction c.function then [] else
        [Finding.unknownFunction library c.function c.functionSpan]).countP
          (fun f => f.diagnostic.isClosedCall text) = 0 := by
      split <;> simp [Diagnostic.isClosedCall, Finding.diagnostic, Finding.rule]
    rw [List.countP_append, hfunction, hregistered]
    cases hold : head.legacy with
    | false => simp
    | true =>
      have hspan := hends hold hregistered
      simp [Diagnostic.isClosedCall, Finding.diagnostic, Finding.rule, Finding.span, hspan]

theorem countP_flatMap_eq {α β : Type} {f : α → List β} {p : β → Bool} {q : α → Bool} :
    ∀ {l : List α}, (∀ a ∈ l, (f a).countP p = if q a then 1 else 0) →
      (l.flatMap f).countP p = (l.filter q).length
  | [], _ => rfl
  | a :: l, h => by
    have ha := h a List.mem_cons_self
    rw [List.flatMap_cons, List.countP_append, ha,
      countP_flatMap_eq fun b hb => h b (List.mem_cons_of_mem _ hb)]
    cases hq : q a with
    | false => simp [hq]
    | true => simp [hq, Nat.add_comm]

/-- A line has as many of them as it has heads to be fixed. -/
theorem countP_eventsOfLine {text line : List Char} {index : Nat}
    (hline : (lines text)[index]? = some line) (offset : Nat) :
    ((eventsOfLine index line).flatMap Event.orderedFindings).countP
        (fun f => f.diagnostic.isClosedCall text) = (oldHeadsOfLine offset line).length := by
  have hcalls : ∀ bound, (((callsOfLine index line bound).map Event.call).flatMap
      Event.orderedFindings).countP (fun f => f.diagnostic.isClosedCall text) =
        (oldHeadsOfLine offset line).length := by
    intro bound
    rw [callsOfLine, List.map_map, List.flatMap_map, oldHeadsOfLine, List.length_map]
    exact countP_flatMap_eq fun p hp => countP_orderedFindings_ofHead hline hp _
  have hnone : ∀ {fs : List Finding}, (∀ f ∈ fs, f.rule ≠ .deprecatedCall) →
      fs.countP (fun f => f.diagnostic.isClosedCall text) = 0 := by
    intro fs h
    refine List.countP_eq_zero.2 fun f hf => ?_
    have hrule : f.diagnostic.rule ≠ .deprecatedCall := h f hf
    simp [Diagnostic.isClosedCall, hrule]
  rw [eventsOfLine_eq]
  split
  · rw [List.flatMap_cons, List.countP_append, hcalls]
    exact (congrArg (· + _) (hnone fun f hf => Declaration.rule_ne_deprecatedCall hf)).trans
      (Nat.zero_add _)
  · rw [List.flatMap_append, List.countP_append, hcalls]
    refine (congrArg (· + _) (hnone fun f hf => ?_)).trans (Nat.zero_add _)
    obtain ⟨e, he, hf⟩ := List.mem_flatMap.1 hf
    obtain ⟨words, -, rfl⟩ := List.mem_map.1 he
    exact Import.rule_ne_deprecatedCall hf

theorem countP_eventsFrom {text : List Char} : ∀ {pieces : List (List Char)} {index : Nat}
    (offset : Nat), (∀ i line, (linesOfSegments pieces)[i]? = some line →
        (lines text)[index + i]? = some line) →
      ((eventsFrom index (linesOfSegments pieces)).flatMap Event.orderedFindings).countP
        (fun f => f.diagnostic.isClosedCall text) = (oldHeadsFrom offset pieces).length
  | [], _, _, _ => rfl
  | [last], index, offset, h => by
    rw [oldHeadsFrom, oldHeadsFrom, List.append_nil, lineOfSegment, if_pos rfl]
    rw [linesOfSegments] at h ⊢
    split at h
    · rename_i hlast
      rw [List.isEmpty_iff] at hlast
      subst hlast
      rfl
    · rename_i hlast
      rw [if_neg hlast, eventsFrom, eventsFrom, List.append_nil]
      exact countP_eventsOfLine (h 0 last rfl) offset
  | piece :: next :: rest, index, offset, h => by
    rw [linesOfSegments] at h ⊢
    have hline : lineOfSegment piece (next :: rest) = dropReturn piece := by
      rw [lineOfSegment, if_neg (List.cons_ne_nil _ _)]
    have hfirst := countP_eventsOfLine (h 0 _ rfl) offset
    rw [Nat.add_zero] at hfirst
    have hrest : ∀ i line, (linesOfSegments (next :: rest))[i]? = some line →
        (lines text)[index + 1 + i]? = some line := by
      intro i line hi
      rw [show index + 1 + i = index + (i + 1) by omega]
      exact h (i + 1) line hi
    rw [eventsFrom, List.flatMap_append, List.countP_append, oldHeadsFrom, hline,
      List.length_append, hfirst, countP_eventsFrom (offset + (piece.length + 1)) hrest]

/-- There are as many heads as diagnostics about closed calls. -/
theorem length_oldHeads (text : List Char) :
    (oldHeads text).length = ((diagnose text).filter (·.isClosedCall text)).length := by
  have hlines : ∀ i line, (linesOfSegments (segments text))[i]? = some line →
      (lines text)[0 + i]? = some line := fun i line hi => by rwa [Nat.zero_add]
  rw [oldHeads, ← countP_eventsFrom 0 hlines, diagnose_eq_map, ← List.countP_eq_length_filter,
    List.countP_map]
  rfl

/-- Fixing everything ends, and it rewrites the heads in the old form that are code, of a
known library and closed on their line, all at once and nothing else. They are counted, one
for each diagnostic about a closed call in the old form, and nothing is left to be fixed. -/
theorem fixAll_eq_rewrite (text : List Char) :
    FixRun text (fixAll text).1 (fixAll text).2 ∧
      ∃ heads, Replacement.InOrder 0 text.length heads ∧
        (∀ r, r ∈ heads ↔ ∃ (site : CallSite) (rest : List Char),
          text = site.old rest ∧ r = site.headReplacement) ∧
        fixAll text = (Replacement.rewrite text heads, heads.length) ∧
        heads.length = ((diagnose text).filter (·.isClosedCall text)).length ∧
        fixAll (Replacement.rewrite text heads) = (Replacement.rewrite text heads, 0) := by
  have hrun := fixRun_fixAll text
  obtain ⟨hfinal, hcount, hstop⟩ := hrun.eq_rewrite
  refine ⟨hrun, oldHeads text, inOrder_oldHeads text, fun r => mem_oldHeads_iff,
    Prod.ext hfinal hcount, length_oldHeads text, ?_⟩
  rw [← hfinal]
  obtain ⟨hagain, hzero, -⟩ := (fixRun_fixAll (fixAll text).1).eq_rewrite
  rw [oldHeads_eq_nil hstop] at hagain hzero
  exact Prod.ext hagain hzero

end RazenLint
