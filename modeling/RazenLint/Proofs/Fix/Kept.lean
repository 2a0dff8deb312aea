import RazenLint.Analysis
import RazenLint.Proofs.Fix.Round

/-!
# What fixes keep

A fix takes away the diagnostic that it is for and keeps everything else. One call
fixed after the other, the findings of the text are those it had, less the ones about
the calls that were fixed (`Fixed.match_orderedFindings`), and the symbol table has the
names it had with as many references (`Fixed.census_eq`). A finding in front of all
that is fixed keeps its columns too (`KeptBefore`), so the next call is still reported
where its edit has been proposed. `analyze_applyEdits` says what this means for any of
the proposed edits.
-/

namespace RazenLint

open Text

/-- Two stretches on one line, which are the same in front of the given places. -/
structure KeptBefore (spans : List Span) (s s' : Span) : Prop where
  line : s.line = s'.line
  kept : (∀ p ∈ spans, p.isPast s = true) ∨ (∀ p ∈ spans, p.isPast s' = true) → s = s'

/-- What is kept in front of some places and then in front of one more is kept in front
of all of them. -/
theorem KeptBefore.trans {place s s' s'' : Span} {spans : List Span} (h : KeptBefore spans s s')
    (h' : KeptBefore [place] s' s'') : KeptBefore (place :: spans) s s'' := by
  refine ⟨h.line.trans h'.line, ?_⟩
  simp only [List.forall_mem_cons]
  rintro (⟨hs, hspans⟩ | ⟨hs, hspans⟩)
  · have heq := h.kept (Or.inl hspans)
    rw [heq] at hs ⊢
    exact h'.kept (Or.inl (by simpa using hs))
  · have heq := h'.kept (Or.inr (by simpa using hs))
    rw [← heq] at hspans ⊢
    exact h.kept (Or.inr hspans)

/-- A finding about the form of a call at one of the given places. -/
def Finding.isFixedAt (spans : List Span) (f : Finding) : Bool :=
  f.rule = .deprecatedCall && f.span ∈ spans

theorem Finding.isFixedAt_cons (place : Span) (spans : List Span) (f : Finding) :
    f.isFixedAt (place :: spans) = (f.isFixedAt [place] || f.isFixedAt spans) := by
  by_cases hrule : f.rule = .deprecatedCall <;> simp [isFixedAt, hrule]

/-- Findings that match are both at a place that lies in front of what has changed, or
neither is. -/
theorem Finding.Match.isFixedAt_eq {spans : List Span} {place : Span} {f f' : Finding}
    (h : Finding.Match (KeptBefore spans) f f') (hpast : ∀ p ∈ spans, p.isPast place = true) :
    f.isFixedAt [place] = f'.isFixedAt [place] := by
  have hspan : f.span = place ↔ f'.span = place := by
    constructor
    · intro heq
      rw [← h.span.kept (Or.inl fun p hp => by rw [heq]; exact hpast p hp), heq]
    · intro heq
      rw [h.span.kept (Or.inr fun p hp => by rw [heq]; exact hpast p hp), heq]
  simp [isFixedAt, h.rule, hspan]

theorem forall₂_comp {α β γ : Type} {R : α → β → Prop} {S : β → γ → Prop} {T : α → γ → Prop}
    (h : ∀ a b c, R a b → S b c → T a c) : ∀ {l : List α} {l' : List β} {l'' : List γ},
      List.Forall₂ R l l' → List.Forall₂ S l' l'' → List.Forall₂ T l l''
  | _, _, _, List.Forall₂.nil, List.Forall₂.nil => List.Forall₂.nil
  | _, _, _, List.Forall₂.cons hR hRs, List.Forall₂.cons hS hSs =>
    List.Forall₂.cons (h _ _ _ hR hS) (forall₂_comp h hRs hSs)

/-- No two findings of a text are at one place. -/
theorem orderedFindings_around {text : List Char} {front back : List Finding} {f : Finding}
    (h : orderedFindings text = front ++ f :: back) : ∀ g ∈ front ++ back, g.span ≠ f.span := by
  have hp := pairwise_orderedFindings 0 (lines text)
  rw [show (eventsFrom 0 (lines text)).flatMap Event.orderedFindings =
    orderedFindings text from rfl, h, List.pairwise_append, List.pairwise_cons] at hp
  obtain ⟨-, ⟨hback, -⟩, hfront⟩ := hp
  intro g hg heq
  rcases List.mem_append.1 hg with hg | hg
  · have hbefore := hfront g hg f List.mem_cons_self
    rw [Finding.Before, heq] at hbefore
    omega
  · have hbefore := hback g hg
    rw [Finding.Before, heq] at hbefore
    omega

/-! ## One call -/

namespace CallSite

variable (site : CallSite)

/-- What is in front of the call, or not on its line, is kept. -/
theorem eq_of_isPast {o : OldCall} (hcolumn : o.column = site.front.length) {s s' : Span}
    (h : o.Extends site.before.length s s')
    (hpast : site.span.isPast s = true ∨ site.span.isPast s' = true) : s = s' := by
  have hline := h.line
  refine h.kept ?_
  simp only [Span.isPast, Bool.or_eq_true, Bool.and_eq_true, decide_eq_true_eq] at hpast
  simp only [span] at hpast
  omega

/-- The findings of a text with a site, less the one about the call, match those of the
text after the call has been fixed. -/
theorem match_orderedFindings (rest : List Char) :
    List.Forall₂ (Finding.Match (KeptBefore [site.span]))
        ((orderedFindings (site.old rest)).filter fun f => !f.isFixedAt [site.span])
        (orderedFindings (site.new rest)) ∧
      (orderedFindings (site.old rest)).length = (orderedFindings (site.new rest)).length + 1 := by
  obtain ⟨tail, after, hline, hfixed⟩ := site.exists_lines rest
  obtain ⟨f, front, front', back, back', hold, hnew, hrule, hspan, hfront, hback⟩ :=
    OldCall.exists_orderedFindings hline hfixed
  rw [List.length_map] at hspan hfront hback
  rw [site.callSpan_call] at hspan
  have hothers := orderedFindings_around hold
  have hf : f.isFixedAt [site.span] = true := by simp [Finding.isFixedAt, hrule, hspan]
  have hkeep : ∀ g ∈ front ++ back, g.isFixedAt [site.span] = false := by
    intro g hg
    have := hothers g hg
    rw [hspan] at this
    simp [Finding.isFixedAt, this]
  have hfilter : (orderedFindings (site.old rest)).filter (fun f => !f.isFixedAt [site.span]) =
      front ++ back := by
    have hall : (front ++ back).filter (fun g => !g.isFixedAt [site.span]) = front ++ back :=
      List.filter_eq_self.2 fun g hg => by rw [hkeep g hg]; rfl
    rw [List.filter_append] at hall
    rw [hold, List.filter_append, List.filter_cons, hf]
    exact hall
  refine ⟨?_, ?_⟩
  · rw [hfilter, hnew]
    refine (List.rel_append hfront hback).imp fun g g' hg =>
      ⟨⟨hg.span.line, ?_⟩, hg.rule, hg.message⟩
    intro hpast
    refine site.eq_of_isPast rfl hg.span ?_
    exact hpast.imp (fun h => h _ List.mem_cons_self) fun h => h _ List.mem_cons_self
  · rw [hold, hnew, List.length_append, List.length_append, List.length_cons, hfront.length_eq,
      hback.length_eq]
    rfl

theorem census_eq (rest : List Char) :
    (symbols (site.new rest)).census = (symbols (site.old rest)).census := by
  obtain ⟨tail, after, hline, hfixed⟩ := site.exists_lines rest
  exact (OldCall.match_symbols hline hfixed).census_eq.symm

end CallSite

/-! ## Any number of calls -/

/-- Fixing keeps all findings but those about the calls that are fixed. -/
theorem Fixed.match_orderedFindings {text t : List Char} {spans : List Span}
    (h : Fixed text spans t) : List.Forall₂ (Finding.Match (KeptBefore spans))
        ((orderedFindings text).filter fun f => !f.isFixedAt spans) (orderedFindings t) ∧
      (orderedFindings text).length = (orderedFindings t).length + spans.length := by
  induction h with
  | nil =>
    refine ⟨?_, rfl⟩
    have hall : (orderedFindings text).filter (fun f => !f.isFixedAt []) = orderedFindings text :=
      List.filter_eq_self.2 fun f _ => by simp [Finding.isFixedAt]
    rw [hall, List.forall₂_same]
    exact fun f _ => ⟨⟨rfl, fun _ => rfl⟩, rfl, fun _ => rfl⟩
  | cons site rest h hpast ih =>
    obtain ⟨hmatch, hlength⟩ := ih
    obtain ⟨hsite, hone⟩ := site.match_orderedFindings rest
    rename_i spans
    refine ⟨?_, by rw [List.length_cons]; omega⟩
    have hfilter : (orderedFindings text).filter (fun f => !f.isFixedAt (site.span :: spans)) =
        ((orderedFindings text).filter fun f => !f.isFixedAt spans).filter
          fun f => !f.isFixedAt [site.span] := by
      rw [List.filter_filter]
      congr 1
      ext f
      rw [Finding.isFixedAt_cons, Bool.not_or]
    rw [hfilter]
    -- the finding about the call is where it was
    refine forall₂_comp ?_ (List.rel_filter (fun {f f'} hf => ?_) hmatch) hsite
    · intro f g g' hfg hgg'
      exact ⟨hfg.span.trans hgg'.span, hfg.rule.trans hgg'.rule,
        fun hrule => (hfg.message hrule).trans (hgg'.message (hfg.rule ▸ hrule))⟩
    · dsimp only
      rw [hf.isFixedAt_eq hpast]

/-- Fixing keeps the names and the number of their references. -/
theorem Fixed.census_eq {text t : List Char} {spans : List Span} (h : Fixed text spans t) :
    (symbols t).census = (symbols text).census := by
  induction h with
  | nil => rfl
  | cons site rest h hpast ih => exact (site.census_eq rest).trans ih

/-! ## The proposed edits -/

/-- Two ranges on the same lines. -/
def Range.SameLines (r r' : Range) : Prop :=
  r.start.line = r'.start.line ∧ r.stop.line = r'.stop.line

/-- Any of the edits that are proposed for a text can be applied. Of the diagnostics those
about the calls that are fixed are gone, and every other one is there in its order, on its
line and with its rule, severity and message; only a message about a deprecated call may
quote other arguments. The symbol table has the same names, uses and numbers of references. -/
theorem analyze_applyEdits (document text : String) {edits : List TextEdit}
    (h : edits.Sublist ((codeActions document text.toList
      (analyze document text).diagnostics).map (·.edit))) :
    ∃ applied, Applied text.toList edits applied ∧
      List.Forall₂ (Diagnostic.Match Range.SameLines)
        ((analyze document text).diagnostics.filter fun d =>
          !(d.rule = .deprecatedCall && d.range ∈ applied.map (·.range)))
        (analyze document (String.ofList (applyEdits text.toList edits).1)).diagnostics ∧
      (analyze document text).diagnostics.length =
        (analyze document (String.ofList (applyEdits text.toList edits).1)).diagnostics.length +
          applied.length ∧
      (symbols (applyEdits text.toList edits).1).census = (symbols text.toList).census := by
  obtain ⟨applied, spans, happlied, hfixed, hranges⟩ := exists_fixed fun e he => h.subset he
  refine ⟨applied, happlied, ?_, ?_, hfixed.census_eq⟩
  · obtain ⟨hmatch, -⟩ := hfixed.match_orderedFindings
    simp only [analyze, String.toList_ofList, diagnose_eq_map, List.filter_map]
    have hfilter : ∀ f : Finding, ((fun d : Diagnostic => !(d.rule = .deprecatedCall &&
        d.range ∈ applied.map (·.range))) ∘ Finding.diagnostic) f = !f.isFixedAt spans := by
      intro f
      have hspan : f.diagnostic.range ∈ applied.map (·.range) ↔ f.span ∈ spans := by
        rw [← hranges.mem_iff]
        refine List.mem_map_of_injective fun s s' hs => ?_
        cases s
        cases s'
        simp_all [Range.ofSpan]
      simp only [Function.comp_apply, Finding.isFixedAt, hspan]
      rfl
    rw [funext hfilter]
    exact List.rel_map (fun f f' hf => hf.diagnostic fun hs => ⟨hs.line, hs.line⟩) hmatch
  · have hcount := hranges.length_eq
    simp only [List.length_map] at hcount
    simp only [analyze, String.toList_ofList, diagnose_eq_map, List.length_map]
    rw [hfixed.match_orderedFindings.2, hcount]

/-- Two calls of which one stands in the arguments of the other. -/
def nestedCalls : String :=
  "num n = mathlib[abs](mathlib[abs](1))\nlet m = strlib[length](\"a\")"

/-- The outer one of two nested calls is fixed, and one on the next line. -/
theorem analyze_applyEdits_nestedCalls :
    let edits : List TextEdit := [⟨⟨⟨0, 8⟩, ⟨0, 37⟩⟩, "mathlib::abs(mathlib[abs](1))"⟩,
      ⟨⟨⟨1, 8⟩, ⟨1, 27⟩⟩, "strlib::length(\"a\")"⟩]
    edits.Sublist ((codeActions "" nestedCalls.toList
        (analyze "" nestedCalls).diagnostics).map (·.edit)) ∧
      ∃ applied, Applied nestedCalls.toList edits applied ∧
        (analyze "" nestedCalls).diagnostics.length =
          (analyze "" (String.ofList (applyEdits nestedCalls.toList edits).1)).diagnostics.length +
            applied.length ∧
        (symbols (applyEdits nestedCalls.toList edits).1).census =
          (symbols nestedCalls.toList).census := by
  intro edits
  have h : edits.Sublist ((codeActions "" nestedCalls.toList
      (analyze "" nestedCalls).diagnostics).map (·.edit)) := by
    simp only [analyze, diagnose_eq_map]
    decide +kernel
  obtain ⟨applied, happlied, -, hlength, hcensus⟩ := analyze_applyEdits "" nestedCalls h
  exact ⟨h, applied, happlied, hlength, hcensus⟩

end RazenLint
