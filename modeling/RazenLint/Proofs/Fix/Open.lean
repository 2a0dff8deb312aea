import RazenLint.Proofs.Fix.All
import RazenLint.Proofs.Fix.Kept

/-!
# What is not to be fixed

A finding is to be fixed when it is about the form of a call that its line closes. All other
findings of an event are its open ones (`Event.openFindings`), and fixing a call keeps those of
every event : of the call itself, and of the calls around it, which are closed after the fix when
they were before (`OldCall.map_hasClosedCall_events`). So any number of rounds keeps them all
(`FixRun.openFindings_agree`), and after the last one nothing else is left (`diagnose_fixAll`).
-/

namespace RazenLint

open Text

/-! ## Open findings -/

/-- Whether an event is a call that its line closes. -/
def Event.hasClosedCall (e : Event) : Bool :=
  e.call?.any fun c => c.arguments.isSome

/-- The findings of an event that are not about the form of a closed call. -/
def Event.openFindings (e : Event) : List Finding :=
  e.orderedFindings.filter fun f => !(f.rule = .deprecatedCall && e.hasClosedCall)

/-- The findings of a text that are not about the form of a closed call. -/
def openFindings (text : List Char) : List Finding :=
  (events text).flatMap Event.openFindings

/-- The range of a finding about the form of a call ends with a parenthesis that closes the
call, when there is one. -/
theorem Event.isClosedCall_of_mem {text : List Char} {e : Event} (he : e ∈ events text)
    {f : Finding} (hf : f ∈ e.orderedFindings) :
    f.diagnostic.isClosedCall text = (f.rule = .deprecatedCall && e.hasClosedCall) := by
  by_cases hrule : f.rule = .deprecatedCall
  · have hmem : f ∈ e.orderedFindings.filter (·.rule = .deprecatedCall) :=
      List.mem_filter.2 ⟨hf, decide_eq_true hrule⟩
    rw [e.filter_orderedFindings] at hmem
    obtain ⟨p, hp, rfl⟩ := List.mem_map.1 hmem
    obtain ⟨rfl, hlegacy, hlibrary⟩ := e.deprecated?_eq_some_iff.1 (Option.mem_toList.1 hp)
    obtain ⟨index, line, hline, he⟩ := mem_eventsFrom_iff.1 he
    rw [Nat.zero_add] at he
    obtain ⟨column, head, bound, hhead, hcall⟩ := exists_head_of_mem_eventsOfLine he
    obtain ⟨call, library⟩ := p
    dsimp only at hcall hlegacy hlibrary
    subst hcall
    have hends := endsClosed_ofHead hline hhead hlegacy
      (Option.isSome_iff_exists.2 ⟨library, hlibrary⟩) bound
    have hclosed : (call (.ofHead index line bound column head)).hasClosedCall =
        (closingParen (code line) (column + head.openingOffset)).isSome := by
      simp [hasClosedCall, call?, LibraryCall.ofHead]
    rw [hclosed, ← hends, decide_eq_true hrule]
    rfl
  · have hdiagnostic : f.diagnostic.rule ≠ .deprecatedCall := hrule
    simp [Diagnostic.isClosedCall, hdiagnostic, hrule]

theorem filter_diagnose_open (text : List Char) :
    (diagnose text).filter (fun d => !d.isClosedCall text) =
      (openFindings text).map Finding.diagnostic := by
  rw [diagnose_eq_map, List.filter_map, orderedFindings, List.filter_flatMap, openFindings]
  refine congrArg _ (List.flatMap_congr fun e he => List.filter_congr fun f hf => ?_)
  rw [Function.comp_apply, Event.isClosedCall_of_mem he hf]

/-! ## One call -/

/-- Two findings that say the same on one line. -/
structure Finding.AgreeUpToColumns (f f' : Finding) : Prop where
  line : f.span.line = f'.span.line
  rule : f.rule = f'.rule
  message : f.message = f'.message

section

variable {N E : Span → Span → Prop} {e e' : Event} (hNE : ∀ {s s'}, N s s' → E s s')
  (hline : ∀ {s s'}, E s s' → s.line = s'.line)

include hline in
/-- Matching findings that are not about the form of a call say the same. -/
theorem Finding.forall₂_filter_rule {fs fs' : List Finding}
    (h : List.Forall₂ (Finding.Match E) fs fs') : List.Forall₂ Finding.AgreeUpToColumns
      (fs.filter fun f => !decide (f.rule = .deprecatedCall))
      (fs'.filter fun f => !decide (f.rule = .deprecatedCall)) := by
  have hfilter := List.rel_filter (p := fun f : Finding => !decide (f.rule = .deprecatedCall))
    (q := fun f : Finding => !decide (f.rule = .deprecatedCall))
    (fun {f f'} hf => by dsimp only; rw [hf.rule]) h
  refine (forall₂_and_mem hfilter).imp fun f f' ⟨hf, hmem, _⟩ => ⟨hline hf.span, hf.rule, ?_⟩
  exact hf.message (by simpa using (List.mem_filter.1 hmem).2)

theorem Event.openFindings_of_closed (h : e.hasClosedCall = true) :
    e.openFindings = e.orderedFindings.filter fun f => !decide (f.rule = .deprecatedCall) := by
  simp only [openFindings, h, Bool.and_true]

include hNE in
/-- Where the parentheses of matching calls are not closed no message quotes arguments. -/
theorem Event.Match.orderedFindings_of_open (h : Event.Match N E e e')
    (hopen : e.hasClosedCall = false) (hopen' : e'.hasClosedCall = false) :
    List.Forall₂ (fun f f' => Finding.Match E f f' ∧ f.message = f'.message)
      e.orderedFindings e'.orderedFindings := by
  cases h with
  | declaration h =>
    exact (forall₂_and_mem h.findings).imp fun f f' ⟨hf, hmem, _⟩ =>
      ⟨hf, hf.message (Declaration.rule_ne_deprecatedCall hmem)⟩
  | imported h =>
    exact (forall₂_and_mem (h.findings hNE)).imp fun f f' ⟨hf, hmem, _⟩ =>
      ⟨hf, hf.message (Import.rule_ne_deprecatedCall hmem)⟩
  | @call c c' h =>
    have harguments : c.arguments = c'.arguments := by
      simp only [hasClosedCall, call?, Option.any_some, Option.isSome_eq_false_iff,
        Option.isNone_iff_eq_none] at hopen hopen'
      rw [hopen, hopen']
    exact (h.orderedFindings_of_arguments hNE).imp fun f f' hf => ⟨hf.1, hf.2 harguments⟩

include hNE hline in
/-- Matching events that are both closed or both not have the same open findings. -/
theorem Event.Match.openFindings (h : Event.Match N E e e')
    (hclosed : e.hasClosedCall = e'.hasClosedCall) :
    List.Forall₂ Finding.AgreeUpToColumns e.openFindings e'.openFindings := by
  cases hopen : e.hasClosedCall with
  | false =>
    rw [hopen] at hclosed
    have hall := h.orderedFindings_of_open hNE hopen hclosed.symm
    simp only [Event.openFindings, hopen, ← hclosed, Bool.and_false, Bool.not_false,
      List.filter_true]
    exact hall.imp fun f f' hf => ⟨hline hf.1.span, hf.1.rule, hf.2⟩
  | true =>
    rw [Event.openFindings_of_closed hopen, Event.openFindings_of_closed (hclosed ▸ hopen)]
    exact Finding.forall₂_filter_rule hline (h.orderedFindings hNE)

include hNE hline in
theorem Event.forall₂_openFindings {es es' : List Event} (h : List.Forall₂ (Event.Match N E) es es')
    (hclosed : es.map Event.hasClosedCall = es'.map Event.hasClosedCall) :
    List.Forall₂ Finding.AgreeUpToColumns (es.flatMap Event.openFindings)
      (es'.flatMap Event.openFindings) := by
  induction h with
  | nil => exact List.Forall₂.nil
  | cons he _ ih =>
    rw [List.map_cons, List.map_cons, List.cons.injEq] at hclosed
    rw [List.flatMap_cons, List.flatMap_cons]
    exact List.rel_append (he.openFindings hNE hline hclosed.1) (ih hclosed.2)

end

namespace OldCall

variable {o : OldCall}

/-- The call itself loses the finding about its form and keeps the others. -/
theorem openFindings_call (index : Nat) (bound bound' : Bool) :
    List.Forall₂ Finding.AgreeUpToColumns (Event.call (o.call index bound)).openFindings
      (Event.call (o.fixedCall index bound')).openFindings := by
  obtain ⟨hline, hfixed⟩ := o.isSome_closingParen_head
  have hclosed : (Event.call (o.call index bound)).hasClosedCall = true := by
    simpa [Event.hasClosedCall, Event.call?, call, LibraryCall.ofHead] using hline
  have hclosed' : (Event.call (o.fixedCall index bound')).hasClosedCall = true := by
    simpa [Event.hasClosedCall, Event.call?, fixedCall, LibraryCall.ofHead] using hfixed
  obtain ⟨f, rest, hcall, hrule, -, hrest⟩ := o.orderedFindings_call index bound bound'
  rw [Event.openFindings_of_closed hclosed, Event.openFindings_of_closed hclosed']
  change List.Forall₂ _ ((o.call index bound).orderedFindings.filter _) _
  rw [hcall, List.filter_cons_of_neg (by simp [hrule])]
  exact Finding.forall₂_filter_rule (fun hs => hs.line) hrest

theorem map_hasClosedCall_callsOfLine (index : Nat) (line : List Char) (bound : Option Nat) :
    ((callsOfLine index line bound).map Event.call).map Event.hasClosedCall =
      (callHeads (code line)).map fun p =>
        (closingParen (code line) (p.1 + p.2.openingOffset)).isSome := by
  rw [callsOfLine, List.map_map, List.map_map]
  refine List.map_congr_left fun p _ => ?_
  simp [Event.hasClosedCall, Event.call?, LibraryCall.ofHead]

/-- The calls of the two lines are closed alike. -/
theorem map_hasClosedCall_eventsOfLine (o : OldCall) (index : Nat) :
    (eventsOfLine index o.line).map Event.hasClosedCall =
      (eventsOfLine index o.fixed).map Event.hasClosedCall := by
  have hcalls : ∀ bound bound', ((callsOfLine index o.line bound).map Event.call).map
      Event.hasClosedCall = ((callsOfLine index o.fixed bound').map Event.call).map
        Event.hasClosedCall := by
    intro bound bound'
    obtain ⟨hline, hfixed⟩ := o.isSome_closingParen_head
    rw [map_hasClosedCall_callsOfLine, map_hasClosedCall_callsOfLine, callHeads_line,
      callHeads_fixed, List.map_append, List.map_append, List.map_cons, List.map_cons, hline,
      hfixed, List.map_map]
    refine congrArg₂ _ (List.map_congr_left fun p hp => ?_)
      (congrArg _ (List.map_congr_left fun p hp => ?_))
    · exact o.isSome_closingParen_before hp
    · exact o.isSome_closingParen_behind (le_of_mem_callHeadsFrom hp).1
  have himport : importWords? (code o.line) = none ∧ importWords? (code o.fixed) = none := by
    rw [code_line, code_fixed]
    exact ⟨importWords?_eq_none, importWords?_eq_none⟩
  rw [eventsOfLine_eq, eventsOfLine_eq, assignment?_line, assignment?_fixed]
  cases assignment? (mask o.front) with
  | none =>
    rw [himport.1, himport.2]
    exact hcalls none none
  | some a => exact congrArg (false :: ·) (hcalls _ _)

variable {text text' : List Char} {before after : List (List Char)}

/-- The calls of the two texts are closed alike. -/
theorem map_hasClosedCall_events (h : lines text = before ++ o.line :: after)
    (h' : lines text' = before ++ o.fixed :: after) :
    (events text).map Event.hasClosedCall = (events text').map Event.hasClosedCall := by
  unfold events
  rw [h, h', eventsFrom_append, eventsFrom_append, eventsFrom, eventsFrom, List.map_append,
    List.map_append, List.map_append, List.map_append, o.map_hasClosedCall_eventsOfLine]

/-- The open findings of the two texts are the same. -/
theorem openFindings_agree (h : lines text = before ++ o.line :: after)
    (h' : lines text' = before ++ o.fixed :: after) :
    List.Forall₂ Finding.AgreeUpToColumns (openFindings text) (openFindings text') := by
  obtain ⟨bound, bound', haround⟩ := matchAround_events h h'
  have hclosed := map_hasClosedCall_events h h'
  unfold openFindings
  generalize events text = es, events text' = es' at haround hclosed
  obtain ⟨hbefore, hafter⟩ := haround
  rw [List.map_append, List.map_append, List.map_cons, List.map_cons] at hclosed
  obtain ⟨hfront, hback⟩ := List.append_inj hclosed (by simpa using hbefore.length_eq)
  have hkept : ∀ {s s'}, o.Moves before.length s s' → o.Extends before.length s s' :=
    fun hs => hs.extends
  have hline : ∀ {s s'}, o.Extends before.length s s' → s.line = s'.line := fun hs => hs.line
  rw [List.flatMap_append, List.flatMap_append, List.flatMap_cons, List.flatMap_cons]
  exact List.rel_append (Event.forall₂_openFindings hkept hline hbefore hfront)
    (List.rel_append (openFindings_call before.length bound bound')
      (Event.forall₂_openFindings hkept hline hafter (List.cons.inj hback).2))

end OldCall

/-! ## All rounds -/

theorem Finding.forall₂_agree_refl (fs : List Finding) :
    List.Forall₂ Finding.AgreeUpToColumns fs fs :=
  List.forall₂_same.2 fun _ _ => ⟨rfl, rfl, rfl⟩

theorem Finding.forall₂_agree_trans {fs fs' fs'' : List Finding}
    (h : List.Forall₂ Finding.AgreeUpToColumns fs fs')
    (h' : List.Forall₂ Finding.AgreeUpToColumns fs' fs'') :
    List.Forall₂ Finding.AgreeUpToColumns fs fs'' :=
  forall₂_comp (fun _ _ _ hf hf' => ⟨hf.line.trans hf'.line, hf.rule.trans hf'.rule,
    hf.message.trans hf'.message⟩) h h'

/-- Fixing one call keeps the open findings of the text. -/
theorem CallSite.openFindings_agree (site : CallSite) (rest : List Char) :
    List.Forall₂ Finding.AgreeUpToColumns (openFindings (site.old rest))
      (openFindings (site.new rest)) := by
  obtain ⟨tail, after, hline, hfixed⟩ := site.exists_lines rest
  exact OldCall.openFindings_agree hline hfixed

theorem Fixed.openFindings_agree {text t : List Char} {spans : List Span} (h : Fixed text spans t) :
    List.Forall₂ Finding.AgreeUpToColumns (openFindings text) (openFindings t) := by
  induction h with
  | nil => exact Finding.forall₂_agree_refl _
  | cons site rest _ _ ih => exact Finding.forall₂_agree_trans ih (site.openFindings_agree rest)

theorem FixRun.openFindings_agree {text final : List Char} {count : Nat}
    (h : FixRun text final count) :
    List.Forall₂ Finding.AgreeUpToColumns (openFindings text) (openFindings final) := by
  induction h with
  | stop => exact Finding.forall₂_agree_refl _
  | @round text _ _ _ _ ih =>
    obtain ⟨spans, hfixed, -⟩ := exists_fixed_fixRound text
    exact Finding.forall₂_agree_trans hfixed.openFindings_agree ih

/-! ## Diagnostics -/

/-- Two diagnostics that differ in nothing but the columns. -/
structure Diagnostic.AgreeUpToColumns (d d' : Diagnostic) : Prop where
  startLine : d.range.start.line = d'.range.start.line
  stopLine : d.range.stop.line = d'.range.stop.line
  severity : d.severity = d'.severity
  message : d.message = d'.message
  source : d.source = d'.source
  rule : d.rule = d'.rule
  fixCode : d.fixCode = d'.fixCode

theorem Finding.AgreeUpToColumns.diagnostic {f f' : Finding} (h : f.AgreeUpToColumns f') :
    f.diagnostic.AgreeUpToColumns f'.diagnostic :=
  ⟨h.line, h.line, congrArg Rule.severity h.rule, h.message, rfl, h.rule,
    congrArg Rule.fixCode h.rule⟩

/-- A text that has been fixed has nothing to be fixed. -/
theorem isClosedCall_of_mem_fixAll {text : List Char} {d : Diagnostic}
    (h : d ∈ diagnose (fixAll text).1) : d.isClosedCall (fixAll text).1 = false := by
  obtain ⟨-, -, hstop⟩ := (fixRun_fixAll text).eq_rewrite
  have hlength := length_oldHeads (fixAll text).1
  rw [oldHeads_eq_nil hstop, List.length_nil, eq_comm, List.length_eq_zero_iff,
    List.filter_eq_nil_iff] at hlength
  simpa using hlength d h

/-- Fixing everything keeps the diagnostics that are not about a closed call, in their order and
up to their columns, and no others are left. -/
theorem diagnose_fixAll (text : List Char) :
    List.Forall₂ Diagnostic.AgreeUpToColumns ((diagnose text).filter fun d => !d.isClosedCall text)
      (diagnose (fixAll text).1) := by
  have hall : (diagnose (fixAll text).1).filter (fun d => !d.isClosedCall (fixAll text).1) =
      diagnose (fixAll text).1 :=
    List.filter_eq_self.2 fun d hd => by rw [isClosedCall_of_mem_fixAll hd]; rfl
  rw [← hall, filter_diagnose_open, filter_diagnose_open]
  exact List.rel_map (fun _ _ hf => hf.diagnostic) (fixRun_fixAll text).openFindings_agree

/-- A text that has been fixed stays as it is. -/
theorem fixAll_fixAll (text : List Char) : fixAll (fixAll text).1 = ((fixAll text).1, 0) := by
  obtain ⟨-, -, hstop⟩ := (fixRun_fixAll text).eq_rewrite
  obtain ⟨hagain, hzero, -⟩ := (fixRun_fixAll (fixAll text).1).eq_rewrite
  rw [oldHeads_eq_nil hstop] at hagain hzero
  exact Prod.ext hagain hzero

/-- A text without fixes is its own fixed text. -/
theorem fixAll_of_count {text : List Char} (h : (fixAll text).2 = 0) : (fixAll text).1 = text := by
  obtain ⟨hfinal, hcount, -⟩ := (fixRun_fixAll text).eq_rewrite
  rw [h, eq_comm, List.length_eq_zero_iff] at hcount
  rw [hfinal, hcount]
  rfl

end RazenLint
