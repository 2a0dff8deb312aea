import Mathlib.Data.List.Perm.Basic
import Mathlib.Data.Set.Function
import RazenLint.Analysis
import RazenLint.Proofs.Event.Reading

/-!
# The order of diagnostics

The findings of a text can be listed in the order in which they begin : line by line,
the declaration before the calls, and for a call the deprecated form before the unknown
function (`Event.orderedFindings`). No two findings begin at one place
(`pairwise_orderedFindings`), so sorting them gives exactly this list, in whatever order
they were found (`aggregate_of_perm`), and the diagnostics of a text are those of its
events, one event after the other (`diagnose_eq`).

`diagnostics_ordered` says what this means to a reader of diagnostics : no two of them have
a start and a rule in common, there is one for each finding, and the list of them does not
depend on the order of the findings.
-/

namespace RazenLint

open Text

/-- One finding begins before another one. -/
def Finding.Before (f g : Finding) : Prop :=
  f.span.line < g.span.line ∨ (f.span.line = g.span.line ∧ f.span.start < g.span.start)

/-- The findings of a call from left to right. -/
def LibraryCall.orderedFindings (c : LibraryCall) : List Finding :=
  match Library.resolve? c.library with
  | none => if c.legacy then [] else [.unknownLibrary c.library c.librarySpan]
  | some library =>
    (if c.legacy then
      [.deprecatedCall c.library c.function (currentForm library.name c.function c.arguments)
        c.callSpan]
      else []) ++
    (if library.hasFunction c.function then []
      else [.unknownFunction library c.function c.functionSpan])

/-- The findings of an event from left to right. -/
def Event.orderedFindings : Event → List Finding
  | declaration d => d.findings
  | imported i => i.findings
  | call c => c.orderedFindings

theorem Event.perm_orderedFindings (e : Event) : e.findings.Perm e.orderedFindings := by
  cases e with
  | declaration d => exact List.Perm.refl _
  | imported i => exact List.Perm.refl _
  | call c =>
    change c.findings.Perm c.orderedFindings
    unfold LibraryCall.findings LibraryCall.orderedFindings
    cases Library.resolve? c.library with
    | none => exact List.Perm.refl _
    | some library => exact List.perm_append_comm

/-! ## Where the findings of a line begin -/

theorem Import.span_of_mem_findings {i : Import} {f : Finding} (h : f ∈ i.findings) :
    f.span = i.span := by
  unfold findings at h
  split at h
  · exact absurd h List.not_mem_nil
  · rw [List.mem_singleton.1 h]
    rfl

/-- A declaration has no finding, or one : about the shape of its value, or about what the call
that is its value returns. -/
theorem Declaration.findings_cases (d : Declaration) : d.findings = [] ∨
    (∃ shape, d.call = none ∧ d.kind.accepts shape = some false ∧
      d.findings = [.kindMismatch d.name d.keyword d.kind shape d.statementSpan]) ∨
    ∃ call library result, d.call = some call ∧ call.spansInitializer = true ∧
      call.result? = some (library, result) ∧ d.kind.base ≠ result.kind.base ∧
      d.findings = [.returnMismatch d.name d.keyword d.kind library.name call.function result
        d.statementSpan] := by
  unfold findings
  cases d.call with
  | none =>
    dsimp only
    split
    · rename_i haccepts
      exact Or.inr (Or.inl ⟨_, rfl, haccepts, rfl⟩)
    · exact Or.inl rfl
  | some call =>
    dsimp only
    split
    · exact Or.inl rfl
    · rename_i hopinion
      rw [Bool.or_eq_true, not_or, Bool.not_eq_true', Bool.not_eq_false] at hopinion
      cases hresult : call.result? with
      | none => exact Or.inl rfl
      | some found =>
        dsimp only
        split
        · exact Or.inl rfl
        · rename_i hmisses
          exact Or.inr (Or.inr ⟨call, found.1, found.2, rfl, hopinion.1, hresult, hmisses, rfl⟩)

/-- A declaration has at most one finding, and that is about the whole statement. -/
theorem Declaration.findings_eq (d : Declaration) :
    d.findings = [] ∨ ∃ f : Finding, d.findings = [f] ∧ f.span = d.statementSpan := by
  rcases d.findings_cases with hd | ⟨_, -, -, hd⟩ | ⟨_, _, _, -, -, -, -, hd⟩
  · exact Or.inl hd
  · exact Or.inr ⟨_, hd, rfl⟩
  · exact Or.inr ⟨_, hd, rfl⟩

/-- What a finding about a declaration says. -/
theorem Declaration.cases_of_mem_findings {d : Declaration} {f : Finding} (h : f ∈ d.findings) :
    (∃ shape, d.call = none ∧
      f = .kindMismatch d.name d.keyword d.kind shape d.statementSpan) ∨
    ∃ call library result, d.call = some call ∧ call.spansInitializer = true ∧
      call.result? = some (library, result) ∧
      f = .returnMismatch d.name d.keyword d.kind library.name call.function result
        d.statementSpan := by
  rcases d.findings_cases with hd | ⟨shape, hcall, -, hd⟩ |
    ⟨call, library, result, hcall, hspans, hresult, -, hd⟩
  · rw [hd] at h
    exact absurd h List.not_mem_nil
  · rw [hd] at h
    exact Or.inl ⟨shape, hcall, List.mem_singleton.1 h⟩
  · rw [hd] at h
    exact Or.inr ⟨call, library, result, hcall, hspans, hresult, List.mem_singleton.1 h⟩

theorem Declaration.span_of_mem_findings {d : Declaration} {f : Finding} (h : f ∈ d.findings) :
    f.span = d.statementSpan := by
  rcases cases_of_mem_findings h with ⟨_, -, rfl⟩ | ⟨_, _, _, -, -, -, rfl⟩
  · rfl
  · rfl

theorem LibraryCall.span_of_mem_orderedFindings {c : LibraryCall} {f : Finding}
    (h : f ∈ c.orderedFindings) :
    f.span = c.librarySpan ∨ f.span = c.functionSpan ∨ f.span = c.callSpan := by
  unfold orderedFindings at h
  cases hresolve : Library.resolve? c.library with
  | none =>
    simp only [hresolve] at h
    split at h
    · exact absurd h List.not_mem_nil
    · rw [List.mem_singleton.1 h]
      exact Or.inl rfl
  | some library =>
    simp only [hresolve, List.mem_append] at h
    rcases h with h | h
    · split at h
      · rw [List.mem_singleton.1 h]
        exact Or.inr (Or.inr rfl)
      · exact absurd h List.not_mem_nil
    · split at h
      · exact absurd h List.not_mem_nil
      · rw [List.mem_singleton.1 h]
        exact Or.inr (Or.inl rfl)

/-- The findings of a call begin inside its head. -/
theorem start_of_mem_orderedFindings_ofHead {index column : Nat} {line : List Char} {bound : Bool}
    {head : CallHead} {f : Finding}
    (h : f ∈ (LibraryCall.ofHead index line bound column head).orderedFindings) :
    f.span.line = index ∧ column ≤ f.span.start ∧ f.span.start ≤ column + head.openingOffset := by
  have hoffset : head.functionOffset ≤ head.openingOffset := by
    unfold CallHead.openingOffset
    omega
  rcases LibraryCall.span_of_mem_orderedFindings h with h | h | h <;> rw [h] <;>
    simp only [LibraryCall.ofHead, true_and] <;> omega

theorem pairwise_orderedFindings_ofHead (index : Nat) (line : List Char) (bound : Bool)
    (column : Nat) (head : CallHead) :
    (LibraryCall.ofHead index line bound column head).orderedFindings.Pairwise Finding.Before := by
  have hoffset : 0 < head.functionOffset := by
    unfold CallHead.functionOffset
    split <;> omega
  unfold LibraryCall.orderedFindings
  split
  · split <;> simp
  · rename_i library _
    rw [List.pairwise_append]
    refine ⟨by split <;> simp, by split <;> simp, fun f hf g hg => ?_⟩
    split at hf
    · split at hg
      · exact absurd hg List.not_mem_nil
      · rw [List.mem_singleton.1 hf, List.mem_singleton.1 hg]
        exact Or.inr ⟨rfl, Nat.lt_add_of_pos_right hoffset⟩
    · exact absurd hf List.not_mem_nil

theorem pairwise_orderedFindings_callsOfLine (index : Nat) (line : List Char) (bound : Option Nat) :
    (((callsOfLine index line bound).map Event.call).flatMap Event.orderedFindings).Pairwise
      Finding.Before := by
  rw [callsOfLine, List.map_map, List.flatMap_map, List.pairwise_flatMap]
  refine ⟨fun p _ => pairwise_orderedFindings_ofHead _ _ _ _ _,
    (pairwise_callHeads_apart (code line)).imp fun {p q} hpq f hf g hg => ?_⟩
  obtain ⟨hf1, hf2, hf3⟩ := start_of_mem_orderedFindings_ofHead hf
  obtain ⟨hg1, hg2, hg3⟩ := start_of_mem_orderedFindings_ofHead hg
  exact Or.inr ⟨hf1.trans hg1.symm, by omega⟩

theorem line_of_mem_orderedFindings {index : Nat} {line : List Char} {f : Finding}
    (h : f ∈ (eventsOfLine index line).flatMap Event.orderedFindings) : f.span.line = index := by
  obtain ⟨e, he, hf⟩ := List.mem_flatMap.1 h
  rcases of_mem_eventsOfLine he with ⟨a, -, rfl⟩ | ⟨words, -, rfl⟩ | ⟨column, head, bound, -, rfl⟩
  · rw [Declaration.span_of_mem_findings hf]
    rfl
  · rw [Import.span_of_mem_findings hf]
    rfl
  · exact (start_of_mem_orderedFindings_ofHead hf).1

/-- No head stands on the line of an import. -/
theorem callHeads_of_importWords? {code : List Char} {words : WordPair}
    (h : importWords? code = some words) : callHeads code = [] :=
  callHeads_of_notMem (paren_notMem_of_importWords? h)

theorem pairwise_orderedFindings_line (index : Nat) (line : List Char) :
    ((eventsOfLine index line).flatMap Event.orderedFindings).Pairwise Finding.Before := by
  unfold eventsOfLine
  split
  · exact List.Pairwise.nil
  · split
    · rename_i a ha
      rw [List.flatMap_cons, List.pairwise_append]
      refine ⟨?_, pairwise_orderedFindings_callsOfLine index line _, fun f hf g hg => ?_⟩
      · rcases (Declaration.ofAssignment index line a).findings_eq with hd | ⟨f, hd, -⟩ <;>
          rw [Event.orderedFindings, hd] <;> simp
      · obtain ⟨e, he, hg⟩ := List.mem_flatMap.1 hg
        obtain ⟨c, hc, rfl⟩ := List.mem_map.1 he
        obtain ⟨p, hp, rfl⟩ := List.mem_map.1 hc
        obtain ⟨hline, hstart, -⟩ := start_of_mem_orderedFindings_ofHead hg
        have hvalue := valueColumn_le_of_mem_callHeads ha hp
        have hkeyword := columns_of_assignment? ha
        rw [Finding.Before, Declaration.span_of_mem_findings hf]
        simp only [Declaration.ofAssignment]
        omega
    · cases himport : importWords? (code line) with
      | none => exact pairwise_orderedFindings_callsOfLine index line none
      | some words =>
        rw [callsOfLine, callHeads_of_importWords? himport]
        simp only [Option.toList_some, List.map_cons, List.map_nil, List.append_nil,
          List.flatMap_cons, List.flatMap_nil]
        change (Import.findings _).Pairwise _
        unfold Import.findings
        split
        · exact List.Pairwise.nil
        · exact List.pairwise_singleton _ _

theorem le_line_of_mem_eventsFrom {f : Finding} : ∀ {index : Nat} {lines : List (List Char)},
    f ∈ (eventsFrom index lines).flatMap Event.orderedFindings → index ≤ f.span.line
  | index, [], h => by simp [eventsFrom] at h
  | index, line :: rest, h => by
    rw [eventsFrom, List.flatMap_append, List.mem_append] at h
    rcases h with h | h
    · rw [line_of_mem_orderedFindings h]
    · have := le_line_of_mem_eventsFrom h
      omega

/-- No two findings of a text begin at one place. -/
theorem pairwise_orderedFindings : ∀ (index : Nat) (lines : List (List Char)),
    ((eventsFrom index lines).flatMap Event.orderedFindings).Pairwise Finding.Before
  | _, [] => List.Pairwise.nil
  | index, line :: rest => by
    rw [eventsFrom, List.flatMap_append, List.pairwise_append]
    refine ⟨pairwise_orderedFindings_line index line, pairwise_orderedFindings (index + 1) rest,
      fun f hf g hg => ?_⟩
    have hline := line_of_mem_orderedFindings hf
    have hlater := le_line_of_mem_eventsFrom hg
    exact Or.inl (by omega)

/-! ## Sorting -/

/-- The place at which a diagnostic begins. -/
def Diagnostic.place (d : Diagnostic) : Nat × Nat :=
  (d.range.start.line, d.range.start.character)

theorem Diagnostic.isLE_compare_iff (a b : Diagnostic) : (a.compare b).isLE = true ↔
    a.range.start.line < b.range.start.line ∨ (a.range.start.line = b.range.start.line ∧
      (a.range.start.character < b.range.start.character ∨
        (a.range.start.character = b.range.start.character ∧
          (a.rule.rank < b.rule.rank ∨ (a.rule.rank = b.rule.rank ∧
            (a.range.stop.line < b.range.stop.line ∨ (a.range.stop.line = b.range.stop.line ∧
              a.range.stop.character ≤ b.range.stop.character))))))) := by
  simp only [compare, Position.compare, Ordering.then_assoc, Ordering.isLE_then_iff_or,
    Nat.compare_eq_lt, Nat.compare_eq_eq, Nat.isLE_compare]

theorem Finding.Before.isLE_compare {f g : Finding} (h : f.Before g) :
    (f.diagnostic.compare g.diagnostic).isLE = true := by
  rw [Diagnostic.isLE_compare_iff]
  exact h.imp_right fun h => ⟨h.1, Or.inl h.2⟩

/-- The findings of a text are sorted into the order of its events, in whatever order they
were found. -/
theorem aggregate_of_perm {text : List Char} {found : List Finding}
    (h : found.Perm (findings (events text))) : aggregate found =
      ((events text).flatMap Event.orderedFindings).map Finding.diagnostic := by
  have hbefore := pairwise_orderedFindings 0 (lines text)
  have hperm : (found.map Finding.diagnostic).Perm
      (((events text).flatMap Event.orderedFindings).map Finding.diagnostic) :=
    (h.trans (List.Perm.flatMap_left _ fun e _ => e.perm_orderedFindings)).map _
  have hplaces : ((((events text).flatMap Event.orderedFindings).map Finding.diagnostic).map
      Diagnostic.place).Nodup := by
    refine List.pairwise_map.2 (List.pairwise_map.2 (hbefore.imp fun {f g} hfg heq => ?_))
    have heq : f.span.line = g.span.line ∧ f.span.start = g.span.start := Prod.mk.inj heq
    unfold Finding.Before at hfg
    omega
  have hsorted : (aggregate found).Pairwise fun a b => (a.compare b).isLE = true := by
    refine List.pairwise_mergeSort (fun a b c => ?_) (fun a b => ?_) _
    · rw [Diagnostic.isLE_compare_iff, Diagnostic.isLE_compare_iff, Diagnostic.isLE_compare_iff]
      omega
    · rw [Bool.or_eq_true, Diagnostic.isLE_compare_iff, Diagnostic.isLE_compare_iff]
      omega
  refine List.Perm.eq_of_pairwise (fun a b ha hb hab hba => ?_) hsorted
    (List.pairwise_map.2 (hbefore.imp fun h => h.isLE_compare))
    ((List.mergeSort_perm _ _).trans hperm)
  have ha' := hperm.mem_iff.1 (List.mem_mergeSort.1 ha)
  rw [Diagnostic.isLE_compare_iff] at hab hba
  have hplace : a.place = b.place := by
    simp only [Diagnostic.place, Prod.mk.injEq]
    omega
  exact List.inj_on_of_nodup_map hplaces ha' hb hplace

/-- The diagnostics of a text are those of its events, from the first place to the last. -/
theorem diagnose_eq (text : List Char) : diagnose text =
    ((events text).flatMap Event.orderedFindings).map Finding.diagnostic :=
  aggregate_of_perm (List.Perm.refl _)

/-! ## Line, column and rule -/

/-- One diagnostic comes before another one by its line, its column and its rule. -/
def Diagnostic.Before (a b : Diagnostic) : Prop :=
  a.range.start.line < b.range.start.line ∨ (a.range.start.line = b.range.start.line ∧
    (a.range.start.character < b.range.start.character ∨
      (a.range.start.character = b.range.start.character ∧ a.rule.rank < b.rule.rank)))

theorem Finding.Before.diagnostic {f g : Finding} (h : f.Before g) :
    f.diagnostic.Before g.diagnostic :=
  h.imp_right fun h => ⟨h.1, Or.inl h.2⟩

/-- Of two diagnostics in order the start or the rule differs. -/
theorem Diagnostic.Before.ne {a b : Diagnostic} (h : a.Before b) :
    (a.range.start, a.rule) ≠ (b.range.start, b.rule) := by
  intro heq
  obtain ⟨hstart, hrule⟩ := Prod.mk.inj heq
  unfold Before at h
  rw [hstart, hrule] at h
  omega

/-- The diagnostics of a text come in the order of line, column and rule, and no two have a
start and a rule in common. There is exactly one for each finding about the events of the
text, and the findings in any other order give the same list of diagnostics. -/
theorem diagnostics_ordered (document text : String) :
    (analyze document text).diagnostics.Pairwise Diagnostic.Before ∧
      ((analyze document text).diagnostics.map fun d => (d.range.start, d.rule)).Nodup ∧
      (findings (events text.toList)).Nodup ∧
      Set.BijOn Finding.diagnostic {f | f ∈ findings (events text.toList)}
        {d | d ∈ (analyze document text).diagnostics} ∧
      ∀ found : List Finding, found.Perm (findings (events text.toList)) →
        aggregate found = (analyze document text).diagnostics := by
  have hperm : (findings (events text.toList)).Perm
      ((events text.toList).flatMap Event.orderedFindings) :=
    List.Perm.flatMap_left _ fun e _ => e.perm_orderedFindings
  have hdiagnose : (analyze document text).diagnostics =
      ((events text.toList).flatMap Event.orderedFindings).map Finding.diagnostic :=
    diagnose_eq text.toList
  have hbefore : (analyze document text).diagnostics.Pairwise Diagnostic.Before := by
    rw [hdiagnose, List.pairwise_map]
    exact (pairwise_orderedFindings 0 (lines text.toList)).imp fun h => h.diagnostic
  have hnodup : (((events text.toList).flatMap Event.orderedFindings).map
      Finding.diagnostic).Nodup := by
    rw [← hdiagnose]
    refine hbefore.imp fun {a b} h heq => h.ne ?_
    rw [heq]
  refine ⟨hbefore, List.pairwise_map.2 (hbefore.imp fun h => h.ne),
    hperm.nodup_iff.2 hnodup.of_map, ⟨?_, ?_, ?_⟩, fun found h => ?_⟩
  · intro f hf
    change f.diagnostic ∈ (analyze document text).diagnostics
    rw [hdiagnose]
    exact List.mem_map_of_mem (hperm.mem_iff.1 hf)
  · intro f hf g hg heq
    exact List.inj_on_of_nodup_map hnodup (hperm.mem_iff.1 hf) (hperm.mem_iff.1 hg) heq
  · intro d hd
    change d ∈ (analyze document text).diagnostics at hd
    rw [hdiagnose] at hd
    obtain ⟨f, hf, rfl⟩ := List.mem_map.1 hd
    exact ⟨f, hperm.mem_iff.2 hf, rfl⟩
  · rw [aggregate_of_perm h, hdiagnose]

/-- A call with two findings, of which the validation names the later one first. -/
theorem diagnostics_ordered_reversed :
    aggregate (findings (events "Mathlib[cube](3)".toList)).reverse =
      (analyze "" "Mathlib[cube](3)").diagnostics :=
  (diagnostics_ordered "" "Mathlib[cube](3)").2.2.2.2 _ (List.reverse_perm _)

end RazenLint
