import Mathlib.Data.List.Forall2
import RazenLint.Proofs.Diagnostic
import RazenLint.Proofs.Event.Matcher

/-!
# The events of one line

`eventsOfLine_heads` says what a line gives, whichever way it is read : its calls are
those of the heads that are written in its code, one for each of them, from left to right
and apart from each other, and its events are a block of one of four forms (`LineBlock`).
-/

namespace RazenLint

open Text

/-- A head is written in a column of a line of code, where a word can begin. -/
def CallHead.StandsAt (head : CallHead) (code : List Char) (column : Nat) : Prop :=
  ∃ front blanks rest, code = front ++ (head.written blanks ++ rest) ∧ front.length = column ∧
    boundaryAfter front.getLast? = true ∧ head.Fits blanks

/-- Calls of which no one begins the value of a declaration. -/
def Unbound (calls : List LibraryCall) : Prop :=
  ∀ c ∈ calls, c.bound = false

/-- The forms that the events of one line can have. -/
inductive LineBlock : List Event → Prop
  | calls {calls : List LibraryCall} (unbound : Unbound calls) : LineBlock (calls.map .call)
  | imported (item : Import) : LineBlock [.imported item]
  | plainDeclaration {d : Declaration} {calls : List LibraryCall} (plain : d.call = none)
    (unbound : Unbound calls) : LineBlock (.declaration d :: calls.map .call)
  /-- The call that the value begins with follows its declaration. -/
  | callDeclaration {d : Declaration} {b : BoundCall} {c : LibraryCall} {calls : List LibraryCall}
    (value : d.call = some b) (bound : c.bound = true) (library : c.library = b.library)
    (function : c.function = b.function) (legacy : c.legacy = b.legacy) (unbound : Unbound calls) :
    LineBlock (.declaration d :: .call c :: calls.map .call)

theorem unbound_unboundCalls (index : Nat) (line : List Char) (taken : List (Nat × CallHead)) :
    Unbound (unboundCalls index line taken) := by
  intro c hc
  rw [unboundCalls_eq] at hc
  obtain ⟨p, -, rfl⟩ := List.mem_map.1 hc
  rfl

/-- What the matchers find has one of the four forms. -/
theorem lineBlock_eventsByMatchers (index : Nat) (line : List Char) :
    LineBlock (eventsByMatchers index line) := by
  unfold eventsByMatchers
  split
  · exact @LineBlock.calls [] fun _ hc => absurd hc List.not_mem_nil
  · split
    · exact .callDeclaration rfl rfl rfl rfl rfl (unbound_unboundCalls index line _)
    · split
      · exact .plainDeclaration rfl (unbound_unboundCalls index line _)
      · cases hwords : importWords? (code line) with
        | none => exact .calls (unbound_unboundCalls index line _)
        | some words =>
          rw [unboundCalls_eq, callHeads_of_importWords? hwords]
          exact .imported (.ofWords index words)

/-- The calls of a line are those of its heads. -/
theorem exists_filterMap_eventsOfLine (index : Nat) (line : List Char) : ∃ bound,
    (eventsOfLine index line).filterMap Event.call? = callsOfLine index line bound := by
  have hcalls (calls : List LibraryCall) :
      (calls.map Event.call).filterMap Event.call? = calls := by
    rw [List.filterMap_map]
    exact List.filterMap_some
  rw [eventsOfLine_eq]
  split
  · rename_i a ha
    exact ⟨_, by rw [List.filterMap_cons_none rfl, hcalls]⟩
  · refine ⟨none, ?_⟩
    rw [List.filterMap_append, hcalls, List.filterMap_map]
    have hnone : Event.call? ∘ (fun words => Event.imported (.ofWords index words)) =
        fun _ => none := rfl
    rw [hnone, List.filterMap_none, List.nil_append]

/-- The calls of a line are those of the heads that are written in its code, one for each
head, from left to right, where no head reaches into the next one. The matchers find
them, and the events of the line are a block of one of four forms. -/
theorem eventsOfLine_heads (index : Nat) (line : List Char) :
    eventsByMatchers index line = eventsOfLine index line ∧
      (∃ heads : List (Nat × CallHead),
        (∀ column head, (column, head) ∈ heads ↔ head.StandsAt (code line) column) ∧
        heads.Pairwise (fun p q => p.1 + p.2.openingOffset < q.1) ∧
        List.Forall₂ (fun c p => c = .ofHead index line c.bound p.1 p.2)
          ((eventsOfLine index line).filterMap Event.call?) heads) ∧
      LineBlock (eventsOfLine index line) := by
  have hmatchers := eventsByMatchers_eq index line
  refine ⟨hmatchers, ⟨callHeads (code line), fun column head => mem_callHeads_iff,
    pairwise_callHeads_apart _, ?_⟩, hmatchers ▸ lineBlock_eventsByMatchers index line⟩
  obtain ⟨bound, hcalls⟩ := exists_filterMap_eventsOfLine index line
  rw [hcalls, callsOfLine, List.forall₂_map_left_iff, List.forall₂_same]
  exact fun p _ => rfl

end RazenLint
