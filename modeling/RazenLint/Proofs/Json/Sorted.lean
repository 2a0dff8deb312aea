import RazenLint.Json.Basic
import RazenLint.Proofs.Table

/-!
# The order of members

The members of an object may stand in any order. Two values are the same when they have the
same form with the members in the order of their keys (`Json.Same`), and a value is the same
as that form (`same_sorted`). Texts, truth values and numbers have one form only
(`Same.eq_text` and its kin), the items of lists are the same in turn (`Same.exists_list`), and
under every key of an object stand the same values (`Same.exists_object`).
-/

namespace RazenLint.Json

/-- The values differ in nothing but the order of members. -/
def Same (a b : Json) : Prop :=
  a.sorted = b.sorted

/-! ## The sorted form -/

theorem sortedItems_eq_map (items : List Json) : sortedItems items = items.map sorted := by
  induction items with
  | nil => rfl
  | cons item rest ih => rw [sortedItems, ih, List.map_cons]

/-- Members are in the order of their keys once they are sorted. -/
theorem sorted_sortedMembers (members : List (String × Json)) :
    Table.Sorted (sortedMembers members) := by
  induction members with
  | nil => exact Table.sorted_nil
  | cons entry rest ih => exact ih.insert entry.1 entry.2.sorted

theorem get?_sortedMembers (key : String) (members : List (String × Json)) :
    Table.get? (sortedMembers members) key = (Table.get? members key).map sorted := by
  induction members with
  | nil => rfl
  | cons entry rest ih =>
    rw [sortedMembers, Table.get?_insert, Table.get?_cons, ih, apply_ite (Option.map sorted)]
    rfl

mutual

theorem sorted_sorted : ∀ a : Json, a.sorted.sorted = a.sorted
  | null => rfl
  | bool _ => rfl
  | number _ => rfl
  | text _ => rfl
  | list items => by
    rw [sorted, sorted, sortedItems_sortedItems items]
  | object members => by
    rw [sorted, sorted, sortedMembers_sortedMembers members]

theorem sortedItems_sortedItems : ∀ items : List Json,
    sortedItems (sortedItems items) = sortedItems items
  | [] => rfl
  | item :: rest => by
    rw [sortedItems, sortedItems, sorted_sorted item, sortedItems_sortedItems rest]

theorem sortedMembers_sortedMembers : ∀ members : List (String × Json),
    sortedMembers (sortedMembers members) = sortedMembers members
  | [] => rfl
  | (key, value) :: rest => by
    refine (sorted_sortedMembers _).ext (sorted_sortedMembers _) fun other => ?_
    rw [get?_sortedMembers, sortedMembers, Table.get?_insert]
    split
    · rw [Option.map_some, sorted_sorted value]
    · rw [← get?_sortedMembers, sortedMembers_sortedMembers rest]

end

theorem same_sorted (a : Json) : a.sorted.Same a :=
  sorted_sorted a

/-! ## Values that are the same -/

section

variable {j : Json}

theorem Same.eq_text {s : String} (h : j.Same (text s)) : j = text s := by
  cases j <;> first | exact h | cases h

theorem Same.eq_bool {b : Bool} (h : j.Same (bool b)) : j = bool b := by
  cases j <;> first | exact h | cases h

theorem Same.eq_number {n : Number} (h : j.Same (number n)) : j = number n := by
  cases j <;> first | exact h | cases h

theorem Same.exists_list {items : List Json} (h : j.Same (list items)) :
    ∃ items', j = list items' ∧ List.Forall₂ Same items' items := by
  cases j with
  | list items' =>
    refine ⟨items', rfl, ?_⟩
    have h : items'.map sorted = items.map sorted := by
      rw [← sortedItems_eq_map, ← sortedItems_eq_map]
      exact list.inj h
    rw [← List.forall₂_eq_eq_eq, List.forall₂_map_left_iff, List.forall₂_map_right_iff] at h
    exact h
  | null | bool _ | number _ | text _ | object _ => cases h

theorem Same.exists_object {members : List (String × Json)} (h : j.Same (object members)) :
    ∃ members', j = object members' ∧ ∀ key,
      (Table.get? members' key).map sorted = (Table.get? members key).map sorted := by
  cases j with
  | object members' =>
    refine ⟨members', rfl, fun key => ?_⟩
    rw [← get?_sortedMembers, ← get?_sortedMembers]
    exact congrArg (Table.get? · key) (object.inj h)
  | null | bool _ | number _ | text _ | list _ => cases h

end

end RazenLint.Json
