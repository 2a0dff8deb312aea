import RazenLint.Proofs.Json.Decode

/-!
# Ways into a value

A way leads from a value to one that it contains, by the keys of members and the positions of
items (`Json.at?`). Values that are the same hold the same at the end of every way (`Same.at?`),
so a decoder can be sent along a way (`asAt`) and still reads what was encoded (`reads_at`).
-/

namespace RazenLint.Json

variable {α : Type}

/-- A step into a value. -/
inductive Step where
  | member (key : String)
  | item (index : Nat)

/-- The value at the end of a way. -/
def at? : Json → List Step → Option Json
  | value, [] => some value
  | object members, .member key :: way => (Table.get? members key).bind (at? · way)
  | list items, .item index :: way => items[index]?.bind (at? · way)
  | _, _ :: _ => none

/-- A decoder for the value at the end of a way. -/
def asAt (way : List Step) (decode : Json → Decoded α) (value : Json) : Decoded α :=
  match value.at? way with
  | some found => decode found
  | none => value.notA "a value at the end of the way"

theorem Same.at? {j k found : Json} (h : j.Same k) : ∀ {way : List Step},
    k.at? way = some found → ∃ found' : Json, j.at? way = some found' ∧ found'.Same found := by
  intro way hfound
  induction way generalizing j k with
  | nil =>
    obtain rfl := Option.some.inj hfound
    exact ⟨j, rfl, h⟩
  | cons step way ih =>
    cases k with
    | object members =>
      obtain ⟨members', rfl, hmembers⟩ := h.exists_object
      cases step with
      | member key =>
        obtain ⟨value, hvalue, hfound⟩ := Option.bind_eq_some_iff.1 hfound
        have hkey := hmembers key
        rw [hvalue, Option.map_some, Option.map_eq_some_iff] at hkey
        obtain ⟨value', hvalue', hsame⟩ := hkey
        obtain ⟨found', hfound', hsame'⟩ := ih hsame hfound
        exact ⟨found', Option.bind_eq_some_iff.2 ⟨value', hvalue', hfound'⟩, hsame'⟩
      | item index => cases hfound
    | list items =>
      obtain ⟨items', rfl, hitems⟩ := h.exists_list
      cases step with
      | member key => cases hfound
      | item index =>
        obtain ⟨value, hvalue, hfound⟩ := Option.bind_eq_some_iff.1 hfound
        obtain ⟨hindex, rfl⟩ := List.getElem?_eq_some_iff.1 hvalue
        have hindex' : index < items'.length := hitems.length_eq ▸ hindex
        obtain ⟨found', hfound', hsame'⟩ := ih (hitems.get hindex' hindex) hfound
        exact ⟨found', Option.bind_eq_some_iff.2
          ⟨items'[index], List.getElem?_eq_getElem hindex', hfound'⟩, hsame'⟩
    | null | bool _ | number _ | text _ => cases step <;> cases hfound

/-- What stands at the end of a way is read along the way. -/
theorem reads_at {decode : Json → Decoded α} {encoded found : Json} {a : α} {way : List Step}
    (hfound : encoded.at? way = some found) (h : Reads decode found a) :
    Reads (asAt way decode) encoded a := by
  intro j hj
  obtain ⟨found', hfound', hsame⟩ := hj.at? hfound
  rw [asAt, hfound']
  exact h found' hsame

end RazenLint.Json
