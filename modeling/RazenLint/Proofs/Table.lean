import Mathlib.Data.Finset.Card
import Mathlib.Data.List.Sort
import Mathlib.Data.String.Basic
import RazenLint.Table

/-!
# Looking up in tables

What is found under a key after an entry was put in, replaced or taken out (`get?_insert`,
`get?_replace`, `get?_erase`). Tables that are built from the empty one are in the order of
their keys (`Sorted`), so they have as many entries as keys, and two of them are equal when they
hold the same under every key (`Sorted.ext`). A table of a list of entries holds the last
entry of each key (`get?_ofEntries_filterMap_iff`).
-/

namespace RazenLint.Table

variable {α : Type}

@[simp] theorem get?_nil (key : String) : get? ([] : Table α) key = none :=
  rfl

theorem get?_cons (key : String) (value : α) (rest : Table α) (other : String) :
    get? ((key, value) :: rest) other = if other = key then some value else rest.get? other := by
  rw [get?, List.lookup_cons]
  by_cases h : other = key
  · simp [h]
  · rw [beq_eq_false_iff_ne.2 h, if_neg h]
    rfl

theorem get?_insert (key : String) (value : α) (table : Table α) (other : String) :
    (table.insert key value).get? other =
      if other = key then some value else table.get? other := by
  induction table with
  | nil => rw [insert, get?_cons]
  | cons entry rest ih =>
    obtain ⟨k, v⟩ := entry
    rw [insert]
    split
    · rw [get?_cons]
    · rename_i hlt
      split
      · rename_i heq
        subst heq
        rw [get?_cons, get?_cons]
        split <;> rfl
      · rename_i hne
        rw [get?_cons, get?_cons, ih]
        split
        · rename_i hk
          rw [if_neg fun hkey => hne (hkey.symm.trans hk)]
        · rfl

theorem get?_replace {key : String} {old : α} {table : Table α} (h : table.get? key = some old)
    (value : α) (other : String) :
    (table.replace key value).get? other =
      if other = key then some value else table.get? other := by
  induction table with
  | nil => cases h
  | cons entry rest ih =>
    obtain ⟨k, v⟩ := entry
    rw [replace]
    by_cases hkey : key = k
    · subst hkey
      rw [if_pos rfl, get?_cons, get?_cons]
      split <;> rfl
    · rw [get?_cons, if_neg hkey] at h
      rw [if_neg hkey, get?_cons, get?_cons, ih h]
      by_cases hk : other = k
      · rw [if_pos hk, if_neg fun hother => hkey (hother.symm.trans hk), if_pos hk]
      · rw [if_neg hk, if_neg hk]

theorem get?_erase (key : String) (table : Table α) (other : String) :
    (table.erase key).get? other = if other = key then none else table.get? other := by
  induction table with
  | nil => simp [erase]
  | cons entry rest ih =>
    obtain ⟨k, v⟩ := entry
    rw [erase] at ih ⊢
    by_cases hk : k = key
    · subst hk
      rw [List.filter_cons_of_neg (by simp), ih, get?_cons]
      split <;> rfl
    · rw [List.filter_cons_of_pos (by simpa using hk), get?_cons, get?_cons, ih]
      split
      · rename_i hother
        rw [if_neg (hother.trans_ne hk)]
      · rfl

/-- A key that is kept holds what it held. -/
theorem get?_filter (keep : String → Bool) (table : Table α) {key : String}
    (hkey : keep key = true) : get? (table.filter (keep ·.1)) key = table.get? key := by
  induction table with
  | nil => rfl
  | cons entry rest ih =>
    obtain ⟨k, v⟩ := entry
    rw [List.filter_cons, get?_cons]
    split
    · rw [get?_cons, ih]
    · rename_i hk
      rw [ih, if_neg]
      rintro rfl
      exact hk hkey

theorem mem_keys_iff {table : Table α} {key : String} :
    key ∈ table.keys ↔ (table.get? key).isSome := by
  induction table with
  | nil => simp [keys]
  | cons entry rest ih =>
    obtain ⟨k, v⟩ := entry
    rw [keys, List.map_cons, List.mem_cons, ← keys, ih, get?_cons]
    split <;> simp_all

/-- What a table holds after each of its values was replaced. -/
theorem get?_map {β : Type} (f : String → α → β) (table : Table α) (key : String) :
    get? (table.map fun (k, v) => (k, f k v)) key = (table.get? key).map (f key) := by
  induction table with
  | nil => rfl
  | cons entry rest ih =>
    obtain ⟨k, v⟩ := entry
    rw [List.map_cons, get?_cons, get?_cons, ih]
    split
    · rename_i hkey
      rw [hkey, Option.map_some]
    · rfl

theorem keys_map {β : Type} (f : String → α → β) (table : Table α) :
    keys (table.map fun (k, v) => (k, f k v)) = table.keys := by
  rw [keys, keys, List.map_map]
  rfl

/-- A table without a repeated key holds exactly its entries. -/
theorem get?_eq_some_iff_of_nodup {table : Table α} (h : table.keys.Nodup) {key : String}
    {value : α} : table.get? key = some value ↔ (key, value) ∈ table := by
  induction table with
  | nil => simp
  | cons entry rest ih =>
    obtain ⟨k, v⟩ := entry
    obtain ⟨hk, hrest⟩ := List.nodup_cons.1 h
    rw [get?_cons, List.mem_cons, Prod.mk.injEq]
    split
    · rename_i hkey
      subst hkey
      have hfirst : (key, value) ∉ rest := fun hmem =>
        hk (List.mem_map_of_mem (f := (·.1)) hmem)
      simp only [Option.some.injEq, hfirst, or_false, true_and]
      exact eq_comm
    · rename_i hkey
      rw [ih hrest]
      simp [hkey]

/-! ## Tables in the order of their keys -/

/-- The keys of a table are in ascending order, and no key is there twice. -/
def Sorted (table : Table α) : Prop :=
  table.keys.Pairwise (· < ·)

theorem sorted_nil : Sorted ([] : Table α) :=
  List.Pairwise.nil

theorem mem_keys_insert {key other : String} {value : α} {table : Table α} :
    other ∈ (table.insert key value).keys ↔ other = key ∨ other ∈ table.keys := by
  rw [mem_keys_iff, mem_keys_iff, get?_insert]
  split <;> simp_all

theorem Sorted.insert {table : Table α} (h : table.Sorted) (key : String) (value : α) :
    (table.insert key value).Sorted := by
  induction table with
  | nil => exact List.pairwise_singleton _ _
  | cons entry rest ih =>
    obtain ⟨k, v⟩ := entry
    obtain ⟨hk, hrest⟩ := List.pairwise_cons.1 h
    rw [Table.insert]
    split
    · rename_i hlt
      refine List.pairwise_cons.2 ⟨fun other hother => ?_, h⟩
      rcases List.mem_cons.1 hother with rfl | hother
      · exact hlt
      · exact hlt.trans (hk other hother)
    · rename_i hlt
      split
      · rename_i heq
        subst heq
        exact h
      · rename_i hne
        refine List.pairwise_cons.2 ⟨fun other hother => ?_, ih hrest⟩
        rcases mem_keys_insert.1 hother with rfl | hother
        · exact lt_of_le_of_ne (not_lt.1 hlt) (Ne.symm hne)
        · exact hk other hother

theorem Sorted.erase {table : Table α} (h : table.Sorted) (key : String) :
    (table.erase key).Sorted :=
  h.sublist (List.filter_sublist.map _)

theorem Sorted.map {β : Type} {table : Table α} (h : table.Sorted) (f : String → α → β) :
    Sorted (table.map fun (k, v) => (k, f k v)) := by
  rw [Sorted, keys_map]
  exact h

/-- A sorted table holds exactly its entries. -/
theorem Sorted.get?_eq_some_iff {table : Table α} (h : table.Sorted) {key : String} {value : α} :
    table.get? key = some value ↔ (key, value) ∈ table :=
  get?_eq_some_iff_of_nodup (h.imp ne_of_lt)

/-- Sorted tables that hold the same under every key are equal. -/
theorem Sorted.ext {table table' : Table α} (h : table.Sorted) (h' : table'.Sorted)
    (hget : ∀ key, table.get? key = table'.get? key) : table = table' := by
  have hpairs : ∀ {table : Table α}, table.Sorted →
      List.Pairwise (fun p q => p.1 < q.1) table := fun h => List.pairwise_map.1 h
  have : Std.Irrefl fun p q : String × α => p.1 < q.1 := ⟨fun p => lt_irrefl p.1⟩
  have : Std.Antisymm fun p q : String × α => p.1 < q.1 :=
    ⟨fun p q hpq hqp => absurd hqp (lt_asymm hpq)⟩
  refine (hpairs h).eq_of_mem_iff (hpairs h') fun p => ?_
  rw [← h.get?_eq_some_iff, ← h'.get?_eq_some_iff, hget]

/-- A sorted table has one entry for each of its keys. -/
theorem Sorted.card_keys {table : Table α} (h : table.Sorted) :
    table.keys.toFinset.card = table.length := by
  have hnodup : table.keys.Nodup := h.imp ne_of_lt
  rw [List.toFinset_card_of_nodup hnodup, keys, List.length_map]

/-! ## Tables of lists of entries -/

theorem ofEntries_concat (entries : List (String × α)) (entry : String × α) :
    ofEntries (entries ++ [entry]) = (ofEntries entries).insert entry.1 entry.2 := by
  rw [ofEntries, List.foldl_append]
  rfl

theorem sorted_ofEntries (entries : List (String × α)) : (ofEntries entries).Sorted := by
  induction entries using List.reverseRecOn with
  | nil => exact sorted_nil
  | append_singleton entries entry ih =>
    rw [ofEntries_concat]
    exact ih.insert entry.1 entry.2

theorem mem_keys_ofEntries {entries : List (String × α)} {key : String} :
    key ∈ (ofEntries entries).keys ↔ key ∈ entries.map (·.1) := by
  induction entries using List.reverseRecOn with
  | nil => rfl
  | append_singleton entries entry ih =>
    rw [ofEntries_concat, mem_keys_insert, ih, List.map_append, List.mem_append, or_comm]
    exact or_congr_right List.mem_singleton.symm

/-- Of two lists of entries the second one counts for the keys that it has. -/
theorem get?_ofEntries_append (entries later : List (String × α)) (key : String) :
    (ofEntries (entries ++ later)).get? key =
      ((ofEntries later).get? key).or ((ofEntries entries).get? key) := by
  induction later using List.reverseRecOn with
  | nil => rw [List.append_nil]; rfl
  | append_singleton later entry ih =>
    rw [← List.append_assoc, ofEntries_concat, ofEntries_concat, get?_insert, get?_insert, ih]
    split <;> rfl

theorem get?_ofEntries_map {β : Type} (f : α → β) (entries : List (String × α)) (key : String) :
    (ofEntries (entries.map fun (k, v) => (k, f v))).get? key =
      ((ofEntries entries).get? key).map f := by
  induction entries using List.reverseRecOn with
  | nil => rfl
  | append_singleton entries entry ih =>
    rw [List.map_append, List.map_singleton, ofEntries_concat, ofEntries_concat, get?_insert,
      get?_insert, ih, apply_ite (Option.map f)]
    rfl

/-- Entries with different keys are found where they stand. -/
theorem get?_ofEntries_of_nodup {entries : List (String × α)} (h : (entries.map (·.1)).Nodup)
    (key : String) : (ofEntries entries).get? key = get? entries key := by
  induction entries with
  | nil => rfl
  | cons entry rest ih =>
    obtain ⟨k, v⟩ := entry
    rw [List.map_cons, List.nodup_cons] at h
    rw [← List.singleton_append, get?_ofEntries_append, ih h.2, List.singleton_append, get?_cons,
      show ofEntries [(k, v)] = [(k, v)] from rfl, get?_cons, get?_nil]
    split
    · rename_i hkey
      have hrest : get? rest key = none := by
        rw [← Option.not_isSome_iff_eq_none, ← mem_keys_iff, hkey]
        exact h.1
      rw [hrest, Option.none_or]
    · rw [Option.or_none]

/-- The last item of a list is the item of a split, or it stands behind it. -/
theorem concat_eq_append_cons_iff {ε : Type} {items before after : List ε} {last item : ε} :
    items ++ [last] = before ++ item :: after ↔
      (items = before ∧ last = item ∧ after = []) ∨
        ∃ rest, after = rest ++ [last] ∧ items = before ++ item :: rest := by
  constructor
  · intro h
    rcases List.eq_nil_or_concat' after with rfl | ⟨rest, other, rfl⟩
    · obtain ⟨hitems, hlast⟩ := List.append_inj' h rfl
      exact Or.inl ⟨hitems, List.singleton_inj.1 hlast, rfl⟩
    · rw [← List.cons_append, ← List.append_assoc] at h
      obtain ⟨hitems, hlast⟩ := List.append_inj' h rfl
      exact Or.inr ⟨rest, by rw [hlast], hitems⟩
  · rintro (⟨rfl, rfl, rfl⟩ | ⟨rest, rfl, rfl⟩) <;> simp

/-- Under each key a table of entries holds what the last entry with the key says. -/
theorem get?_ofEntries_iff {entries : List (String × α)} {key : String} {value : α} :
    (ofEntries entries).get? key = some value ↔
      ∃ before after, entries = before ++ (key, value) :: after ∧ key ∉ after.map (·.1) := by
  induction entries using List.reverseRecOn with
  | nil => simp [ofEntries]
  | append_singleton entries entry ih =>
    rw [ofEntries_concat, get?_insert]
    simp only [concat_eq_append_cons_iff]
    split
    · rename_i hkey
      constructor
      · intro hvalue
        exact ⟨entries, [], Or.inl ⟨rfl, Prod.ext hkey.symm (Option.some.inj hvalue), rfl⟩,
          List.not_mem_nil⟩
      · rintro ⟨before, after, ⟨-, rfl, -⟩ | ⟨rest, rfl, -⟩, hafter⟩
        · rfl
        · exact absurd (by simp [hkey]) hafter
    · rename_i hkey
      rw [ih]
      constructor
      · rintro ⟨before, rest, rfl, hrest⟩
        exact ⟨before, rest ++ [entry], Or.inr ⟨rest, rfl, rfl⟩, by simpa [hkey] using hrest⟩
      · rintro ⟨before, after, ⟨-, rfl, -⟩ | ⟨rest, rfl, rfl⟩, hafter⟩
        · exact absurd rfl hkey
        · exact ⟨before, rest, rfl, fun hmem => hafter (by simp [hmem])⟩

/-- The same for entries that are told by the items of a list. -/
theorem get?_ofEntries_filterMap_iff {ε : Type} {told? : ε → Option (String × α)} {items : List ε}
    {key : String} {value : α} :
    (ofEntries (items.filterMap told?)).get? key = some value ↔
      ∃ before item after, items = before ++ item :: after ∧ told? item = some (key, value) ∧
        ∀ item ∈ after, ∀ other, told? item ≠ some (key, other) := by
  have hlast : ∀ after : List ε, key ∉ (after.filterMap told?).map (·.1) ↔
      ∀ item ∈ after, ∀ other, told? item ≠ some (key, other) := by
    intro after
    simp only [List.mem_map, List.mem_filterMap, not_exists, not_and]
    constructor
    · exact fun h item hitem other hentry => h (key, other) ⟨item, hitem, hentry⟩ rfl
    · rintro h ⟨k, other⟩ ⟨item, hitem, hentry⟩ rfl
      exact h item hitem other hentry
  rw [get?_ofEntries_iff]
  constructor
  · rintro ⟨before, after, hsplit, hafter⟩
    obtain ⟨front, back, rfl, -, hback⟩ := List.filterMap_eq_append_iff.1 hsplit
    obtain ⟨skipped, item, rest, rfl, hskipped, hitem, rfl⟩ := List.filterMap_eq_cons_iff.1 hback
    exact ⟨front ++ skipped, item, rest, by simp, hitem, (hlast rest).1 hafter⟩
  · rintro ⟨before, item, after, rfl, hitem, hafter⟩
    refine ⟨before.filterMap told?, after.filterMap told?, ?_, (hlast after).2 hafter⟩
    rw [List.filterMap_append, List.filterMap_cons_some hitem]

end RazenLint.Table
