import RazenLint.Json.Decode
import RazenLint.Proofs.Json.Sorted

/-!
# Decoders that read what was encoded

A decoder reads an encoded value (`Json.Reads`) when it gives the decoded one for every value
that is the same, in whatever order the members of its objects stand. The decoders of texts,
numbers, constants and lists read what they should, and a record reads its fields one by one :
`Record.Holds` ties a record to the members of an object (`Same.exists_asRecord`), and gives each
of its fields (`Record.Holds.field_eq_ok`, `Record.Holds.field_eq_none`).
-/

namespace RazenLint.Json

variable {α : Type}

/-- The member of an object under a key. -/
def member? : Json → String → Option Json
  | object members, key => members.lookup key
  | _, _ => none

@[simp] theorem ok_bind {β : Type} (a : α) (f : α → Decoded β) :
    ((.ok a : Decoded α) >>= f) = f a :=
  rfl

/-- The decoder gives the value for everything that is the same as its encoded form. -/
def Reads (decode : Json → Decoded α) (encoded : Json) (a : α) : Prop :=
  ∀ j : Json, j.Same encoded → decode j = .ok a

/-- Values with the same encoding are equal. -/
theorem Reads.eq_of_same {decode : Json → Decoded α} {encoded encoded' : Json} {a b : α}
    (ha : Reads decode encoded a) (hb : Reads decode encoded' b) (h : encoded.Same encoded') :
    a = b :=
  Except.ok.inj ((ha encoded rfl).symm.trans (hb encoded h))

theorem reads_text (s : String) : Reads asText (text s) s := by
  intro j h
  rw [h.eq_text, asText]

theorem reads_bool (b : Bool) : Reads asBool (bool b) b := by
  intro j h
  rw [h.eq_bool, asBool]

theorem reads_natBelow {bound n : Nat} (hn : n < bound) (name : String) :
    Reads (asNatBelow bound name) (ofNat n) n := by
  intro j h
  rw [h.eq_number, asNatBelow, if_pos ⟨by omega, by omega⟩, Int.toNat_natCast]

theorem reads_word32 {n : Nat} (hn : n < 2 ^ 32) : Reads asWord32 (ofNat n) n :=
  reads_natBelow hn "u32"

theorem reads_word64 {n : Nat} (hn : n < 2 ^ 64) : Reads asWord64 (ofNat n) n :=
  reads_natBelow hn "usize"

/-- A constant is read by its name, when no other has the name. -/
theorem reads_variant {all : List α} {name : α → String} {a : α} (hmem : a ∈ all)
    (hname : ∀ b ∈ all, name b = name a → b = a) :
    Reads (asVariant all name) (text (name a)) a := by
  intro j h
  have hfind : all.find? (name · = name a) = some a := by
    cases hfound : all.find? (name · = name a) with
    | none => exact absurd (decide_eq_true rfl) (List.find?_eq_none.1 hfound a hmem)
    | some b =>
      rw [hname b (List.mem_of_find?_eq_some hfound) (by simpa using List.find?_some hfound)]
  rw [h.eq_text]
  simp [asVariant, bind, Except.bind, hfind]

/-- A list is read item by item, each as what it encodes. -/
theorem reads_map {ι : Type} {decode : Json → Decoded α} {encode : ι → Json} {value : ι → α}
    {l : List ι} (h : ∀ a ∈ l, Reads decode (encode a) (value a)) :
    Reads (asList decode) (list (l.map encode)) (l.map value) := by
  intro j hj
  obtain ⟨items, rfl, hitems⟩ := hj.exists_list
  rw [asList]
  clear hj
  induction l generalizing items with
  | nil =>
    cases hitems
    rfl
  | cons a l ih =>
    cases hitems with
    | cons hfirst hrest =>
      rw [List.mapM_cons, h a List.mem_cons_self _ hfirst,
        ih (fun b hb => h b (List.mem_cons_of_mem a hb)) _ hrest]
      rfl

theorem reads_list {decode : Json → Decoded α} {encode : α → Json} {l : List α}
    (h : ∀ a ∈ l, Reads decode (encode a) a) : Reads (asList decode) (list (l.map encode)) l := by
  have hreads : Reads (asList decode) (list (l.map encode)) (l.map id) := reads_map h
  rwa [List.map_id] at hreads

/-- A value that is not null is read where it may be missing. -/
theorem Reads.optional {decode : Json → Decoded α} {encoded : Json} {a : α}
    (h : Reads decode encoded a) (hnull : ¬null.Same encoded) :
    Reads (asOptional decode) encoded (some a) := by
  intro j hj
  have hdecode := h j hj
  cases j with
  | null => exact absurd hj hnull
  | bool _ | number _ | text _ | list _ | object _ =>
    rw [asOptional, hdecode]
    · rfl
    · exact nofun

/-! ## Records -/

namespace Record

/-- A record that was read from an object has the fields that the given members hold. -/
structure Holds (record : Record) (type : RecordType) (members : List (String × Json)) :
    Prop where
  named : record.positional = false
  lookup : ∀ name ∈ type.fields,
    (record.fields.lookup name).map sorted = (members.lookup name).map sorted

section

variable {record : Record} {type : RecordType} {members : List (String × Json)}
  {decode : Json → Decoded α}

/-- A field that a member encodes. -/
theorem Holds.field_eq_ok (h : record.Holds type members) {encoded : Json} {a : α} (name : String)
    (hname : name ∈ type.fields) (hlookup : members.lookup name = some encoded)
    (hreads : Reads decode encoded a) : record.field name decode = some (.ok a) := by
  have hvalue := h.lookup name hname
  rw [hlookup, Option.map_some, Option.map_eq_some_iff] at hvalue
  obtain ⟨j, hj, hsame⟩ := hvalue
  rw [field, hj, Option.map_some, hreads j hsame]

/-- A field without a member. -/
theorem Holds.field_eq_none (h : record.Holds type members) (name : String)
    (hname : name ∈ type.fields) (hlookup : members.lookup name = none) :
    record.field name decode = none := by
  have hvalue := h.lookup name hname
  rw [hlookup, Option.map_none, Option.map_eq_none_iff] at hvalue
  rw [field, hvalue, Option.map_none]

/-- A field that may be missing, with a member that is never null when it is there. -/
theorem Holds.field_eq_map (h : record.Holds type members) {encode : α → Json} {value : Option α}
    (name : String) (hname : name ∈ type.fields) (hlookup : members.lookup name = value.map encode)
    (hreads : ∀ a, Reads decode (encode a) a) (hnull : ∀ a, ¬null.Same (encode a)) :
    record.field name (asOptional decode) = value.map fun a => .ok (some a) := by
  cases value with
  | none => exact h.field_eq_none name hname hlookup
  | some a => exact h.field_eq_ok name hname hlookup ((hreads a).optional (hnull a))

/-- No member is left over where the fields have names. -/
theorem finish_eq_ok (h : record.positional = false) : record.finish = .ok () := by
  rw [Record.finish, h]
  rfl

theorem Holds.finish (h : record.Holds type members) : record.finish = .ok () :=
  finish_eq_ok h.named

/-- A record without problems in its fields has no first one. -/
theorem firstProblem_eq_ok {problems : List (String × Option DecodeError)}
    (h : ∀ p ∈ problems, p.2 = none) : record.firstProblem problems = .ok () := by
  unfold firstProblem
  split
  · rename_i e hfound
    obtain ⟨⟨name, value⟩, -, hname⟩ := List.exists_of_findSome?_eq_some hfound
    obtain ⟨problem, hlookup, hproblem⟩ := Option.bind_eq_some_iff.1 hname
    obtain ⟨before, after, rfl, -⟩ := List.lookup_eq_some_iff.1 hlookup
    have hnone : problem = none := h (name, problem) (by simp)
    simp [hnone] at hproblem
  · rfl

@[simp] theorem required_some (name : String) (outcome : Decoded α) :
    record.required name (some outcome) = outcome :=
  rfl

end

@[simp] theorem defaulted_some (a : α) (outcome : Decoded α) :
    defaulted a (some outcome) = outcome :=
  rfl

@[simp] theorem defaulted_none (a : α) : defaulted a none = .ok a :=
  rfl

@[simp] theorem defaulted_map (value : Option α) :
    defaulted none (value.map fun a => .ok (some a)) = .ok value := by
  cases value <;> rfl

end Record

@[simp] theorem problemOf_ok (name : String) (a : α) :
    problemOf name (some (.ok a : Decoded α)) = (name, none) :=
  rfl

@[simp] theorem problemOf_none (name : String) :
    problemOf name (none : Option (Decoded α)) = (name, none) :=
  rfl

@[simp] theorem problemOf_map (name : String) (value : Option α) :
    problemOf name (value.map fun a => (.ok (some a) : Decoded (Option α))) = (name, none) := by
  cases value <;> rfl

/-- The fields of a record that is given as an object are the members of the object. -/
theorem exists_asRecord_object (type : RecordType) (members : List (String × Json)) :
    ∃ record, (object members).asRecord type = .ok record ∧ record.positional = false ∧
      ∀ name ∈ type.fields, record.fields.lookup name = members.lookup name :=
  ⟨_, rfl, rfl, fun _ hname =>
    Table.get?_filter type.fields.contains members (List.contains_iff_mem.2 hname)⟩

/-- A value that is the same as an object gives a record with the fields of the object. -/
theorem Same.exists_asRecord {j : Json} {members : List (String × Json)}
    (h : j.Same (object members)) (type : RecordType) :
    ∃ record, j.asRecord type = .ok record ∧ record.Holds type members := by
  obtain ⟨members', rfl, hmembers⟩ := h.exists_object
  obtain ⟨record, hrecord, hnamed, hfields⟩ := exists_asRecord_object type members'
  refine ⟨record, hrecord, hnamed, fun name hname => ?_⟩
  rw [hfields name hname]
  exact hmembers name

end RazenLint.Json
