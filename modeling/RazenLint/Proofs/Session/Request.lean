import Mathlib.Data.List.Nodup
import Mathlib.Data.List.TakeWhile
import RazenLint.Session.Request

/-!
# What a request is read from

A line that is read as a request is an object or a list (`Request.Written`). In an object
the fields of the request are the members of their names, each given once, and an id or
parameters that are not given are null. In a list the fields are the items in turn.

The members of an object are related to its text by `Members`, which passes over those
that are no fields of a request. `Taken` says what they make of the fields read before.
-/

namespace RazenLint.Request

open Json

/-! ## Steps through a text -/

section Steps

variable {ε α β : Type} {cs : List Char}

theorem bind_eq_ok_iff {scan : StateT (List Char) (Except ε) α}
    {next : α → StateT (List Char) (Except ε) β} {result : β × List Char} :
    (scan >>= next) cs = .ok result ↔
      ∃ found rest, scan cs = .ok (found, rest) ∧ next found rest = .ok result := by
  show (scan cs >>= fun pair => next pair.1 pair.2) = .ok result ↔ _
  cases scan cs with
  | error reason => simp [bind, Except.bind]
  | ok pair =>
    obtain ⟨found, rest⟩ := pair
    simp [bind, Except.bind]

theorem pure_eq_ok_iff {found : α} {result : α × List Char} :
    (pure found : StateT (List Char) (Except ε) α) cs = .ok result ↔ (found, cs) = result := by
  show Except.ok (found, cs) = .ok result ↔ _
  rw [Except.ok.injEq]

theorem json_eq_ok_iff {scan : Scan α} {result : α × List Char} :
    json scan cs = .ok result ↔ scan cs = .ok result := by
  unfold json
  cases scan cs <;> simp

theorem throw_ne_ok {reason : ε} {result : α × List Char} :
    (throw reason : StateT (List Char) (Except ε) α) cs ≠ .ok result := by
  simp [throw, throwThe, MonadExceptOf.throw, StateT.lift, bind, Except.bind]

theorem illTyped_ne_ok {reason : DecodeError} {result : α × List Char} :
    (illTyped reason : RequestScan α) cs ≠ .ok result :=
  throw_ne_ok

theorem unexpected_ne_ok {first : Char} {expected : String} {result : α × List Char} :
    (unexpected first expected : RequestScan α) cs ≠ .ok result := by
  unfold unexpected
  split_ifs
  · exact illTyped_ne_ok
  · exact illTyped_ne_ok
  · intro h
    obtain ⟨_, _, -, h⟩ := bind_eq_ok_iff.1 h
    exact illTyped_ne_ok h

theorem peekPastSpace_eq_ok_iff {first : Option Char} {past : List Char} :
    Scan.peekPastSpace cs = .ok (first, past) ↔
      past.head? = first ∧ cs.dropWhile Scan.isSpace = past := by
  show Except.ok ((cs.dropWhile Scan.isSpace).head?, cs.dropWhile Scan.isSpace) = _ ↔ _
  constructor
  · intro h
    cases h
    exact ⟨rfl, rfl⟩
  · rintro ⟨rfl, rfl⟩
    rfl

end Steps

/-! ## How a request is written -/

/-- The key of the next member of an object up to where its value begins, or nothing past
the end of the object. -/
def memberKey (first : Bool) : Scan (Option String) := do
  if ← Scan.objectGoesOn first then
    let key ← Scan.string
    Scan.colon
    return some key
  else return none

/-- The members of an object that are fields of a request, with their values. The other
members are passed over. -/
inductive Members : Bool → List Char → List (String × Json) → List Char → Prop
  | done {first : Bool} {cs rest : List Char} (hend : memberKey first cs = .ok (none, rest)) :
    Members first cs [] rest
  | field {first : Bool} {cs value rest final : List Char} {key : String} {found : Json}
    {members : List (String × Json)} (hkey : memberKey first cs = .ok (some key, value))
    (hfield : key ∈ recordType.fields)
    (hvalue : Scan.readValue innerLevels value = .ok (found, rest))
    (hmembers : Members false rest members final) :
    Members first cs ((key, found) :: members) final
  | other {first : Bool} {cs value rest final : List Char} {key : String}
    {members : List (String × Json)} (hkey : memberKey first cs = .ok (some key, value))
    (hother : key ∉ recordType.fields) (hvalue : Scan.skipValue value = .ok ((), rest))
    (hmembers : Members false rest members final) : Members first cs members final

/-- The items of a list. -/
inductive Items : Bool → List Char → List Json → List Char → Prop
  | done {first : Bool} {cs rest : List Char}
    (hend : Scan.listGoesOn first cs = .ok (false, rest)) : Items first cs [] rest
  | item {first : Bool} {cs value rest final : List Char} {found : Json} {items : List Json}
    (hitem : Scan.listGoesOn first cs = .ok (true, value))
    (hvalue : Scan.readValue innerLevels value = .ok (found, rest))
    (hitems : Items false rest items final) : Items first cs (found :: items) final

/-- The text of a request, which is an object or a list and nothing after it. -/
inductive Written (line : List Char) : Request → Prop
  | object {cs rest : List Char} {members : List (String × Json)} {method : String}
    (hopen : line.dropWhile Scan.isSpace = '\x7b' :: cs) (hmembers : Members true cs members rest)
    (hend : ∀ c ∈ rest, Scan.isSpace c) (hkeys : (members.map Prod.fst).Nodup)
    (hmethod : members.lookup "method" = some (.text method)) :
    Written line
      ⟨(members.lookup "id").getD .null, method, (members.lookup "params").getD .null⟩
  | list {cs rest : List Char} {id : Json} {method : String} {params : List Json}
    (hopen : line.dropWhile Scan.isSpace = '[' :: cs)
    (hitems : Items true cs (id :: .text method :: params) rest)
    (hend : ∀ c ∈ rest, Scan.isSpace c) (hparams : params.length ≤ 1) :
    Written line ⟨id, method, params.head?.getD .null⟩

/-! ## Objects -/

/-- A method is a value, and a text. -/
theorem readValue_of_methodName {cs rest : List Char} {method : String}
    (h : methodName cs = .ok (method, rest)) :
    Scan.readValue innerLevels cs = .ok (.text method, rest) := by
  obtain ⟨first, past, hpeek, h⟩ := bind_eq_ok_iff.1 h
  rw [json_eq_ok_iff] at hpeek
  refine bind_eq_ok_iff.2 ⟨cs, cs, rfl, ?_⟩
  rw [Scan.value]
  refine bind_eq_ok_iff.2 ⟨first, past, hpeek, ?_⟩
  split at h
  · exact absurd h throw_ne_ok
  · obtain ⟨_, inside, hnext, h⟩ := bind_eq_ok_iff.1 (json_eq_ok_iff.1 h)
    show Scan.scalar '"' past = _
    rw [Scan.scalar, if_neg (by decide), if_neg (by decide), if_neg (by decide),
      if_neg (by decide), if_neg (by decide), if_pos rfl]
    exact bind_eq_ok_iff.2 ⟨_, inside, hnext, bind_eq_ok_iff.2 ⟨_, rest, h, rfl⟩⟩
  · exact absurd h unexpected_ne_ok

namespace Fields

/-- The value of a field, if it was given. -/
def value? (fields : Fields) (key : String) : Option Json :=
  if key = "id" then fields.id
  else if key = "method" then fields.method.map .text
  else if key = "params" then fields.params
  else none

theorem value?_setId (fields : Fields) (id : Json) (key : String) :
    value? { fields with id := some id } key =
      if key = "id" then some id else fields.value? key := by
  by_cases h : key = "id"
  · rw [value?, if_pos h, if_pos h]
  · simp only [value?, if_neg h]

theorem value?_setMethod (fields : Fields) (method : String) (key : String) :
    value? { fields with method := some method } key =
      if key = "method" then some (.text method) else fields.value? key := by
  by_cases h : key = "method"
  · subst h
    rfl
  · simp only [value?, if_neg h]

theorem value?_setParams (fields : Fields) (params : Json) (key : String) :
    value? { fields with params := some params } key =
      if key = "params" then some params else fields.value? key := by
  by_cases h : key = "params"
  · subst h
    rfl
  · simp only [value?, if_neg h]

/-- What members make of the fields that were read before them. -/
structure Taken (fields : Fields) (members : List (String × Json)) (final : Fields) : Prop where
  nodup : (members.map Prod.fst).Nodup
  unset : ∀ key ∈ members.map Prod.fst, fields.value? key = none
  values : ∀ key, final.value? key = (fields.value? key).or (members.lookup key)

theorem taken_nil (fields : Fields) : Taken fields [] fields :=
  ⟨List.nodup_nil, by simp, by simp⟩

/-- A field is given before the members that follow. -/
theorem Taken.cons {fields next final : Fields} {key : String} {found : Json}
    {members : List (String × Json)} (h : Taken next members final)
    (hnone : fields.value? key = none)
    (hset : ∀ other, next.value? other = if other = key then some found else fields.value? other) :
    Taken fields ((key, found) :: members) final := by
  have hnext : next.value? key = some found := by rw [hset, if_pos rfl]
  have hother : ∀ other ∈ members.map Prod.fst, other ≠ key := by
    rintro other hmem rfl
    simp [h.unset other hmem] at hnext
  refine ⟨?_, ?_, fun other => ?_⟩
  · rw [List.map_cons, List.nodup_cons]
    exact ⟨fun hmem => hother key hmem rfl, h.nodup⟩
  · rw [List.map_cons]
    intro other hmem
    rcases List.mem_cons.1 hmem with rfl | hmem
    · exact hnone
    · have hunset := h.unset other hmem
      rwa [hset, if_neg (hother other hmem)] at hunset
  · rw [h.values, hset, List.lookup_cons]
    split_ifs with heq
    · subst heq
      simp [hnone]
    · rw [beq_false_of_ne heq]

end Fields

theorem memberKey_eq_some {first : Bool} {cs opened named value : List Char} {key : String}
    (hopened : Scan.objectGoesOn first cs = .ok (true, opened))
    (hkey : Scan.string opened = .ok (key, named)) (hcolon : Scan.colon named = .ok ((), value)) :
    memberKey first cs = .ok (some key, value) := by
  refine bind_eq_ok_iff.2 ⟨true, opened, hopened, ?_⟩
  rw [if_pos rfl]
  exact bind_eq_ok_iff.2 ⟨key, named, hkey, bind_eq_ok_iff.2 ⟨(), value, hcolon, rfl⟩⟩

/-- A member that is a field of a request, and the members after it. A field that was given
before is not read again. -/
theorem exists_members_of_field {α β : Type} {given : Option β} {reason : DecodeError}
    {read : RequestScan α} {toJson : α → Json} {set : α → Fields} {steps : Nat} {first : Bool}
    {fields final : Fields} {cs opened named rest : List Char} {key : String}
    (hopened : Scan.objectGoesOn first cs = .ok (true, opened))
    (hkey : Scan.string opened = .ok (key, named)) (hfield : key ∈ recordType.fields)
    (hread : ∀ {value next found}, read value = .ok (found, next) →
      Scan.readValue innerLevels value = .ok (toJson found, next))
    (hgiven : given = none → fields.value? key = none)
    (hset : ∀ found other, (set found).value? other =
      if other = key then some (toJson found) else fields.value? other)
    (hlater : ∀ {found next}, moreFields steps false (set found) next = .ok (final, rest) →
      ∃ members, Members false next members rest ∧ (set found).Taken members final)
    (h : (do
      if given.isSome then illTyped reason
      json Scan.colon
      moreFields steps false (set (← read)) : RequestScan Fields) named = .ok (final, rest)) :
    ∃ members, Members first cs members rest ∧ fields.Taken members final := by
  cases given with
  | some found =>
    obtain ⟨_, _, h, -⟩ := bind_eq_ok_iff.1 h
    exact absurd h illTyped_ne_ok
  | none =>
    obtain ⟨_, value, hcolon, h⟩ := bind_eq_ok_iff.1 h
    obtain ⟨found, next, hvalue, h⟩ := bind_eq_ok_iff.1 h
    obtain ⟨members, hmembers, htaken⟩ := hlater h
    exact ⟨_, .field (memberKey_eq_some hopened hkey (json_eq_ok_iff.1 hcolon)) hfield
      (hread hvalue) hmembers, htaken.cons (hgiven rfl) (hset found)⟩

/-- Reading the fields that are still to come. -/
theorem exists_members {steps : Nat} {first : Bool} {fields final : Fields} {cs rest : List Char}
    (h : moreFields steps first fields cs = .ok (final, rest)) :
    ∃ members, Members first cs members rest ∧ fields.Taken members final := by
  induction steps generalizing first fields cs with
  | zero => exact absurd h throw_ne_ok
  | succ steps ih =>
    obtain ⟨goesOn, opened, hopened, h⟩ := bind_eq_ok_iff.1 h
    rw [json_eq_ok_iff] at hopened
    cases goesOn with
    | false =>
      obtain ⟨rfl, rfl⟩ := Prod.mk.inj (pure_eq_ok_iff.1 h)
      exact ⟨[], .done (bind_eq_ok_iff.2 ⟨false, opened, hopened, rfl⟩), fields.taken_nil⟩
    | true =>
      obtain ⟨key, named, hkey, h⟩ := bind_eq_ok_iff.1 h
      rw [json_eq_ok_iff] at hkey
      by_cases hid : key = "id"
      · rw [if_pos hid] at h
        subst hid
        exact exists_members_of_field hopened hkey (by decide) json_eq_ok_iff.1 (fun hnone => hnone)
          fields.value?_setId ih h
      rw [if_neg hid] at h
      by_cases hmethod : key = "method"
      · rw [if_pos hmethod] at h
        subst hmethod
        exact exists_members_of_field hopened hkey (by decide) readValue_of_methodName
          (fun hnone => by rw [Fields.value?, if_neg (by decide), if_pos rfl, hnone]; rfl)
          fields.value?_setMethod ih h
      rw [if_neg hmethod] at h
      by_cases hparams : key = "params"
      · rw [if_pos hparams] at h
        subst hparams
        exact exists_members_of_field hopened hkey (by decide) json_eq_ok_iff.1 (fun hnone => hnone)
          fields.value?_setParams ih h
      rw [if_neg hparams] at h
      obtain ⟨_, value, hcolon, h⟩ := bind_eq_ok_iff.1 h
      obtain ⟨_, next, hvalue, h⟩ := bind_eq_ok_iff.1 h
      rw [json_eq_ok_iff] at hcolon hvalue
      obtain ⟨members, hmembers, htaken⟩ := ih h
      refine ⟨members, .other (memberKey_eq_some hopened hkey hcolon) ?_ hvalue hmembers, htaken⟩
      simp [recordType, hid, hmethod, hparams]

theorem exists_members_of_ofObject {cs rest : List Char} {request : Request}
    (h : ofObject cs = .ok (request, rest)) : ∃ members method, Members true cs members rest ∧
      (members.map Prod.fst).Nodup ∧ members.lookup "method" = some (.text method) ∧ request =
        ⟨(members.lookup "id").getD .null, method, (members.lookup "params").getD .null⟩ := by
  obtain ⟨_, _, hget, h⟩ := bind_eq_ok_iff.1 h
  cases hget
  obtain ⟨fields, _, hfields, h⟩ := bind_eq_ok_iff.1 h
  obtain ⟨members, hmembers, htaken⟩ := exists_members hfields
  have hvalues : ∀ key, fields.value? key = members.lookup key := fun key => by
    rw [htaken.values]
    simp [Fields.value?]
  cases hmethod : fields.method with
  | none =>
    rw [hmethod] at h
    exact absurd h illTyped_ne_ok
  | some method =>
    rw [hmethod] at h
    obtain ⟨rfl, rfl⟩ := Prod.mk.inj (pure_eq_ok_iff.1 h)
    refine ⟨members, method, hmembers, htaken.nodup, ?_, ?_⟩
    · rw [← hvalues]
      simp [Fields.value?, hmethod]
    · rw [← hvalues, ← hvalues]
      rfl

/-! ## Lists -/

theorem listGoesOn_of_endOfList {cs rest : List Char} (h : ofList.endOfList cs = .ok ((), rest)) :
    Scan.listGoesOn false cs = .ok (false, rest) := by
  obtain ⟨first, past, hpeek, h⟩ := bind_eq_ok_iff.1 h
  refine bind_eq_ok_iff.2 ⟨first, past, hpeek, ?_⟩
  split at h
  · exact absurd h throw_ne_ok
  · exact bind_eq_ok_iff.2 ⟨(), rest, h, rfl⟩
  · obtain ⟨_, _, -, h⟩ := bind_eq_ok_iff.1 h
    obtain ⟨_, _, -, h⟩ := bind_eq_ok_iff.1 h
    split at h
    · exact absurd h throw_ne_ok
    · exact absurd h throw_ne_ok
  · exact absurd h throw_ne_ok

theorem exists_items_of_ofList {cs rest : List Char} {request : Request}
    (h : ofList cs = .ok (request, rest)) : ∃ params,
      Items true cs (request.id :: .text request.method :: params) rest ∧ params.length ≤ 1 ∧
        request.params = params.head?.getD .null := by
  obtain ⟨goesOn, value, hfirst, h⟩ := bind_eq_ok_iff.1 h
  rw [json_eq_ok_iff] at hfirst
  cases goesOn with
  | false => exact absurd h illTyped_ne_ok
  | true =>
    obtain ⟨id, afterId, hid, h⟩ := bind_eq_ok_iff.1 h
    obtain ⟨goesOn, value, hsecond, h⟩ := bind_eq_ok_iff.1 h
    rw [json_eq_ok_iff] at hid hsecond
    cases goesOn with
    | false => exact absurd h illTyped_ne_ok
    | true =>
      obtain ⟨method, afterMethod, hmethod, h⟩ := bind_eq_ok_iff.1 h
      obtain ⟨goesOn, value, hthird, h⟩ := bind_eq_ok_iff.1 h
      rw [json_eq_ok_iff] at hthird
      have hmethod := readValue_of_methodName hmethod
      cases goesOn with
      | false =>
        obtain ⟨rfl, rfl⟩ := Prod.mk.inj (pure_eq_ok_iff.1 h)
        exact ⟨[], .item hfirst hid (.item hsecond hmethod (.done hthird)), by simp, rfl⟩
      | true =>
        obtain ⟨params, afterParams, hparams, h⟩ := bind_eq_ok_iff.1 h
        obtain ⟨_, final, hend, h⟩ := bind_eq_ok_iff.1 h
        rw [json_eq_ok_iff] at hparams hend
        obtain ⟨rfl, rfl⟩ := Prod.mk.inj (pure_eq_ok_iff.1 h)
        exact ⟨[params], .item hfirst hid (.item hsecond hmethod (.item hthird hparams
          (.done (listGoesOn_of_endOfList hend)))), by simp, rfl⟩

/-! ## Lines -/

theorem isSpace_of_finish {cs rest : List Char} (h : Scan.finish cs = .ok ((), rest)) :
    ∀ c ∈ cs, Scan.isSpace c := by
  obtain ⟨first, past, hpeek, h⟩ := bind_eq_ok_iff.1 h
  obtain ⟨rfl, hpast⟩ := peekPastSpace_eq_ok_iff.1 hpeek
  cases past with
  | nil => exact List.dropWhile_eq_nil_iff.1 hpast
  | cons c past => exact absurd h throw_ne_ok

/-- Nothing but blanks may follow a request. -/
theorem exists_read_of_ofLine {line : List Char} {request : Request}
    (h : ofLine line = .ok request) :
    ∃ rest, read line = .ok (request, rest) ∧ ∀ c ∈ rest, Scan.isSpace c := by
  let scan : RequestScan Request := do
    let request ← read
    json Scan.finish
    return request
  have hscan : ∃ final, scan line = .ok (request, final) := by
    change (scan line >>= fun pair => pure pair.1) = .ok request at h
    cases hline : scan line with
    | error reason =>
      rw [hline] at h
      cases h
    | ok pair =>
      rw [hline] at h
      cases h
      exact ⟨pair.2, rfl⟩
  obtain ⟨final, h⟩ := hscan
  obtain ⟨found, rest, hread, h⟩ := bind_eq_ok_iff.1 h
  obtain ⟨_, past, hfinish, h⟩ := bind_eq_ok_iff.1 h
  obtain ⟨rfl, -⟩ := Prod.mk.inj (pure_eq_ok_iff.1 h)
  exact ⟨rest, hread, isSpace_of_finish (json_eq_ok_iff.1 hfinish)⟩

/-- A line that is read as a request is one that writes it. -/
theorem written_of_ofLine {line : List Char} {request : Request}
    (h : ofLine line = .ok request) : Written line request := by
  obtain ⟨rest, h, hend⟩ := exists_read_of_ofLine h
  obtain ⟨first, past, hpeek, h⟩ := bind_eq_ok_iff.1 h
  obtain ⟨hfirst, hpast⟩ := peekPastSpace_eq_ok_iff.1 (json_eq_ok_iff.1 hpeek)
  split at h
  · exact absurd h throw_ne_ok
  · obtain ⟨cs, rfl⟩ := List.head?_eq_some_iff.1 hfirst
    obtain ⟨_, _, hnext, h⟩ := bind_eq_ok_iff.1 h
    cases hnext
    obtain ⟨params, hitems, hlength, hparams⟩ := exists_items_of_ofList h
    obtain ⟨id, method, _⟩ := request
    obtain rfl := hparams
    exact .list hpast hitems hend hlength
  · obtain ⟨cs, rfl⟩ := List.head?_eq_some_iff.1 hfirst
    obtain ⟨_, _, hnext, h⟩ := bind_eq_ok_iff.1 h
    cases hnext
    obtain ⟨members, method, hmembers, hkeys, hmethod, rfl⟩ := exists_members_of_ofObject h
    exact .object hpast hmembers hend hkeys hmethod
  · exact absurd h unexpected_ne_ok

end RazenLint.Request
