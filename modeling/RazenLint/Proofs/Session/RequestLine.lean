import RazenLint.Proofs.Json.Read
import RazenLint.Proofs.Session.History
import RazenLint.Proofs.Session.Request
import RazenLint.Proofs.Text.Trim

/-!
# Requests are read as they are written

A client writes a request as an object on one line (`Request.line`). What a session finds in this
line is the request (`content_line`), when its id and its parameters can be read from their
texts. The members of the objects in these are then in the order of their keys.
-/

namespace RazenLint.Request

open Json
open Scan (bind_of_eq_ok EndsNumber)

/-- The members of a request that is written as an object. -/
def members (request : Request) : List (String × Json) :=
  [("id", request.id), ("method", .text request.method), ("params", request.params)]

/-- The line that a client writes for a request. -/
def line (request : Request) : String :=
  (Json.object request.members).compact

/-- The id and the parameters can be read from their texts, inside a request. -/
structure Readable (request : Request) : Prop where
  id : request.id.Readable (innerLevels - 1)
  params : request.params.Readable (innerLevels - 1)

/-- The request as a session reads it. -/
def sorted (request : Request) : Request :=
  ⟨request.id.sorted, request.method, request.params.sorted⟩

section

variable {fields : Fields} {steps : Nat} {first : Bool} {cs : List Char}

theorem json_of_eq_ok {α : Type} {scan : Scan α} {found : α} {rest : List Char}
    (h : scan cs = .ok (found, rest)) : json scan cs = .ok (found, rest) :=
  json_eq_ok_iff.2 h

/-! ## Values -/

theorem methodName_quote (method : String) :
    methodName ((quote method).toList ++ cs) = .ok (method, cs) := by
  rw [toList_quote, List.cons_append, List.append_assoc, List.singleton_append, methodName,
    bind_of_eq_ok (json_of_eq_ok (Scan.peekPastSpace_cons (by decide) _))]
  refine json_of_eq_ok ?_
  rw [bind_of_eq_ok (Scan.discard_next_cons _ _)]
  exact Scan.string_quote method cs

/-- A value inside a request, with the rest of the request behind it. -/
theorem readValue_write {j : Json} (h : j.Readable (innerLevels - 1)) (depth : Nat)
    (hcs : EndsNumber cs) :
    Scan.readValue innerLevels (Layout.compact.write depth j ++ cs) = .ok (j.sorted, cs) := by
  refine (bind_of_eq_ok (Scan.get_eq_ok _)).trans ?_
  refine Scan.value_write .compact j (innerLevels - 1) h depth _ [] cs (List.forall_mem_nil _)
    hcs ?_
  rw [List.length_append]
  omega

/-! ## Fields -/

variable (rest : List (String × Json))

/-- The key of a member is read, and tells how the value is read. -/
theorem moreFields_key (key : String) (value : Json) :
    moreFields (steps + 1) first fields
        (Layout.compact.writeMembers 1 first ((key, value) :: rest) ++ cs) =
      (if key = "id" then do
        if fields.id.isSome then illTyped (.duplicateField key)
        json Scan.colon
        let id ← json (Scan.readValue innerLevels)
        moreFields steps false { fields with id := some id }
      else if key = "method" then do
        if fields.method.isSome then illTyped (.duplicateField key)
        json Scan.colon
        let method ← methodName
        moreFields steps false { fields with method := some method }
      else if key = "params" then do
        if fields.params.isSome then illTyped (.duplicateField key)
        json Scan.colon
        let params ← json (Scan.readValue innerLevels)
        moreFields steps false { fields with params := some params }
      else do
        json Scan.colon
        json Scan.skipValue
        moreFields steps false fields) (':' :: (Layout.compact.write 1 value ++
          (Layout.compact.writeMembers 1 false rest ++ cs))) := by
  rw [Layout.writeMembers, toList_quote, moreFields]
  simp only [List.append_assoc, List.cons_append, List.nil_append]
  rw [bind_of_eq_ok (json_of_eq_ok (Scan.objectGoesOn_item .compact 1 first))]
  exact bind_of_eq_ok (json_of_eq_ok (Scan.string_quote key _))

theorem moreFields_id {id : Json} (hid : id.Readable (innerLevels - 1)) (hcs : EndsNumber cs)
    (hnone : fields.id = none) :
    moreFields (steps + 1) first fields
        (Layout.compact.writeMembers 1 first (("id", id) :: rest) ++ cs) =
      moreFields steps false { fields with id := some id.sorted }
        (Layout.compact.writeMembers 1 false rest ++ cs) := by
  rw [moreFields_key, if_pos rfl, hnone]
  refine (bind_of_eq_ok (json_of_eq_ok (Scan.colon_cons _))).trans ?_
  exact bind_of_eq_ok (json_of_eq_ok
    (readValue_write hid 1 (Scan.endsNumber_members .compact 1 rest hcs)))

theorem moreFields_method (method : String) (hnone : fields.method = none) :
    moreFields (steps + 1) first fields
        (Layout.compact.writeMembers 1 first (("method", .text method) :: rest) ++ cs) =
      moreFields steps false { fields with method := some method }
        (Layout.compact.writeMembers 1 false rest ++ cs) := by
  rw [moreFields_key, if_neg (by decide), if_pos rfl, hnone]
  refine (bind_of_eq_ok (json_of_eq_ok (Scan.colon_cons _))).trans ?_
  exact bind_of_eq_ok (methodName_quote method)

theorem moreFields_params {params : Json} (hparams : params.Readable (innerLevels - 1))
    (hcs : EndsNumber cs) (hnone : fields.params = none) :
    moreFields (steps + 1) first fields
        (Layout.compact.writeMembers 1 first (("params", params) :: rest) ++ cs) =
      moreFields steps false { fields with params := some params.sorted }
        (Layout.compact.writeMembers 1 false rest ++ cs) := by
  rw [moreFields_key, if_neg (by decide), if_neg (by decide), if_pos rfl, hnone]
  refine (bind_of_eq_ok (json_of_eq_ok (Scan.colon_cons _))).trans ?_
  exact bind_of_eq_ok (json_of_eq_ok
    (readValue_write hparams 1 (Scan.endsNumber_members .compact 1 rest hcs)))

theorem moreFields_close :
    moreFields (steps + 1) first fields ('\x7d' :: cs) = .ok (fields, cs) := by
  have hclose : Scan.objectGoesOn first ('\x7d' :: cs) = .ok (false, cs) :=
    Scan.objectGoesOn_close (List.forall_mem_nil _) first
  rw [moreFields, bind_of_eq_ok (json_of_eq_ok hclose)]
  rfl

end

/-! ## Requests -/

variable {request : Request}

theorem toList_line (request : Request) : request.line.toList =
    '\x7b' :: (Layout.compact.writeMembers 1 true request.members ++ ['\x7d']) := by
  rw [line, toList_compact _ 0, Layout.write]
  rfl

/-- All fields are read, one in each step. -/
theorem moreFields_members (h : request.Readable) {steps : Nat} (hsteps : 4 ≤ steps) :
    moreFields steps true ⟨none, none, none⟩
        (Layout.compact.writeMembers 1 true request.members ++ ['\x7d']) =
      .ok (⟨some request.id.sorted, some request.method, some request.params.sorted⟩, []) := by
  obtain ⟨steps, rfl⟩ := Nat.exists_eq_add_of_le' hsteps
  have hclose : EndsNumber ['\x7d'] := .cons (by decide) []
  rw [members, moreFields_id _ h.id hclose rfl, moreFields_method _ _ rfl,
    moreFields_params _ h.params hclose rfl]
  exact moreFields_close

theorem read_line (h : request.Readable) :
    read request.line.toList = .ok (request.sorted, []) := by
  have hsteps :
      4 ≤ (Layout.compact.writeMembers 1 true request.members ++ ['\x7d']).length + 1 := by
    simp only [members, Layout.writeMembers, List.length_append, List.length_cons]
    omega
  have hget (cs : List Char) : (get : RequestScan (List Char)) cs = .ok (cs, cs) := rfl
  rw [toList_line, read, bind_of_eq_ok (json_of_eq_ok (Scan.peekPastSpace_cons (by decide) _))]
  refine (bind_of_eq_ok (json_of_eq_ok (Scan.discard_next_cons _ _))).trans ?_
  rw [ofObject, bind_of_eq_ok (hget _), bind_of_eq_ok (moreFields_members h hsteps)]
  rfl

theorem ofLine_line (h : request.Readable) : ofLine request.line.toList = .ok request.sorted := by
  have hfinish := json_of_eq_ok (Scan.finish_of_blanks (List.forall_mem_nil _))
  unfold ofLine StateT.run
  rw [bind_of_eq_ok (read_line h), bind_of_eq_ok hfinish]
  rfl

/-- The line has no blanks at its ends. -/
theorem trim_line (request : Request) : Text.trim request.line.toList = request.line.toList := by
  rw [toList_line, Text.trim, Text.trimStart_of_not_blank (by decide), ← List.cons_append,
    Text.trimEnd_concat_of_not_blank (by decide)]

/-- A request is found in its line. -/
theorem content_line (h : request.Readable) :
    (InputLine.text request.line.toList).content = .request request.sorted := by
  rw [InputLine.content, LineContent.ofText, trim_line, ofLine_line h, toList_line]
  rfl

end RazenLint.Request
