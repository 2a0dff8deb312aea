import Mathlib.Data.List.ReduceOption
import RazenLint.Proofs.Json.Print
import RazenLint.Proofs.Session.History
import RazenLint.Proofs.Session.Request
import RazenLint.Proofs.Text.Trim
import RazenLint.Proofs.Text.Utf8

/-!
# Serving an input

An input is cut after every newline (`CutAtNewlines`), and its segments are handled in
turn, up to the first one after which the session has ended (`Session.Handles`). What is
written are the answers, each on a line of its own : the text of an answer has no newline
(`Response.newline_notMem_bytes`), so cutting the output again gives the answers back
(`byteLines_outputOf`).

`Answered` says which segments get an answer, and under which id.
-/

namespace RazenLint

open Text

/-! ## Cutting bytes -/

/-- The segments of some bytes, each with the newline that ends it. The last one may end
without. -/
inductive CutAtNewlines : List UInt8 → List (List UInt8) → Prop
  | done : CutAtNewlines [] []
  | last {body : List UInt8} (hne : body ≠ []) (hbody : 0x0A ∉ body) : CutAtNewlines body [body]
  | line {body rest : List UInt8} {segments : List (List UInt8)} (hbody : 0x0A ∉ body)
    (hrest : CutAtNewlines rest segments) :
    CutAtNewlines (body ++ 0x0A :: rest) ((body ++ [0x0A]) :: segments)

theorem byteLines_append_newline {body : List UInt8} (h : 0x0A ∉ body) (rest : List UInt8) :
    byteLines (body ++ 0x0A :: rest) = (body ++ [0x0A]) :: byteLines rest := by
  induction body with
  | nil => rfl
  | cons b body ih =>
    rw [List.mem_cons, not_or] at h
    rw [List.cons_append, byteLines, if_neg (Ne.symm h.1), ih h.2]
    rfl

theorem byteLines_of_notMem {body : List UInt8} (h : 0x0A ∉ body) (hne : body ≠ []) :
    byteLines body = [body] := by
  induction body with
  | nil => exact absurd rfl hne
  | cons b body ih =>
    rw [List.mem_cons, not_or] at h
    rw [byteLines, if_neg (Ne.symm h.1)]
    cases body with
    | nil => rfl
    | cons b' body => rw [ih h.2 (List.cons_ne_nil b' body)]

/-- The lines of bytes are the one way to cut them. -/
theorem cutAtNewlines_iff {bytes : List UInt8} {segments : List (List UInt8)} :
    CutAtNewlines bytes segments ↔ byteLines bytes = segments := by
  constructor
  · intro h
    induction h with
    | done => rfl
    | last hne hbody => exact byteLines_of_notMem hbody hne
    | line hbody hrest ih => rw [byteLines_append_newline hbody, ih]
  · rintro rfl
    induction hlength : bytes.length using Nat.strong_induction_on generalizing bytes with
    | _ n ih =>
      subst hlength
      by_cases hnewline : 0x0A ∈ bytes
      · obtain ⟨body, rest, rfl, hbody⟩ := List.eq_append_cons_of_mem hnewline
        have hlength : rest.length < (body ++ 0x0A :: rest).length := by
          simp only [List.length_append, List.length_cons]
          omega
        rw [byteLines_append_newline hbody]
        exact .line hbody (ih rest.length hlength rfl)
      · cases hbytes : bytes with
        | nil => exact .done
        | cons b rest =>
          rw [← hbytes, byteLines_of_notMem hnewline (by simp [hbytes])]
          exact .last (by simp [hbytes]) hnewline

/-! ## Runs on segments -/

namespace Session

/-- The session after some segments, and the answers to them. -/
def runBytes (session : Session) (segments : List (List UInt8)) :
    Session × List (Option Response) :=
  session.run (segments.map .bytes)

theorem runBytes_cons (session : Session) (segment : List UInt8) (rest : List (List UInt8)) :
    session.runBytes (segment :: rest) = (((session.handleBytes segment).1.runBytes rest).1,
      (session.handleBytes segment).2 :: ((session.handleBytes segment).1.runBytes rest).2) :=
  rfl

theorem serveLines_cons (session : Session) (segment : List UInt8)
    (rest : List (List UInt8)) : session.serveLines (segment :: rest) =
      if (session.handleBytes segment).1.isShutDown then
        ((session.handleBytes segment).1, (session.handleBytes segment).2.toList)
      else
        (((session.handleBytes segment).1.serveLines rest).1,
          (session.handleBytes segment).2.toList ++
            ((session.handleBytes segment).1.serveLines rest).2) :=
  rfl

/-- Which segments are handled. The session ends with the last of them and no earlier, or
goes on up to the end. -/
structure Handles (session : Session) (handled later : List (List UInt8)) : Prop where
  running : ∀ before after, handled = before ++ after → after ≠ [] →
    (session.runBytes before).1.isShutDown = false
  ended : later ≠ [] → (session.runBytes handled).1.isShutDown = true

theorem Handles.cons {session : Session} {segment : List UInt8} {handled later : List (List UInt8)}
    (h : (session.handleBytes segment).1.Handles handled later)
    (hrunning : session.isShutDown = false) : session.Handles (segment :: handled) later where
  running before after hhandled hne := by
    cases before with
    | nil => exact hrunning
    | cons first before =>
      obtain ⟨rfl, hrest⟩ := List.cons.inj hhandled
      exact h.running before after hrest hne
  ended := h.ended

/-- Serving handles segments up to the end of the session, and keeps the answers. -/
theorem exists_handles {session : Session} (hrunning : session.isShutDown = false)
    (segments : List (List UInt8)) : ∃ handled later, segments = handled ++ later ∧
      session.Handles handled later ∧ session.serveLines segments =
        ((session.runBytes handled).1, (session.runBytes handled).2.reduceOption) := by
  induction segments generalizing session with
  | nil => exact ⟨[], [], rfl, ⟨fun _ _ hnil hne => by simp_all, fun h => absurd rfl h⟩, rfl⟩
  | cons segment rest ih =>
    cases hdown : (session.handleBytes segment).1.isShutDown with
    | true =>
      refine ⟨[segment], rest, rfl, ⟨fun before after hhandled hne => ?_, fun _ => hdown⟩, ?_⟩
      · cases before with
        | nil => exact hrunning
        | cons first before => simp_all
      · rw [serveLines_cons, if_pos hdown, runBytes_cons]
        cases (session.handleBytes segment).2 <;> rfl
    | false =>
      obtain ⟨handled, later, rfl, hhandles, hserve⟩ := ih hdown
      refine ⟨segment :: handled, later, rfl, hhandles.cons hrunning, ?_⟩
      rw [serveLines_cons, if_neg (by simp [hdown]), hserve, runBytes_cons]
      cases (session.handleBytes segment).2 <;> rfl

end Session

/-! ## Answers -/

/-- The answer to a segment. A segment gets none when it is blank text, and otherwise one
that has the id of the request, or no id where there is no request. -/
structure Answered (segment : List UInt8) (response : Option Response) : Prop where
  blank : response = none ↔ ∃ line, segment = encodeUtf8 line ∧ ∀ c ∈ line, isBlank c
  request : ∀ line request, segment = encodeUtf8 line → Request.ofLine (trim line) = .ok request →
    request.Written (trim line) ∧ ∃ outcome, response = some ⟨request.id, outcome⟩
  malformed : ∀ line reason, segment = encodeUtf8 line → (∃ c ∈ line, isBlank c = false) →
    Request.ofLine (trim line) = .error reason →
      response = some ⟨.null, .error (.malformed reason)⟩
  notUtf8 : (∀ line, segment ≠ encodeUtf8 line) →
    ∃ reason, response = some ⟨.null, .error (.notUtf8 reason)⟩

/-- A segment that is text is the text of one line. -/
theorem Answered.of_line {line : List Char} {response : Option Response}
    (hblank : response = none ↔ ∀ c ∈ line, isBlank c = true)
    (hrequest : ∀ request, Request.ofLine (trim line) = .ok request →
      ∃ outcome, response = some ⟨request.id, outcome⟩)
    (hmalformed : ∀ reason, (∃ c ∈ line, isBlank c = false) →
      Request.ofLine (trim line) = .error reason →
        response = some ⟨.null, .error (.malformed reason)⟩) :
    Answered (encodeUtf8 line) response where
  blank := by
    rw [hblank]
    constructor
    · exact fun h => ⟨line, rfl, h⟩
    · rintro ⟨other, hother, h⟩
      rwa [encodeUtf8_injective hother]
  request other request hother h := by
    obtain rfl := encodeUtf8_injective hother
    exact ⟨Request.written_of_ofLine h, hrequest request h⟩
  malformed other reason hother hne h := by
    obtain rfl := encodeUtf8_injective hother
    exact hmalformed reason hne h
  notUtf8 h := absurd rfl (h line)

theorem Session.id_answer (session : Session) (request : Request) :
    (session.answer request).2.id = request.id := by
  rw [answer]
  split <;> rfl

theorem answered_handleLine (session : Session) (line : List Char) :
    Answered (encodeUtf8 line) (session.handleLine line).2 := by
  rw [Session.handleLine_eq, LineContent.ofText]
  split_ifs with hempty
  · have hblank := trim_eq_nil_iff.1 (List.isEmpty_iff.1 hempty)
    refine .of_line ⟨fun _ => hblank, fun _ => rfl⟩ (fun request h => ?_) ?_
    · rw [List.isEmpty_iff.1 hempty] at h
      cases h
    · rintro reason ⟨c, hc, hcblank⟩
      simp [hblank c hc] at hcblank
  · have hne : ¬∀ c ∈ line, isBlank c = true :=
      fun h => hempty (List.isEmpty_iff.2 (trim_eq_nil_iff.2 h))
    cases hline : Request.ofLine (trim line) with
    | error reason =>
      refine .of_line (iff_of_false (by simp) hne) (fun request h => ?_) (fun found _ h => ?_)
      · cases hline.symm.trans h
      · obtain rfl := Except.error.inj (hline.symm.trans h)
        rfl
    | ok request =>
      refine .of_line (iff_of_false (by simp) hne) (fun found h => ?_) (fun reason _ h => ?_)
      · obtain rfl := Except.ok.inj (hline.symm.trans h)
        exact ⟨(session.answer request).2.outcome, by rw [← session.id_answer]⟩
      · cases hline.symm.trans h

theorem answered_handleBytes (session : Session) (segment : List UInt8) :
    Answered segment (session.handleBytes segment).2 := by
  rw [Session.handleBytes]
  cases hdecode : decodeUtf8 segment with
  | ok line =>
    rw [decodeUtf8_eq_ok_iff.1 hdecode]
    exact answered_handleLine session line
  | error reason =>
    have hnone : ∀ line, segment ≠ encodeUtf8 line := by
      intro line hline
      rw [decodeUtf8_eq_ok_iff.2 hline] at hdecode
      cases hdecode
    exact ⟨by simp [hnone], fun line _ hline => absurd hline (hnone line),
      fun line _ hline => absurd hline (hnone line), fun _ => ⟨reason, rfl⟩⟩

theorem forall₂_answered (session : Session) (segments : List (List UInt8)) :
    List.Forall₂ Answered segments (session.runBytes segments).2 := by
  induction segments generalizing session with
  | nil => exact .nil
  | cons segment rest ih =>
    rw [Session.runBytes_cons]
    exact .cons (answered_handleBytes session segment) (ih _)

/-! ## Output -/

/-- An object with an id, and either a result or an error. -/
inductive IsAnswer (id : Json) : Json → Prop
  | result (value : Json) : IsAnswer id (.object [("id", id), ("result", value)])
  | error (message : String) :
    IsAnswer id (.object [("id", id), ("error", .object [("message", .text message)])])

theorem Response.isAnswer_toJson (response : Response) :
    IsAnswer response.id response.toJson := by
  obtain ⟨id, outcome⟩ := response
  cases outcome with
  | ok result => exact .result result.sorted
  | error reason => exact .error reason.message

/-- The bytes of an answer. -/
def Response.bytes (response : Response) : List UInt8 :=
  encodeUtf8 response.line.toList

theorem Response.newline_notMem_bytes (response : Response) : 0x0A ∉ response.bytes := by
  rw [bytes, newline_mem_encodeUtf8]
  exact (Json.noControls_compact response.toJson).newline_notMem

/-- Every answer is written with a newline behind it. -/
theorem encodeUtf8_outputOf (responses : List Response) :
    encodeUtf8 (outputOf responses).toList =
      responses.flatMap fun response => response.bytes ++ [0x0A] := by
  rw [outputOf, String.toList_join, List.flatMap_map]
  induction responses with
  | nil => rfl
  | cons response rest ih =>
    rw [List.flatMap_cons, encodeUtf8_append, ih, String.toList_append, encodeUtf8_append]
    rfl

/-- The lines of the output are the answers. -/
theorem byteLines_outputOf (responses : List Response) :
    byteLines (encodeUtf8 (outputOf responses).toList) =
      responses.map fun response => response.bytes ++ [0x0A] := by
  rw [encodeUtf8_outputOf]
  induction responses with
  | nil => rfl
  | cons response rest ih =>
    rw [List.flatMap_cons, List.append_assoc, List.singleton_append,
      byteLines_append_newline response.newline_notMem_bytes, ih]
    rfl

/-- Serving an input from the fresh session handles its segments in turn, up to the first
one that ends the session, and writes the answers to them, each on a line of its own. -/
theorem serve_fresh (input : List UInt8) : ∃ handled later responses,
    CutAtNewlines input (handled ++ later) ∧
    Session.fresh.Handles handled later ∧
    Session.fresh.serve input = ((Session.fresh.runBytes handled).1, responses) ∧
    responses = (Session.fresh.runBytes handled).2.reduceOption ∧
    List.Forall₂ Answered handled (Session.fresh.runBytes handled).2 ∧
    (∀ response ∈ responses,
      IsAnswer response.id response.toJson ∧ 0x0A ∉ response.bytes) ∧
    encodeUtf8 (outputOf responses).toList =
      responses.flatMap (fun response => response.bytes ++ [0x0A]) ∧
    byteLines (encodeUtf8 (outputOf responses).toList) =
      responses.map fun response => response.bytes ++ [0x0A] := by
  have hrunning : Session.fresh.isShutDown = false := rfl
  obtain ⟨handled, later, hsegments, hhandles, hserve⟩ :=
    Session.exists_handles hrunning (byteLines input)
  exact ⟨handled, later, _, cutAtNewlines_iff.2 hsegments, hhandles, hserve, rfl,
    forall₂_answered _ handled,
    fun response _ => ⟨response.isAnswer_toJson, response.newline_notMem_bytes⟩,
    encodeUtf8_outputOf _, byteLines_outputOf _⟩

/-- A blank line is passed over, and nothing behind the end of the session is read. -/
example : outputOf (Session.fresh.serve
    (encodeUtf8 " \n[1, \"close\", [\"a\"]]\n[2, \"shutdown\"]\n[3, \"close\"]".toList)).2 =
      "\x7b\"id\":1,\"result\":false\x7d\n\x7b\"id\":2,\"result\":null\x7d\n" := by
  decide +kernel

end RazenLint
