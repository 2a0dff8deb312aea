import RazenLint.Proofs.Session.History

/-!
# What a line changes

A command can be carried out in steps that read the session, change it or fail, and what was
changed before a step that fails would stay changed (`SessionSteps`). The steps of a command
are in such an order that everything that can fail comes before the first change
(`atomic_carryOut`), even when a result need not have a form in which it can be sent. With
results that can always be sent they do what a session does with a line (`runOn_handleInSteps`).

`handled_handle` says what this means for a line : one that is answered with an error changes
nothing, and one that succeeds changes at most the document that it names.
-/

namespace RazenLint

/-! ## Steps on a session -/

/-- Steps on a session, of which each one may fail. -/
abbrev SessionSteps := ExceptT ProtocolError (StateM Session)

namespace SessionSteps

variable {α β : Type} {steps : SessionSteps α} {next : α → SessionSteps β}

/-- The outcome of the steps, and the session after them. -/
def runOn (steps : SessionSteps α) (session : Session) : Except ProtocolError α × Session :=
  steps.run.run session

theorem runOn_bind (steps : SessionSteps α) (next : α → SessionSteps β) (session : Session) :
    (steps >>= next).runOn session = match steps.runOn session with
      | (.ok found, after) => (next found).runOn after
      | (.error reason, after) => (.error reason, after) := by
  show (ExceptT.bindCont next (steps.runOn session).1).run (steps.runOn session).2 = _
  rcases steps.runOn session with ⟨_ | _, after⟩ <;> rfl

/-- The steps leave every session as it is. -/
def ReadOnly (steps : SessionSteps α) : Prop :=
  ∀ session, (steps.runOn session).2 = session

/-- The steps never fail. -/
def Safe (steps : SessionSteps α) : Prop :=
  ∀ session, ∃ found after, steps.runOn session = (.ok found, after)

/-- Where the steps fail, the session is what it was before them. -/
def Atomic (steps : SessionSteps α) : Prop :=
  ∀ session reason after, steps.runOn session = (.error reason, after) → after = session

theorem ReadOnly.atomic (h : steps.ReadOnly) : steps.Atomic := by
  intro session reason after hrun
  have hsession := h session
  rw [hrun] at hsession
  exact hsession

theorem Safe.atomic (h : steps.Safe) : steps.Atomic := by
  intro session reason after hrun
  obtain ⟨found, _, hok⟩ := h session
  simp [hok] at hrun

theorem readOnly_ofExcept (outcome : Except ProtocolError α) :
    (liftM outcome : SessionSteps α).ReadOnly :=
  fun _ => rfl

theorem ReadOnly.bind (h : steps.ReadOnly) (hnext : ∀ found, (next found).ReadOnly) :
    (steps >>= next).ReadOnly := by
  intro session
  have hsession := h session
  rw [runOn_bind]
  rcases hrun : steps.runOn session with ⟨_ | found, after⟩ <;> rw [hrun] at hsession <;>
    dsimp only at hsession ⊢
  · exact hsession
  · rw [hnext found after, hsession]

/-- Reading first does no harm. -/
theorem ReadOnly.bind_atomic (h : steps.ReadOnly) (hnext : ∀ found, (next found).Atomic) :
    (steps >>= next).Atomic := by
  intro session reason after hrun
  have hsession := h session
  rw [runOn_bind] at hrun
  rcases hsteps : steps.runOn session with ⟨_ | found, middle⟩ <;>
    rw [hsteps] at hrun hsession <;> dsimp only at hrun hsession
  · exact (Prod.mk.inj hrun).2.symm.trans hsession
  · exact (hnext found middle reason after hrun).trans hsession

end SessionSteps

/-! ## Commands in steps -/

namespace Command

/-- The open document with a name. -/
def findDocument (name : String) : SessionSteps OpenDocument := do
  match (← get).documents.get? name with
  | some found => return found
  | none => throw (.unknownDocument name)

/-- Carries out a command, where `send` gives the form in which a result is sent. -/
def carryOut (send : Json → Except ProtocolError Json) : Command → SessionSteps Json
  | .open name text => do
    let analysis := analyze name text
    let result ← send analysis.toJson
    modify fun session =>
      { session with documents := session.documents.insert name ⟨text, analysis⟩ }
    return result
  | .tokens name => do
    let found ← findDocument name
    send (.list (found.analysis.tokens.map Token.toJson))
  | .codeActions name diagnostics => do
    let found ← findDocument name
    let actions :=
      RazenLint.codeActions name found.text.toList (diagnostics.getD found.analysis.diagnostics)
    send (.list (actions.map CodeAction.toJson))
  | .completion name position => do
    let found ← findDocument name
    send (.list ((complete found.text.toList position).map CompletionItem.toJson))
  | .close name => do
    let closed := (← get).documents.get? name
    modify fun session => { session with documents := session.documents.erase name }
    return .bool closed.isSome
  | .shutdown => do
    modify fun session => { session with isShutDown := true }
    modify fun session => { session with documents := [] }
    return .null

variable {send : Json → Except ProtocolError Json}

theorem readOnly_findDocument (name : String) : (findDocument name).ReadOnly := by
  intro session
  show (SessionSteps.runOn (match session.documents.get? name with
    | some found => pure found
    | none => throw (.unknownDocument name)) session).2 = session
  cases session.documents.get? name <;> rfl

/-- A command that only asks for something. -/
def IsQuery : Command → Prop
  | .tokens _ | .codeActions _ _ | .completion _ _ => True
  | .open _ _ | .close _ | .shutdown => False

theorem readOnly_carryOut (command : Command) (h : command.IsQuery) :
    (command.carryOut send).ReadOnly := by
  cases command with
  | tokens name =>
    exact (readOnly_findDocument name).bind fun _ => SessionSteps.readOnly_ofExcept _
  | codeActions name diagnostics =>
    exact (readOnly_findDocument name).bind fun _ => SessionSteps.readOnly_ofExcept _
  | completion name position =>
    exact (readOnly_findDocument name).bind fun _ => SessionSteps.readOnly_ofExcept _
  | «open» name text => exact h.elim
  | close name => exact h.elim
  | shutdown => exact h.elim

/-- A command that fails changes nothing : what can fail in it comes before its changes. -/
theorem atomic_carryOut (command : Command) : (command.carryOut send).Atomic := by
  cases command with
  | «open» name text =>
    exact (SessionSteps.readOnly_ofExcept (send (analyze name text).toJson)).bind_atomic
      fun result => SessionSteps.Safe.atomic fun session => ⟨_, _, rfl⟩
  | tokens name => exact (readOnly_carryOut (.tokens name) trivial).atomic
  | codeActions name diagnostics =>
    exact (readOnly_carryOut (.codeActions name diagnostics) trivial).atomic
  | completion name position =>
    exact (readOnly_carryOut (.completion name position) trivial).atomic
  | close name => exact SessionSteps.Safe.atomic fun session => ⟨_, _, rfl⟩
  | shutdown => exact SessionSteps.Safe.atomic fun session => ⟨_, _, rfl⟩

end Command

/-! ## What a command changes -/

/-- A session that differs from another one in no document but the named one. -/
structure Session.SameBut (session : Session) (name : String) (after : Session) : Prop where
  documents : ∀ other, other ≠ name → after.documents.get? other = session.documents.get? other
  isShutDown : after.isShutDown = session.isShutDown

/-- What becomes of a session by a command that succeeds. -/
def Command.Changes (session after : Session) : Command → Prop
  | .open name text => session.SameBut name after ∧
    after.documents.get? name = some (.ofText name text)
  | .close name => session.SameBut name after ∧ after.documents.get? name = none
  | .shutdown => after = ⟨[], true⟩
  | .tokens _ | .codeActions _ _ | .completion _ _ => after = session

namespace Command

variable {send : Json → Except ProtocolError Json} {session after : Session} {result : Json}

theorem changes_of_carryOut {command : Command}
    (h : (command.carryOut send).runOn session = (.ok result, after)) :
    command.Changes session after := by
  have hquery (hcommand : command.IsQuery) : after = session := by
    have hreads : (command.carryOut send).ReadOnly := readOnly_carryOut command hcommand
    have hsession := hreads session
    rwa [h] at hsession
  cases command with
  | tokens name => exact hquery trivial
  | codeActions name diagnostics => exact hquery trivial
  | completion name position => exact hquery trivial
  | «open» name text =>
    rw [carryOut, SessionSteps.runOn_bind] at h
    cases hsend : send (analyze name text).toJson with
    | error reason =>
      rw [hsend] at h
      cases h
    | ok sent =>
      rw [hsend] at h
      cases h
      refine ⟨⟨fun other hother => ?_, rfl⟩, ?_⟩
      · rw [Table.get?_insert, if_neg hother]
      · rw [Table.get?_insert, if_pos rfl]
        rfl
  | close name =>
    cases h
    refine ⟨⟨fun other hother => ?_, rfl⟩, ?_⟩
    · rw [Table.get?_erase, if_neg hother]
    · rw [Table.get?_erase, if_pos rfl]
  | shutdown =>
    cases h
    rfl

/-- With results that can always be sent, the steps of a command do what the command does. -/
theorem runOn_carryOut (command : Command) (session : Session) :
    (command.carryOut .ok).runOn session = match session.perform command with
      | .ok (next, result) => (.ok result, next)
      | .error reason => (.error reason, session) := by
  have hfind (name : String) : (findDocument name).runOn session =
      (session.document name, session) := by
    show SessionSteps.runOn (match session.documents.get? name with
      | some found => pure found
      | none => throw (.unknownDocument name)) session = _
    rw [Session.document]
    cases session.documents.get? name <;> rfl
  cases command with
  | «open» name text => rfl
  | tokens name =>
    rw [carryOut, SessionSteps.runOn_bind, hfind, Session.perform]
    cases session.document name <;> rfl
  | codeActions name diagnostics =>
    rw [carryOut, SessionSteps.runOn_bind, hfind, Session.perform]
    cases session.document name <;> rfl
  | completion name position =>
    rw [carryOut, SessionSteps.runOn_bind, hfind, Session.perform]
    cases session.document name <;> rfl
  | close name => rfl
  | shutdown => rfl

end Command

/-! ## Lines -/

/-- Carries out what a request asks for. -/
def Request.carryOut (send : Json → Except ProtocolError Json) (request : Request) :
    SessionSteps Json := do
  let command ← Command.ofRequest request
  command.carryOut send

/-- The answer to a line and the session after it, where requests are carried out in steps. -/
def Session.handleInSteps (send : Json → Except ProtocolError Json) (session : Session)
    (line : InputLine) : Session × Option Response :=
  match line.content with
  | .blank => (session, none)
  | .problem reason => (session, some ⟨.null, .error reason⟩)
  | .request request =>
    let (outcome, after) := (request.carryOut send).runOn session
    (after, some ⟨request.id, outcome⟩)

/-- What a line may make of a session, seen by its answer. -/
structure Session.Handled (session : Session) (line : InputLine) (after : Session)
    (response : Option Response) : Prop where
  blank : response = none → after = session
  failed : ∀ id reason, response = some ⟨id, .error reason⟩ → after = session
  succeeded : ∀ id result, response = some ⟨id, .ok result⟩ →
    ∃ command, line.command? = some command ∧ command.Changes session after

namespace Request

variable {send : Json → Except ProtocolError Json}

theorem runOn_carryOut (request : Request) (session : Session) :
    (request.carryOut send).runOn session = match Command.ofRequest request with
      | .ok command => (command.carryOut send).runOn session
      | .error reason => (.error reason, session) := by
  unfold carryOut
  rw [SessionSteps.runOn_bind]
  cases Command.ofRequest request <;> rfl

/-- A request that fails changes nothing. -/
theorem atomic_carryOut (request : Request) : (request.carryOut send).Atomic :=
  (SessionSteps.readOnly_ofExcept _).bind_atomic Command.atomic_carryOut

end Request

namespace Session

variable {send : Json → Except ProtocolError Json}

/-- With results that can always be sent, the steps are the handling of lines. -/
theorem handleInSteps_ok (session : Session) (line : InputLine) :
    session.handleInSteps .ok line = session.handle line := by
  rw [handle_eq, handleInSteps]
  cases line.content with
  | blank => rfl
  | problem reason => rfl
  | request request =>
    dsimp only
    rw [request.runOn_carryOut, answer]
    cases Command.ofRequest request with
    | error reason => rfl
    | ok command =>
      rw [show Except.ok command >>= session.perform = session.perform command from rfl]
      dsimp only
      rw [command.runOn_carryOut]
      cases session.perform command <;> rfl

theorem handled_handleInSteps (session : Session) (line : InputLine) :
    session.Handled line (session.handleInSteps send line).1
      (session.handleInSteps send line).2 := by
  rw [handleInSteps]
  cases hcontent : line.content with
  | blank => exact ⟨fun _ => rfl, by simp, by simp⟩
  | problem reason => exact ⟨fun _ => rfl, fun _ _ _ => rfl, by simp⟩
  | request request =>
    dsimp only
    cases hrun : (request.carryOut send).runOn session with
    | mk outcome after =>
      refine ⟨by simp, fun id reason hresponse => ?_, fun id result hresponse => ?_⟩
      · obtain ⟨-, rfl⟩ := Response.mk.inj (Option.some.inj hresponse)
        exact request.atomic_carryOut session reason after hrun
      · obtain ⟨-, rfl⟩ := Response.mk.inj (Option.some.inj hresponse)
        rw [request.runOn_carryOut] at hrun
        cases hcommand : Command.ofRequest request with
        | error reason =>
          rw [hcommand] at hrun
          cases hrun
        | ok command =>
          rw [hcommand] at hrun
          refine ⟨command, ?_, Command.changes_of_carryOut hrun⟩
          rw [InputLine.command?, hcontent, LineContent.command?, hcommand]
          rfl

end Session

/-- Whatever a session does with a line, it does in steps of which the first that fails ends
them. A line that is answered with an error, or not at all, leaves the session as it was, and
so does a line that asks for tokens, actions or completions. One that opens, changes or
closes a document changes this document alone. All this also holds when some results cannot
be sent. -/
theorem handled_handle (session : Session) (line : InputLine) :
    session.handleInSteps .ok line = session.handle line ∧
      session.Handled line (session.handle line).1 (session.handle line).2 ∧
      ∀ send, session.Handled line (session.handleInSteps send line).1
        (session.handleInSteps send line).2 := by
  refine ⟨session.handleInSteps_ok line, ?_, fun send => session.handled_handleInSteps line⟩
  rw [← session.handleInSteps_ok line]
  exact session.handled_handleInSteps line

end RazenLint
