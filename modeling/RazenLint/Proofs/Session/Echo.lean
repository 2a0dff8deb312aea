import RazenLint.Proofs.Faithful
import RazenLint.Proofs.Session.RequestLine
import RazenLint.Proofs.Wire.Readable

/-!
# Diagnostics that are sent back

A request for actions names diagnostics, or leaves them to the session, which takes those of its
last analysis. The diagnostics of the last analysis are those that were answered when the
document was last opened or changed (`lastReturned_iff`), and they are read back as they were
sent, from the line that a client writes (`Request.forActions`). So a client that sends some of
them back gets the actions that the session finds for these (`Session.Shows.answersActions`), and
one that sends all of them gets the same as one that sends none (`answersActions_echoed`).
-/

namespace RazenLint

open Json Text

/-- The numbers of a diagnostic have 32 bits, in a text of fewer characters than that. -/
theorem Diagnostic.fits_of_mem_diagnose {text : List Char} (htext : text.length < 2 ^ 32)
    {d : Diagnostic} (h : d ∈ diagnose text) : d.Fits := by
  obtain ⟨line, hline, hstop, hnonempty, hinside⟩ := covers_of_mem_diagnose h
  have hlength := add_length_le_of_line hline
  exact ⟨⟨by omega, by omega⟩, ⟨by omega, by omega⟩⟩

/-! ## Requests for actions -/

/-- What stands where a request may give diagnostics : nothing or null if it gives none, and
otherwise a value that may have its members in another order. -/
def Sends (given : Option Json) (found : Option Json) : Prop :=
  match given with
  | none => found = none ∨ found = some .null
  | some value => ∃ j, found = some j ∧ j.Same value

/-- Parameters that ask for the actions of a document, for the given diagnostics or for those of
the last analysis. They are named, or stand in their order. -/
inductive AsksForActions (name : String) (given : Option Json) : Json → Prop
  | named {members : List (String × Json)}
      (hdocument : members.lookup "document" = some (.text name))
      (hdiagnostics : Sends given (members.lookup "diagnostics")) :
      AsksForActions name given (.object members)
  | inOrder {rest : List Json} (hrest : rest.length ≤ 1)
      (hdiagnostics : Sends given rest.head?) :
      AsksForActions name given (.list (.text name :: rest))

/-- How diagnostics are sent. -/
def diagnosticsJson (diagnostics : List Diagnostic) : Json :=
  .list (diagnostics.map Diagnostic.toJson)

/-- Diagnostics that are sent are read as they were, and none as none. -/
theorem read_of_sends {given : Option (List Diagnostic)} (hfits : ∀ ds ∈ given, ∀ d ∈ ds, d.Fits)
    {found : Option Json} (h : Sends (given.map diagnosticsJson) found) :
    let outcome := found.map (asOptional (asList Diagnostic.ofJson))
    Record.defaulted none outcome = .ok given ∧
      problemOf "diagnostics" outcome = ("diagnostics", none) := by
  cases given with
  | none => rcases h with rfl | rfl <;> exact ⟨rfl, rfl⟩
  | some ds =>
    obtain ⟨j, rfl, hj⟩ := h
    have hds : Reads (asList Diagnostic.ofJson) (diagnosticsJson ds) ds :=
      reads_list fun d hd => Diagnostic.reads (hfits ds rfl d hd)
    have hread := hds.optional nofun j hj
    rw [Option.map_some, hread]
    exact ⟨rfl, rfl⟩

theorem Command.ofRequest_codeActions {name : String} {given : Option (List Diagnostic)}
    (hfits : ∀ ds ∈ given, ∀ d ∈ ds, d.Fits) {params : Json}
    (h : AsksForActions name (given.map diagnosticsJson) params) (id : Json) :
    ofRequest ⟨id, "codeActions", params⟩ = .ok (.codeActions name given) := by
  obtain ⟨record, hrecord, hfinish, hdocument, hdiagnostics⟩ : ∃ record,
      params.asRecord actionRecordType = .ok record ∧ record.finish = .ok () ∧
        record.fields.lookup "document" = some (.text name) ∧
        Sends (given.map diagnosticsJson) (record.fields.lookup "diagnostics") := by
    cases h with
    | @named members hdocument hdiagnostics =>
      obtain ⟨record, hrecord, hnamed, hfields⟩ := exists_asRecord_object actionRecordType members
      refine ⟨record, hrecord, Record.finish_eq_ok hnamed, ?_, ?_⟩
      · rw [hfields "document" (by simp [actionRecordType]), hdocument]
      · rwa [hfields "diagnostics" (by simp [actionRecordType])]
    | @inOrder rest hrest hdiagnostics =>
      cases rest with
      | nil => exact ⟨_, rfl, rfl, rfl, hdiagnostics⟩
      | cons value rest =>
        obtain rfl : rest = [] := List.length_eq_zero_iff.1 (by simpa using hrest)
        exact ⟨_, rfl, rfl, rfl, hdiagnostics⟩
  obtain ⟨hgiven, hproblem⟩ := read_of_sends hfits hdiagnostics
  have hname : record.field "document" asText = some (.ok name) := by
    rw [Record.field, hdocument, Option.map_some, asText]
  have hread : codeActionsOfJson params = .ok (.codeActions name given) := by
    rw [codeActionsOfJson, hrecord]
    simp only [Record.field] at hname
    simp [hname, Record.field, hgiven, hproblem, Record.firstProblem_eq_ok, hfinish]
  rw [ofRequest, show decoder? "codeActions" = some codeActionsOfJson by simp [decoder?]]
  dsimp only
  rw [hread]

/-- The request for the actions of a document, as a client writes it. -/
def Request.forActions (id : Json) (name : String) (given : Option Json) : Request :=
  ⟨id, "codeActions", .object (("document", .text name) :: presentMember "diagnostics" given)⟩

theorem asksForActions_forActions (id : Json) (name : String) (given : Option Json) :
    AsksForActions name given (Request.forActions id name given).sorted.params := by
  have hlookup (key : String) (members : List (String × Json)) :
      (sortedMembers members).lookup key = (members.lookup key).map Json.sorted :=
    get?_sortedMembers key members
  refine .named ?_ ?_
  · rw [hlookup]
    rfl
  · rw [hlookup]
    cases given with
    | none => exact Or.inl rfl
    | some value => exact ⟨value.sorted, rfl, same_sorted value⟩

/-- A request that sends diagnostics can be read from its line. -/
theorem Request.readable_forActions {id : Json} (hid : id.Readable (innerLevels - 1))
    (name : String) {given : Option (List Diagnostic)} (hfits : ∀ ds ∈ given, ∀ d ∈ ds, d.Fits) :
    (forActions id name (given.map diagnosticsJson)).Readable where
  id := hid
  params := by
    cases given with
    | none => exact ⟨by decide, by simp [presentMember], trivial, trivial⟩
    | some ds =>
      have hds : (diagnosticsJson ds).Readable (121 + 4) :=
        ⟨by decide, readableItems_map fun d hd => Diagnostic.readable (hfits ds rfl d hd)⟩
      exact ⟨by decide, by simp [presentMember], trivial, hds, trivial⟩

/-! ## Answers -/

/-- A line can ask for the actions of a document, for the given diagnostics and under every id,
and every line that does so is answered with these actions. -/
structure Session.AnswersActions (session : Session) (name : String) (given : Option Json)
    (actions : List CodeAction) : Prop where
  asked : ∀ id : Json, id.Readable (Request.innerLevels - 1) → ∃ line params,
    InputLine.content line = .request ⟨id.sorted, "codeActions", params⟩ ∧
      AsksForActions name given params
  answered : ∀ line id params, InputLine.content line = .request ⟨id, "codeActions", params⟩ →
    AsksForActions name given params →
      (session.handle line).2 = some ⟨id, .ok (.list (actions.map CodeAction.toJson))⟩

theorem Session.Shows.answersActions {session : Session} {texts : OpenTexts}
    (h : session.Shows texts) {name text : String} (htext : texts name = some text)
    {given : Option (List Diagnostic)} (hfits : ∀ ds ∈ given, ∀ d ∈ ds, d.Fits) :
    session.AnswersActions name (given.map diagnosticsJson)
      (codeActions name text.toList (given.getD (analyze name text).diagnostics)) where
  asked id hid := ⟨_, _, Request.content_line (Request.readable_forActions hid name hfits),
    asksForActions_forActions id name _⟩
  answered line id params hcontent hasks := by
    rw [(h.handle line).1, InputLine.answerOn, hcontent]
    dsimp only
    rw [Command.ofRequest_codeActions hfits hasks id]
    simp [Except.bind, Command.resultOn, OpenTexts.find, htext]

/-- The diagnostics in the answer to the line that last opened or changed a document, where the
document was not closed since. -/
def LastReturned (lines : List InputLine) (name : String) (returned : Json) : Prop :=
  ∃ before line after text id result, lines = before ++ line :: after ∧
    line.command? = some (.open name text) ∧ (∀ later ∈ after, ¬later.Settles name) ∧
    (Session.fresh.run lines).2[before.length]? = some (some ⟨id, .ok result⟩) ∧
    result.member? "diagnostics" = some returned

theorem InputLine.exists_answerOn {line : InputLine} {command : Command}
    (h : line.command? = some command) (texts : OpenTexts) :
    ∃ id, line.answerOn texts = some ⟨id, command.resultOn texts⟩ := by
  rw [command?] at h
  rw [answerOn]
  cases hcontent : line.content with
  | blank => simp [hcontent, LineContent.command?] at h
  | problem reason => simp [hcontent, LineContent.command?] at h
  | request request =>
    rw [hcontent, LineContent.command?] at h
    cases hcommand : Command.ofRequest request with
    | error reason => simp [hcommand, Except.toOption] at h
    | ok found =>
      rw [hcommand] at h
      obtain rfl : found = command := Option.some.inj h
      refine ⟨request.id, ?_⟩
      dsimp only
      rw [hcommand]
      rfl

/-- What was last returned for a document are the diagnostics of its text. -/
theorem lastReturned_iff {lines : List InputLine} {name text : String}
    (htext : textsAfter lines name = some text) {returned : Json} :
    LastReturned lines name returned ↔
      returned = diagnosticsJson (analyze name text).diagnostics := by
  have hanswer {before after : List InputLine} {line : InputLine} {text : String}
      (hlines : lines = before ++ line :: after) (hline : line.command? = some (.open name text)) :
      ∃ id, (Session.fresh.run lines).2[before.length]? =
        some (some ⟨id, .ok (analyze name text).toJson⟩) := by
    obtain ⟨id, hid⟩ := InputLine.exists_answerOn hline (textsAfter before)
    refine ⟨id, ?_⟩
    rw [(run_fresh lines).1, answersTo, List.getElem?_mapIdx, hlines]
    simp [hid, Command.resultOn]
  constructor
  · rintro ⟨before, line, after, found, id, result, hlines, hline, hafter, hresult, hreturned⟩
    have hfound := textsAfter_eq_some_iff.2 ⟨before, line, after, hlines, hline, hafter⟩
    obtain rfl : text = found := Option.some.inj (htext.symm.trans hfound)
    obtain ⟨id', hid⟩ := hanswer hlines hline
    rw [hid] at hresult
    cases hresult
    exact (Option.some.inj hreturned).symm
  · rintro rfl
    obtain ⟨before, line, after, hlines, hline, hafter⟩ := textsAfter_eq_some_iff.1 htext
    obtain ⟨id, hid⟩ := hanswer hlines hline
    exact ⟨before, line, after, text, id, _, hlines, hline, hafter, hid, rfl⟩

/-- After any lines, for every open document : a client that sends back the diagnostics that
were last returned for the document gets the same actions as one that sends none. One that sends
some of them back gets the actions for these, in their order. -/
theorem answersActions_echoed {lines : List InputLine} {name : String} {document : OpenDocument}
    (hopen : (Session.fresh.run lines).1.documents.get? name = some document)
    (hfits : ∀ d ∈ document.analysis.diagnostics, d.Fits) :
    let session := (Session.fresh.run lines).1
    let found := document.analysis.diagnostics
    let actionsFor := List.filterMap (propose? name document.text.toList)
    (∀ returned, LastReturned lines name returned ↔
      returned = .list (found.map Diagnostic.toJson)) ∧
    session.AnswersActions name none (actionsFor found) ∧
    session.AnswersActions name (some (.list (found.map Diagnostic.toJson))) (actionsFor found) ∧
    ∀ sent : List Json, sent.Sublist (found.map Diagnostic.toJson) → ∃ kept : List Diagnostic,
      kept.Sublist found ∧ sent = kept.map Diagnostic.toJson ∧
      session.AnswersActions name (some (.list sent)) (actionsFor kept) := by
  intro session found actionsFor
  obtain ⟨-, hshows, -⟩ := run_fresh lines
  rw [hshows.documents, Option.map_eq_some_iff] at hopen
  obtain ⟨text, htext, rfl⟩ := hopen
  have hanswers (given : Option (List Diagnostic)) (hgiven : ∀ ds ∈ given, ∀ d ∈ ds, d.Fits) :=
    hshows.answersActions htext hgiven
  refine ⟨fun returned => lastReturned_iff htext, hanswers none nofun,
    hanswers (some found) fun ds hds => by rwa [← Option.some.inj hds], fun sent hsent => ?_⟩
  obtain ⟨kept, hkept, rfl⟩ := List.sublist_map_iff.1 hsent
  exact ⟨kept, hkept, rfl, hanswers (some kept) fun ds hds d hd =>
    hfits d (hkept.subset (Option.some.inj hds ▸ hd))⟩

/-- A call in the old form, opened as a document, and a request for its actions. -/
def oldCall : String := "strlib[upper](x)"

def openOldCall : InputLine := .text "[1, \"open\", [\"a\", \"strlib[upper](x)\"]]".toList

def askForActions : InputLine := .text "[2, \"codeActions\", [\"a\"]]".toList

/-- The call in the old form has one action, whether its diagnostic is sent back or not. -/
theorem answersActions_echoed_oldCall :
    let session := (Session.fresh.run [openOldCall]).1
    let found := (analyze "a" oldCall).diagnostics
    let actions := found.filterMap (propose? "a" oldCall.toList)
    session.documents.get? "a" = some (.ofText "a" oldCall) ∧ (∀ d ∈ found, d.Fits) ∧
      actions.length = 1 ∧
      LastReturned [openOldCall] "a" (.list (found.map Diagnostic.toJson)) ∧
      (session.handle askForActions).2 =
        some ⟨.ofNat 2, .ok (.list (actions.map CodeAction.toJson))⟩ ∧
      session.AnswersActions "a" (some (.list (found.map Diagnostic.toJson))) actions := by
  intro session found actions
  have hopening : openOldCall.command? = some (.open "a" oldCall) := by decide +kernel
  have hopen : session.documents.get? "a" = some (.ofText "a" oldCall) := by
    have htext : textsAfter [openOldCall] "a" = some oldCall :=
      textsAfter_eq_some_iff.2 ⟨[], openOldCall, [], rfl, hopening, by simp⟩
    rw [(run_fresh [openOldCall]).2.1.documents, htext, Option.map_some]
  have hfits : ∀ d ∈ found, d.Fits := fun d hd => Diagnostic.fits_of_mem_diagnose (by decide) hd
  obtain ⟨hreturned, hnone, hall, -⟩ := answersActions_echoed hopen hfits
  refine ⟨hopen, hfits, by decide +kernel, (hreturned _).2 rfl, ?_, hall⟩
  exact hnone.answered askForActions (.ofNat 2) (.list [.text "a"]) rfl
    (.inOrder (by simp) (Or.inl rfl))

end RazenLint
