import Mathlib.Data.List.Induction
import RazenLint.Proofs.Table
import RazenLint.Session.State

/-!
# What a session remembers

A session is a state that lines drive from one to the next (`Session.run`). All that it
remembers of the lines before is the last text of every open document, `textsAfter` :
the analysis that it keeps is the one of that text, and the answer to a line is found
from the texts alone (`InputLine.answerOn`). `Session.Shows` is the relation between a
session and the texts, `Session.Shows.handle` says that every line keeps it, and
`run_fresh_shows` what this gives for a whole run.

`LastOpened` says in terms of the lines which texts are remembered : a document is open
with the text of its last opening, when neither a closing of the document nor the end of
the session came after it.
-/

namespace RazenLint

open Text

/-- A line as it reaches a session, as text or as bytes. -/
inductive InputLine where
  | text (line : List Char)
  | bytes (line : List UInt8)

/-- What a line holds. -/
inductive LineContent where
  | blank
  | problem (reason : ProtocolError)
  | request (request : Request)

namespace LineContent

/-- What a line of text holds. -/
def ofText (line : List Char) : LineContent :=
  if (trim line).isEmpty then blank
  else
    match Request.ofLine (trim line) with
    | .ok found => request found
    | .error reason => problem (.malformed reason)

/-- The command that is asked for, where the parameters are those of the method. -/
def command? : LineContent → Option Command
  | request found => (Command.ofRequest found).toOption
  | _ => none

end LineContent

namespace InputLine

def content : InputLine → LineContent
  | text line => .ofText line
  | bytes line =>
    match decodeUtf8 line with
    | .ok line => .ofText line
    | .error reason => .problem (.notUtf8 reason)

/-- The command that a line gives. A line that is no request, or asks for something
unknown, gives none. -/
def command? (line : InputLine) : Option Command :=
  line.content.command?

end InputLine

/-! ## Runs -/

namespace Session

def handle (session : Session) : InputLine → Session × Option Response
  | .text line => session.handleLine line
  | .bytes line => session.handleBytes line

/-- The session after some lines, and the answers to them. -/
def run (session : Session) : List InputLine → Session × List (Option Response)
  | [] => (session, [])
  | line :: rest =>
    let (next, response) := session.handle line
    let (final, responses) := next.run rest
    (final, response :: responses)

theorem handleLine_eq (session : Session) (line : List Char) :
    session.handleLine line = match LineContent.ofText line with
      | .blank => (session, none)
      | .problem reason => (session, some ⟨.null, .error reason⟩)
      | .request request => ((session.answer request).1, some (session.answer request).2) := by
  unfold handleLine LineContent.ofText
  dsimp only
  split
  · rfl
  · cases Request.ofLine (trim line) <;> rfl

/-- A line is handled by what it holds. -/
theorem handle_eq (session : Session) (line : InputLine) :
    session.handle line = match line.content with
      | .blank => (session, none)
      | .problem reason => (session, some ⟨.null, .error reason⟩)
      | .request request => ((session.answer request).1, some (session.answer request).2) := by
  cases line with
  | text line => exact session.handleLine_eq line
  | bytes line =>
    rw [handle, handleBytes, InputLine.content]
    cases decodeUtf8 line with
    | ok line => exact session.handleLine_eq line
    | error reason => rfl

theorem run_cons (session : Session) (line : InputLine) (rest : List InputLine) :
    session.run (line :: rest) = (((session.handle line).1.run rest).1,
      (session.handle line).2 :: ((session.handle line).1.run rest).2) :=
  rfl

theorem run_append (session : Session) (lines more : List InputLine) :
    session.run (lines ++ more) = (((session.run lines).1.run more).1,
      (session.run lines).2 ++ ((session.run lines).1.run more).2) := by
  induction lines generalizing session with
  | nil => rfl
  | cons line rest ih => rw [List.cons_append, run_cons, ih, run_cons]; rfl

end Session

/-! ## Texts in place of a session -/

/-- The texts of the open documents under their names. -/
abbrev OpenTexts := String → Option String

namespace OpenTexts

/-- The text of a document, which has to be open. -/
def find (texts : OpenTexts) (name : String) : Except ProtocolError String :=
  match texts name with
  | some text => .ok text
  | none => .error (.unknownDocument name)

end OpenTexts

namespace Command

/-- The result of a command, from the texts of the open documents. -/
def resultOn (texts : OpenTexts) : Command → Except ProtocolError Json
  | .open name text => .ok (analyze name text).toJson
  | .tokens name => do
    let text ← texts.find name
    return .list ((analyze name text).tokens.map Token.toJson)
  | .codeActions name diagnostics => do
    let text ← texts.find name
    let actions :=
      RazenLint.codeActions name text.toList (diagnostics.getD (analyze name text).diagnostics)
    return .list (actions.map CodeAction.toJson)
  | .completion name position => do
    let text ← texts.find name
    return .list ((complete text.toList position).map CompletionItem.toJson)
  | .close name => .ok (.bool (texts name).isSome)
  | .shutdown => .ok .null

/-- The texts after a command. -/
def textsAfter (texts : OpenTexts) : Command → OpenTexts
  | .open name text => fun other => if other = name then some text else texts other
  | .close name => fun other => if other = name then none else texts other
  | .shutdown => fun _ => none
  | .tokens _ | .codeActions _ _ | .completion _ _ => texts

end Command

/-- The texts after a line that holds the given. -/
def LineContent.textsAfter (texts : OpenTexts) (content : LineContent) : OpenTexts :=
  match content.command? with
  | some command => command.textsAfter texts
  | none => texts

namespace InputLine

/-- The answer to a line, from the texts of the open documents. -/
def answerOn (texts : OpenTexts) (line : InputLine) : Option Response :=
  match line.content with
  | .blank => none
  | .problem reason => some ⟨.null, .error reason⟩
  | .request request =>
    some ⟨request.id, (Command.ofRequest request).bind (Command.resultOn texts)⟩

/-- The texts after a line. -/
def textsAfter (texts : OpenTexts) (line : InputLine) : OpenTexts :=
  line.content.textsAfter texts

end InputLine

/-- The texts of the open documents after some lines. -/
def textsAfter (lines : List InputLine) : OpenTexts :=
  lines.foldl InputLine.textsAfter fun _ => none

/-! ## A session shows its texts -/

/-- A document that was opened with a text. -/
def OpenDocument.ofText (name text : String) : OpenDocument :=
  ⟨text, analyze name text⟩

/-- A session that knows the given texts and nothing else : of each text it keeps the
analysis. -/
structure Session.Shows (session : Session) (texts : OpenTexts) : Prop where
  documents : ∀ name,
    session.documents.get? name = (texts name).map (OpenDocument.ofText name)
  sorted : session.documents.Sorted

namespace Session.Shows

variable {session : Session} {texts : OpenTexts}

theorem document (h : session.Shows texts) (name : String) :
    session.document name = (texts.find name).map (OpenDocument.ofText name) := by
  rw [Session.document, h.documents, OpenTexts.find]
  cases texts name <;> rfl

/-- A command gives what the texts give, and changes them as it should. A command that
fails leaves the session as it was, and only one command marks it as ended. -/
theorem perform (h : session.Shows texts) (command : Command) : ∃ next,
    session.perform command = (command.resultOn texts).map (fun result => (next, result)) ∧
      next.Shows (command.textsAfter texts) ∧
      (next.isShutDown = true ↔ session.isShutDown = true ∨ command = .shutdown) ∧
      ∀ reason, command.resultOn texts = .error reason → next = session := by
  cases command with
  | «open» name text =>
    refine ⟨_, rfl, ⟨fun other => ?_, h.sorted.insert name _⟩, by simp, by simp [Command.resultOn]⟩
    rw [Table.get?_insert, h.documents]
    simp only [Command.textsAfter]
    split
    · rename_i heq
      rw [heq]
      rfl
    · rfl
  | tokens name =>
    refine ⟨session, ?_, h, by simp, fun _ _ => rfl⟩
    rw [Session.perform, h.document, Command.resultOn]
    cases texts.find name <;> rfl
  | codeActions name diagnostics =>
    refine ⟨session, ?_, h, by simp, fun _ _ => rfl⟩
    rw [Session.perform, h.document, Command.resultOn]
    cases texts.find name <;> rfl
  | completion name position =>
    refine ⟨session, ?_, h, by simp, fun _ _ => rfl⟩
    rw [Session.perform, h.document, Command.resultOn]
    cases texts.find name <;> rfl
  | close name =>
    refine ⟨{ session with documents := session.documents.erase name }, ?_,
      ⟨fun other => ?_, h.sorted.erase name⟩, by simp, by simp [Command.resultOn]⟩
    · rw [Session.perform, h.documents, Option.isSome_map]
      rfl
    · rw [Table.get?_erase, h.documents]
      simp only [Command.textsAfter]
      split <;> rfl
  | shutdown =>
    exact ⟨⟨[], true⟩, rfl, ⟨fun _ => rfl, Table.sorted_nil⟩, by simp, by simp [Command.resultOn]⟩

/-- A request is answered as the texts say, and changes them as it should. -/
theorem answer (h : session.Shows texts) (request : Request) :
    (session.answer request).2 =
        ⟨request.id, (Command.ofRequest request).bind (Command.resultOn texts)⟩ ∧
      (session.answer request).1.Shows ((LineContent.request request).textsAfter texts) ∧
      ((session.answer request).1.isShutDown = true ↔ session.isShutDown = true ∨
        (LineContent.request request).command? = some .shutdown) := by
  rw [Session.answer, LineContent.textsAfter, LineContent.command?]
  cases Command.ofRequest request with
  | error reason => exact ⟨rfl, h, by simp [bind, Except.bind, Except.toOption]⟩
  | ok command =>
    obtain ⟨next, hperform, hshows, hdown, hfail⟩ := h.perform command
    simp only [bind, Except.bind, Except.toOption, hperform, Option.some.injEq]
    cases hresult : command.resultOn texts with
    | ok result => exact ⟨rfl, hshows, hdown⟩
    | error reason =>
      rw [hfail reason hresult] at hshows hdown
      exact ⟨rfl, hshows, hdown⟩

/-- A line is answered as the texts say, and changes them as it should. -/
theorem handle (h : session.Shows texts) (line : InputLine) :
    (session.handle line).2 = line.answerOn texts ∧
      (session.handle line).1.Shows (line.textsAfter texts) ∧
      ((session.handle line).1.isShutDown = true ↔
        session.isShutDown = true ∨ line.command? = some .shutdown) := by
  rw [Session.handle_eq, InputLine.answerOn, InputLine.textsAfter, InputLine.command?]
  cases line.content with
  | blank => exact ⟨rfl, h, by simp [LineContent.command?]⟩
  | problem reason => exact ⟨rfl, h, by simp [LineContent.command?]⟩
  | request request =>
    obtain ⟨hanswer, hshows, hdown⟩ := h.answer request
    exact ⟨congrArg some hanswer, hshows, hdown⟩

end Session.Shows

theorem shows_fresh : Session.fresh.Shows fun _ => none :=
  ⟨fun _ => rfl, Table.sorted_nil⟩

/-! ## Runs on texts -/

theorem textsAfter_concat (lines : List InputLine) (line : InputLine) :
    textsAfter (lines ++ [line]) = line.textsAfter (textsAfter lines) := by
  rw [textsAfter, List.foldl_append]
  rfl

/-- The answers to some lines, each from the texts after the lines before it. -/
def answersTo (lines : List InputLine) : List (Option Response) :=
  lines.mapIdx fun i line => line.answerOn (textsAfter (lines.take i))

theorem answersTo_concat (lines : List InputLine) (line : InputLine) :
    answersTo (lines ++ [line]) = answersTo lines ++ [line.answerOn (textsAfter lines)] := by
  rw [answersTo, answersTo, List.mapIdx_append]
  congr 1
  · refine List.ext_getElem? fun i => ?_
    rw [List.getElem?_mapIdx, List.getElem?_mapIdx]
    cases h : lines[i]? with
    | none => rfl
    | some found =>
      obtain ⟨hi, -⟩ := List.getElem?_eq_some_iff.1 h
      rw [List.take_append_of_le_length hi.le]
  · simp

/-- A run from the fresh session gives the answers that the texts give, and shows the
texts at its end. -/
theorem run_fresh (lines : List InputLine) :
    (Session.fresh.run lines).2 = answersTo lines ∧
      (Session.fresh.run lines).1.Shows (textsAfter lines) ∧
      ((Session.fresh.run lines).1.isShutDown = true ↔
        ∃ line ∈ lines, line.command? = some .shutdown) := by
  induction lines using List.reverseRecOn with
  | nil => exact ⟨rfl, shows_fresh, by simp [Session.run, Session.fresh]⟩
  | append_singleton lines line ih =>
    obtain ⟨hanswers, hshows, hdown⟩ := ih
    obtain ⟨hanswer, hnext, hflag⟩ := hshows.handle line
    rw [Session.run_append, Session.run_cons, answersTo_concat, textsAfter_concat]
    refine ⟨?_, hnext, ?_⟩
    · rw [hanswers, hanswer]
      rfl
    · simp only [Session.run, hflag, hdown, List.mem_append, List.mem_singleton, or_and_right,
        exists_or, exists_eq_left]

/-! ## Which texts are remembered -/

/-- Whether a command decides if a document is open from then on. -/
def Command.Settles (name : String) : Command → Prop
  | .open other _ | .close other => other = name
  | .shutdown => True
  | .tokens _ | .codeActions _ _ | .completion _ _ => False

/-- A line after which a document is open, or is not, whatever was before. -/
def InputLine.Settles (name : String) (line : InputLine) : Prop :=
  ∃ command, line.command? = some command ∧ command.Settles name

/-- A document was opened with a text, and no later line opened it again, closed it or
ended the session. Which requests do so is said by `InputLine.opens_iff` and
`InputLine.settles_iff`. -/
def LastOpened (lines : List InputLine) (name text : String) : Prop :=
  ∃ before line after, lines = before ++ line :: after ∧
    line.command? = some (.open name text) ∧ ∀ later ∈ after, ¬later.Settles name

theorem lastOpened_concat_iff {lines : List InputLine} {line : InputLine} {name text : String} :
    LastOpened (lines ++ [line]) name text ↔ line.command? = some (.open name text) ∨
      ¬line.Settles name ∧ LastOpened lines name text := by
  constructor
  · rintro ⟨before, opening, after, hlines, hopening, hafter⟩
    rcases List.eq_nil_or_concat after with rfl | ⟨after, last, rfl⟩
    · obtain ⟨-, hlast⟩ := List.append_inj' hlines rfl
      rw [List.singleton_inj.1 hlast]
      exact Or.inl hopening
    · rw [List.concat_eq_append] at hlines hafter
      rw [← List.cons_append, ← List.append_assoc] at hlines
      obtain ⟨hinit, hlast⟩ := List.append_inj' hlines rfl
      obtain rfl := List.singleton_inj.1 hlast
      exact Or.inr ⟨hafter line (by simp), before, opening, after, hinit, hopening,
        fun later hlater => hafter later (by simp [hlater])⟩
  · rintro (hopening | ⟨hline, before, opening, after, rfl, hopening, hafter⟩)
    · exact ⟨lines, line, [], rfl, hopening, by simp⟩
    · refine ⟨before, opening, after ++ [line], by simp, hopening, fun later hlater => ?_⟩
      rcases List.mem_append.1 hlater with hlater | hlater
      · exact hafter later hlater
      · rw [List.mem_singleton.1 hlater]
        exact hline

namespace Command

variable {texts : OpenTexts} {command : Command} {name : String}

theorem textsAfter_of_not_settles (h : ¬command.Settles name) :
    command.textsAfter texts name = texts name := by
  cases command with
  | «open» other text => exact if_neg fun heq => h heq.symm
  | close other => exact if_neg fun heq => h heq.symm
  | shutdown => exact absurd trivial h
  | tokens other => rfl
  | codeActions other diagnostics => rfl
  | completion other position => rfl

theorem textsAfter_of_settles (h : command.Settles name) {text : String} :
    command.textsAfter texts name = some text ↔ command = .open name text := by
  cases command with
  | «open» other found =>
    obtain rfl : other = name := h
    simp [textsAfter]
  | close other =>
    obtain rfl : other = name := h
    simp [textsAfter]
  | shutdown => simp [textsAfter]
  | tokens other => exact h.elim
  | codeActions other diagnostics => exact h.elim
  | completion other position => exact h.elim

end Command

/-- The texts that are remembered are those of the last openings. -/
theorem textsAfter_eq_some_iff {lines : List InputLine} {name text : String} :
    textsAfter lines name = some text ↔ LastOpened lines name text := by
  induction lines using List.reverseRecOn with
  | nil =>
    constructor
    · intro h
      exact absurd h (by simp [textsAfter])
    · rintro ⟨before, line, after, hnil, -⟩
      simp at hnil
  | append_singleton lines line ih =>
    rw [textsAfter_concat, lastOpened_concat_iff, InputLine.textsAfter, LineContent.textsAfter,
      ← InputLine.command?]
    cases hcommand : line.command? with
    | none =>
      have hline : ¬line.Settles name := fun ⟨command, h, _⟩ => by simp [hcommand] at h
      simpa [hline] using ih
    | some command =>
      have hiff : line.Settles name ↔ command.Settles name := by
        simp [InputLine.Settles, hcommand]
      by_cases hsettles : command.Settles name
      · simp [Command.textsAfter_of_settles hsettles, hiff, hsettles]
      · have hne : command ≠ .open name text := by
          rintro rfl
          exact hsettles rfl
        simp [Command.textsAfter_of_not_settles hsettles, hiff, hsettles, ih, hne]

end RazenLint
