import RazenLint.Proofs.Diagnostic
import RazenLint.Proofs.Event.Reading
import RazenLint.Proofs.Text.Line

/-!
# Events in other places

The places in an event can be moved without a change to what the event says
(`Event.mapSpans`), and its findings move with them (`Event.orderedFindings_mapSpans`).
The events of lines that stand further down are those of the lines where they stood,
moved down (`eventsFrom_add`).
-/

namespace RazenLint

open Text

/-! ## Moving places -/

section

variable (f : Span → Span)

def Declaration.mapSpans (d : Declaration) : Declaration :=
  { d with nameSpan := f d.nameSpan, statementSpan := f d.statementSpan }

def Import.mapSpans (i : Import) : Import :=
  { i with span := f i.span }

def LibraryCall.mapSpans (c : LibraryCall) : LibraryCall :=
  { c with
    librarySpan := f c.librarySpan, functionSpan := f c.functionSpan, callSpan := f c.callSpan }

/-- An event that says the same in other places. -/
def Event.mapSpans : Event → Event
  | declaration d => declaration (d.mapSpans f)
  | imported i => imported (i.mapSpans f)
  | call c => call (c.mapSpans f)

/-- A finding in another place. -/
def Finding.mapSpan : Finding → Finding
  | unknownImport name span => unknownImport name (f span)
  | unknownLibrary library span => unknownLibrary library (f span)
  | unknownFunction library function span => unknownFunction library function (f span)
  | kindMismatch name keyword kind shape span => kindMismatch name keyword kind shape (f span)
  | returnMismatch name keyword kind library function result span =>
    returnMismatch name keyword kind library function result (f span)
  | deprecatedCall library function replacement span =>
    deprecatedCall library function replacement (f span)

theorem Declaration.findings_mapSpans (d : Declaration) :
    (d.mapSpans f).findings = d.findings.map (Finding.mapSpan f) := by
  unfold findings mapSpans
  cases d.call with
  | none => dsimp only; split <;> rfl
  | some call =>
    dsimp only
    split
    · rfl
    · cases call.result? with
      | none => rfl
      | some found => dsimp only; split <;> rfl

theorem Import.findings_mapSpans (i : Import) :
    (i.mapSpans f).findings = i.findings.map (Finding.mapSpan f) := by
  unfold findings mapSpans
  dsimp only
  split <;> rfl

theorem LibraryCall.orderedFindings_mapSpans (c : LibraryCall) :
    (c.mapSpans f).orderedFindings = c.orderedFindings.map (Finding.mapSpan f) := by
  unfold orderedFindings mapSpans
  dsimp only
  cases Library.resolve? c.library with
  | none => dsimp only; split <;> rfl
  | some library =>
    dsimp only
    rw [List.map_append]
    congr 1 <;> split <;> rfl

/-- The findings of an event move with it. -/
theorem Event.orderedFindings_mapSpans (e : Event) :
    (e.mapSpans f).orderedFindings = e.orderedFindings.map (Finding.mapSpan f) := by
  cases e with
  | declaration d => exact d.findings_mapSpans f
  | imported i => exact i.findings_mapSpans f
  | call c => exact c.orderedFindings_mapSpans f

end

/-! ## Lines further down -/

theorem callsOfLine_add (index distance : Nat) (line : List Char) (bound : Option Nat) :
    callsOfLine (index + distance) line bound =
      (callsOfLine index line bound).map (LibraryCall.mapSpans (·.shift distance)) := by
  rw [callsOfLine, callsOfLine, List.map_map]
  rfl

theorem eventsOfLine_add (index distance : Nat) (line : List Char) :
    eventsOfLine (index + distance) line =
      (eventsOfLine index line).map (Event.mapSpans (·.shift distance)) := by
  have hcalls : ∀ bound, (callsOfLine (index + distance) line bound).map Event.call =
      ((callsOfLine index line bound).map Event.call).map
        (Event.mapSpans (·.shift distance)) := by
    intro bound
    rw [callsOfLine_add, List.map_map, List.map_map]
    rfl
  rw [eventsOfLine_eq, eventsOfLine_eq]
  cases hassignment : assignment? (code line) with
  | none =>
    dsimp only
    rw [hcalls, List.map_append]
    congr 1
    rw [List.map_map]
    rfl
  | some assignment =>
    dsimp only
    rw [hcalls, List.map_cons]
    rfl

/-- The events of lines that stand further down. -/
theorem eventsFrom_add (distance : Nat) : ∀ (index : Nat) (lines : List (List Char)),
    eventsFrom (index + distance) lines =
      (eventsFrom index lines).map (Event.mapSpans (·.shift distance))
  | _, [] => rfl
  | index, line :: rest => by
    rw [eventsFrom, eventsFrom, eventsOfLine_add, Nat.add_right_comm, eventsFrom_add,
      List.map_append]

/-- The events of a text behind complete lines. -/
theorem events_append {front : List Char} (h : EndsLine front) (back : List Char) :
    events (front ++ back) =
      events front ++ (events back).map (Event.mapSpans (·.shift (lines front).length)) := by
  rw [events, lines_append h, eventsFrom_append, eventsFrom_add]
  rfl

end RazenLint
