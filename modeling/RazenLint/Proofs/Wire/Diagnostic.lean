import RazenLint.Proofs.Json.Decode
import RazenLint.Wire.Diagnostic

/-!
# Diagnostics are read back

A diagnostic whose lines and characters have 32 bits (`Diagnostic.Fits`) is read from its value,
in whatever order the members of the value stand (`Diagnostic.reads`).
-/

namespace RazenLint

open Json

/-! ## Members that may be left out -/

@[simp] theorem lookup_presentMember (name : String) (value : Option Json) (other : String) :
    (presentMember name value).lookup other = if other = name then value else none := by
  cases value with
  | none => exact (ite_self none).symm
  | some content => exact Table.get?_cons name content [] other

/-! ## Places -/

/-- The numbers of a position have 32 bits. -/
structure Position.Fits (p : Position) : Prop where
  line : p.line < 2 ^ 32
  character : p.character < 2 ^ 32

structure Range.Fits (r : Range) : Prop where
  start : r.start.Fits
  stop : r.stop.Fits

theorem Position.reads {p : Position} (hp : p.Fits) : Reads Position.ofJson p.toJson p := by
  intro j hj
  obtain ⟨record, hrecord, h⟩ := hj.exists_asRecord recordType
  have hline := h.field_eq_ok "line" (by simp [recordType]) rfl (reads_word32 hp.line)
  have hcharacter := h.field_eq_ok "character" (by simp [recordType]) rfl
    (reads_word32 hp.character)
  rw [Position.ofJson, hrecord]
  simp [hline, hcharacter, Record.firstProblem_eq_ok, h.finish]

theorem Range.reads {r : Range} (hr : r.Fits) : Reads Range.ofJson r.toJson r := by
  intro j hj
  obtain ⟨record, hrecord, h⟩ := hj.exists_asRecord recordType
  have hstart := h.field_eq_ok "start" (by simp [recordType]) rfl (Position.reads hr.start)
  have hstop := h.field_eq_ok "end" (by simp [recordType]) rfl (Position.reads hr.stop)
  rw [Range.ofJson, hrecord]
  simp [hstart, hstop, Record.firstProblem_eq_ok, h.finish]

theorem Severity.reads (severity : Severity) : Reads Severity.ofJson severity.toJson severity :=
  reads_variant (by cases severity <;> decide) fun other => by
    cases severity <;> cases other <;> decide

theorem Rule.reads (rule : Rule) : Reads Rule.ofJson rule.toJson rule :=
  reads_variant (by cases rule <;> decide) fun other => by
    cases rule <;> cases other <;> decide

theorem FixCode.reads (code : FixCode) : Reads FixCode.ofJson code.toJson code :=
  reads_variant (by cases code; decide) fun other => by
    cases code; cases other; decide

structure Diagnostic.Fits (d : Diagnostic) : Prop where
  range : d.range.Fits

theorem Diagnostic.member?_fixCode (d : Diagnostic) :
    d.toJson.member? "fixCode" = d.fixCode.map FixCode.toJson := by
  simp [toJson, member?, List.lookup_cons]

theorem Diagnostic.reads {d : Diagnostic} (hd : d.Fits) :
    Reads Diagnostic.ofJson d.toJson d := by
  intro j hj
  obtain ⟨record, hrecord, h⟩ := hj.exists_asRecord recordType
  have hrange := h.field_eq_ok "range" (by simp [recordType]) rfl (Range.reads hd.range)
  have hseverity := h.field_eq_ok "severity" (by simp [recordType]) rfl (Severity.reads d.severity)
  have hmessage := h.field_eq_ok "message" (by simp [recordType]) rfl (reads_text d.message)
  have hsource := h.field_eq_ok "source" (by simp [recordType]) rfl (reads_text d.source)
  have hrule := h.field_eq_ok "code" (by simp [recordType]) rfl (Rule.reads d.rule)
  have hfix := h.field_eq_map "fixCode" (by simp [recordType])
    d.member?_fixCode FixCode.reads fun _ => nofun
  rw [Diagnostic.ofJson, hrecord]
  simp [hrange, hseverity, hmessage, hsource, hrule, hfix, Record.firstProblem_eq_ok, h.finish]

end RazenLint
