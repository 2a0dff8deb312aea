import RazenLint.Proofs.Json.Read
import RazenLint.Proofs.Wire.Diagnostic
import RazenLint.Report.Data
import RazenLint.Wire.Analysis
import RazenLint.Wire.Config

/-!
# Exchanged data has a text that can be read

The values of exchanged data can be read from their text : no object has a key twice, the numbers
fit into a word, and nothing is nested deeper than a reader allows. The numbers are within the bits
that they are exchanged in, which `Fits` says for each type.
-/

namespace RazenLint

open Json

variable {levels : Nat}

theorem readable_word32 {n : Nat} (hn : n < 2 ^ 32) : (ofNat n).Readable levels :=
  readable_ofNat (hn.le.trans (by decide))

theorem readable_word64 {n : Nat} (hn : n < 2 ^ 64) : (ofNat n).Readable levels :=
  readable_ofNat (Nat.le_of_lt_succ hn)

theorem readable_texts (l : List String) : (Json.list (l.map text)).Readable (levels + 1) :=
  ⟨levels.succ_pos, readableItems_map fun _ _ => trivial⟩

theorem readableMembers_presentMember {α : Type} (name : String) (value : Option α)
    {encode : α → Json} (h : ∀ a, (encode a).Readable levels) :
    ReadableMembers levels (presentMember name (value.map encode)) := by
  cases value with
  | none => trivial
  | some a => exact ⟨h a, trivial⟩

/-! ## Diagnostics, edits and actions -/

/-- The numbers of an edit have 32 bits. -/
structure TextEdit.Fits (e : TextEdit) : Prop where
  range : e.range.Fits

structure CodeAction.Fits (a : CodeAction) : Prop where
  diagnostics : ∀ d ∈ a.diagnostics, d.Fits
  edit : a.edit.Fits

theorem Position.readable {p : Position} (hp : p.Fits) : p.toJson.Readable (levels + 1) :=
  ⟨levels.succ_pos, by simp, readable_word32 hp.line, readable_word32 hp.character, trivial⟩

theorem Range.readable {r : Range} (hr : r.Fits) : r.toJson.Readable (levels + 2) :=
  ⟨Nat.succ_pos _, by simp, Position.readable hr.start, Position.readable hr.stop, trivial⟩

theorem Diagnostic.readable {d : Diagnostic} (hd : d.Fits) : d.toJson.Readable (levels + 3) :=
  ⟨Nat.succ_pos _, by cases d.fixCode <;> simp [presentMember],
    readableMembers_append.2 ⟨⟨Range.readable hd.range, trivial, trivial, trivial, trivial,
      trivial⟩, readableMembers_presentMember "fixCode" d.fixCode fun _ => trivial⟩⟩

theorem TextEdit.readable {e : TextEdit} (he : e.Fits) : e.toJson.Readable (levels + 3) :=
  ⟨Nat.succ_pos _, by simp, Range.readable he.range, trivial, trivial⟩

theorem CodeAction.readable {a : CodeAction} (ha : a.Fits) : a.toJson.Readable (levels + 5) :=
  ⟨Nat.succ_pos _, by simp, trivial, trivial, trivial,
    ⟨Nat.succ_pos _, readableItems_map fun d hd => Diagnostic.readable (ha.diagnostics d hd)⟩,
    TextEdit.readable ha.edit, trivial⟩

/-! ## Tokens, completion items and configurations -/

/-- The numbers of a token have 32 bits. -/
structure Token.Fits (t : Token) : Prop where
  line : t.line < 2 ^ 32
  startColumn : t.startColumn < 2 ^ 32
  length : t.length < 2 ^ 32
  modifiers : t.modifiers < 2 ^ 32

theorem Token.readable {t : Token} (ht : t.Fits) : t.toJson.Readable (levels + 1) :=
  ⟨levels.succ_pos, by simp, readable_word32 ht.line, readable_word32 ht.startColumn,
    readable_word32 ht.length, trivial, readable_word32 ht.modifiers, trivial⟩

theorem CompletionItem.readable (i : CompletionItem) : i.toJson.Readable (levels + 1) :=
  ⟨levels.succ_pos, by cases i.detail <;> cases i.insertText <;> simp [presentMember],
    readableMembers_append.2 ⟨readableMembers_append.2 ⟨⟨trivial, trivial, trivial⟩,
      readableMembers_presentMember "detail" i.detail fun _ => trivial⟩,
      readableMembers_presentMember "insertText" i.insertText fun _ => trivial⟩⟩

theorem Config.readable (config : Config) : config.toJson.Readable (levels + 2) :=
  ⟨Nat.succ_pos _, by simp, trivial, readable_texts config.extensions,
    readable_texts config.excludedPaths, trivial, trivial⟩

/-! ## Reports -/

/-- The numbers of a diagnostic in a report have 32 bits. -/
structure ReportedDiagnostic.Fits (d : ReportedDiagnostic) : Prop where
  line : d.line < 2 ^ 32
  column : d.column < 2 ^ 32
  endLine : d.endLine < 2 ^ 32
  endColumn : d.endColumn < 2 ^ 32

/-- The counts of a report have 64 bits. -/
structure DataReport.Fits (report : DataReport) : Prop where
  filesScanned : report.filesScanned < 2 ^ 64
  errors : report.errors < 2 ^ 64
  warnings : report.warnings < 2 ^ 64
  diagnostics : ∀ d ∈ report.diagnostics, d.Fits

theorem ReportedDiagnostic.readable {d : ReportedDiagnostic} (hd : d.Fits) :
    d.toJson.Readable (levels + 1) :=
  ⟨levels.succ_pos, by cases d.fix <;> simp [presentMember],
    readableMembers_append.2 ⟨⟨trivial, trivial, trivial, readable_word32 hd.line,
      readable_word32 hd.column, readable_word32 hd.endLine, readable_word32 hd.endColumn, trivial,
      trivial⟩, readableMembers_presentMember "fix" d.fix fun _ => trivial⟩⟩

theorem DataReport.readable {report : DataReport} (h : report.Fits) :
    report.toJson.Readable (levels + 3) := by
  have hskipped : ReadableMembers (levels + 2)
      (filledMember "skipped" (report.skipped.map .text)) := by
    unfold filledMember
    split
    · trivial
    · exact ⟨readable_texts report.skipped, trivial⟩
  have hdiagnostics : ReadableItems (levels + 1)
      (report.diagnostics.map ReportedDiagnostic.toJson) :=
    readableItems_map fun d hd => ReportedDiagnostic.readable (h.diagnostics d hd)
  refine ⟨Nat.succ_pos _, ?_, readableMembers_append.2 ⟨⟨trivial, trivial, trivial,
    readable_word64 h.filesScanned, readable_word64 h.errors, readable_word64 h.warnings,
    ⟨Nat.succ_pos _, hdiagnostics⟩, trivial⟩, hskipped⟩⟩
  unfold filledMember
  split <;> simp

end RazenLint
