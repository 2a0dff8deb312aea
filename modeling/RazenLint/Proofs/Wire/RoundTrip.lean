import RazenLint.Proofs.Wire.Readable

/-!
# Exchanged data is read back

Whatever is written as a value is read back from it and from its text, and different things are
written in different ways (`wire_roundTrips`). What is absent, or an empty list of skipped files,
leaves no member behind.
-/

namespace RazenLint

open Json

/-! ## Edits, actions and tokens -/

theorem TextEdit.reads {e : TextEdit} (he : e.Fits) : Reads TextEdit.ofJson e.toJson e := by
  intro j hj
  obtain ⟨record, hrecord, h⟩ := hj.exists_asRecord recordType
  have hrange := h.field_eq_ok "range" (by simp [recordType]) rfl (Range.reads he.range)
  have hnewText := h.field_eq_ok "newText" (by simp [recordType]) rfl (reads_text e.newText)
  rw [TextEdit.ofJson, hrecord]
  simp [hrange, hnewText, Record.firstProblem_eq_ok, h.finish]

theorem CodeAction.reads {a : CodeAction} (ha : a.Fits) :
    Reads CodeAction.ofJson a.toJson a := by
  intro j hj
  obtain ⟨record, hrecord, h⟩ := hj.exists_asRecord recordType
  have htitle := h.field_eq_ok "title" (by simp [recordType]) rfl (reads_text a.title)
  have hkind := h.field_eq_ok "kind" (by simp [recordType]) rfl (reads_text a.kind)
  have hdocument := h.field_eq_ok "document" (by simp [recordType]) rfl (reads_text a.document)
  have hdiagnostics := h.field_eq_ok "diagnostics" (by simp [recordType]) rfl
    (reads_list fun d hd => Diagnostic.reads (ha.diagnostics d hd))
  have hedit := h.field_eq_ok "edit" (by simp [recordType]) rfl (TextEdit.reads ha.edit)
  rw [CodeAction.ofJson, hrecord]
  simp [htitle, hkind, hdocument, hdiagnostics, hedit, Record.firstProblem_eq_ok, h.finish]

theorem TokenCategory.reads (category : TokenCategory) :
    Json.Reads TokenCategory.ofJson (.text category.name) category :=
  reads_variant (by cases category <;> decide) fun other => by
    cases category <;> cases other <;> decide

theorem Token.reads {t : Token} (ht : t.Fits) : Reads Token.ofJson t.toJson t := by
  intro j hj
  obtain ⟨record, hrecord, h⟩ := hj.exists_asRecord recordType
  have hline := h.field_eq_ok "line" (by simp [recordType]) rfl (reads_word32 ht.line)
  have hstart := h.field_eq_ok "startCol" (by simp [recordType]) rfl (reads_word32 ht.startColumn)
  have hlength := h.field_eq_ok "length" (by simp [recordType]) rfl (reads_word32 ht.length)
  have hcategory := h.field_eq_ok "tokenType" (by simp [recordType]) rfl
    (TokenCategory.reads t.category)
  have hmodifiers := h.field_eq_ok "tokenModifiers" (by simp [recordType]) rfl
    (reads_word32 ht.modifiers)
  rw [Token.ofJson, hrecord]
  simp [hline, hstart, hlength, hcategory, hmodifiers, Record.firstProblem_eq_ok, h.finish]

/-! ## Completion items -/

theorem CompletionKind.reads (kind : CompletionKind) :
    Reads CompletionKind.ofJson (.text kind.name) kind :=
  reads_variant (by cases kind <;> decide) fun other => by
    cases kind <;> cases other <;> decide

theorem CompletionItem.member?_detail (i : CompletionItem) :
    i.toJson.member? "detail" = i.detail.map text := by
  simp [toJson, member?, List.lookup_cons, List.lookup_append]

theorem CompletionItem.member?_insertText (i : CompletionItem) :
    i.toJson.member? "insertText" = i.insertText.map text := by
  simp [toJson, member?, List.lookup_cons, List.lookup_append]

theorem CompletionItem.reads (i : CompletionItem) : Reads CompletionItem.ofJson i.toJson i := by
  intro j hj
  obtain ⟨record, hrecord, h⟩ := hj.exists_asRecord recordType
  have hlabel := h.field_eq_ok "label" (by simp [recordType]) rfl (reads_text i.label)
  have hkind := h.field_eq_ok "kind" (by simp [recordType]) rfl (CompletionKind.reads i.kind)
  have hdetail := h.field_eq_map "detail" (by simp [recordType]) i.member?_detail reads_text
    fun _ => nofun
  have hinsert := h.field_eq_map "insertText" (by simp [recordType]) i.member?_insertText
    reads_text fun _ => nofun
  rw [CompletionItem.ofJson, hrecord]
  simp [hlabel, hkind, hdetail, hinsert, Record.firstProblem_eq_ok, h.finish]

/-! ## Configurations -/

theorem reads_texts (l : List String) : Reads (asList asText) (.list (l.map text)) l :=
  reads_list fun s _ => reads_text s

theorem Config.reads (config : Config) : Reads Config.ofJson config.toJson config := by
  intro j hj
  obtain ⟨record, hrecord, h⟩ := hj.exists_asRecord recordType
  have hversion := h.field_eq_ok "version" (by simp [recordType]) rfl (reads_text config.version)
  have hextensions := h.field_eq_ok "extensions" (by simp [recordType]) rfl
    (reads_texts config.extensions)
  have hexcluded := h.field_eq_ok "excluded_paths" (by simp [recordType]) rfl
    (reads_texts config.excludedPaths)
  have hfail := h.field_eq_ok "fail_on_warnings" (by simp [recordType]) rfl
    (reads_bool config.failOnWarnings)
  rw [Config.ofJson, hrecord]
  simp [hversion, hextensions, hexcluded, hfail, Record.firstProblem_eq_ok, h.finish]

/-! ## Reports -/

theorem ReportedDiagnostic.member?_fix (d : ReportedDiagnostic) :
    d.toJson.member? "fix" = d.fix.map text := by
  simp [toJson, member?, List.lookup_cons]

theorem ReportedDiagnostic.reads {d : ReportedDiagnostic} (hd : d.Fits) :
    Reads ReportedDiagnostic.ofJson d.toJson d := by
  intro j hj
  obtain ⟨record, hrecord, h⟩ := hj.exists_asRecord recordType
  have hrule := h.field_eq_ok "rule" (by simp [recordType]) rfl (reads_text d.rule)
  have hseverity := h.field_eq_ok "severity" (by simp [recordType]) rfl (reads_text d.severity)
  have hfile := h.field_eq_ok "file" (by simp [recordType]) rfl (reads_text d.file)
  have hline := h.field_eq_ok "line" (by simp [recordType]) rfl (reads_word32 hd.line)
  have hcolumn := h.field_eq_ok "column" (by simp [recordType]) rfl (reads_word32 hd.column)
  have hendLine := h.field_eq_ok "end_line" (by simp [recordType]) rfl (reads_word32 hd.endLine)
  have hendColumn := h.field_eq_ok "end_column" (by simp [recordType]) rfl
    (reads_word32 hd.endColumn)
  have hmessage := h.field_eq_ok "message" (by simp [recordType]) rfl (reads_text d.message)
  have hfix := h.field_eq_map "fix" (by simp [recordType]) d.member?_fix reads_text fun _ => nofun
  rw [ReportedDiagnostic.ofJson, hrecord]
  simp [hrule, hseverity, hfile, hline, hcolumn, hendLine, hendColumn, hmessage, hfix,
    Record.firstProblem_eq_ok, h.finish]

theorem DataReport.member?_skipped (report : DataReport) :
    report.toJson.member? "skipped" =
      if report.skipped = [] then none else some (.list (report.skipped.map .text)) := by
  cases hskipped : report.skipped <;>
    simp [toJson, member?, List.lookup_cons, filledMember, hskipped]

theorem DataReport.reads {report : DataReport} (hreport : report.Fits) :
    Reads DataReport.ofJson report.toJson report := by
  intro j hj
  obtain ⟨record, hrecord, h⟩ := hj.exists_asRecord recordType
  have hversion := h.field_eq_ok "version" (by simp [recordType]) rfl (reads_text report.version)
  have hpath := h.field_eq_ok "path" (by simp [recordType]) rfl (reads_text report.path)
  have hpassed := h.field_eq_ok "passed" (by simp [recordType]) rfl (reads_bool report.passed)
  have hscanned := h.field_eq_ok "files_scanned" (by simp [recordType]) rfl
    (reads_word64 hreport.filesScanned)
  have herrors := h.field_eq_ok "errors" (by simp [recordType]) rfl (reads_word64 hreport.errors)
  have hwarnings := h.field_eq_ok "warnings" (by simp [recordType]) rfl
    (reads_word64 hreport.warnings)
  have hdiagnostics := h.field_eq_ok "diagnostics" (by simp [recordType]) rfl
    (reads_list fun d hd => ReportedDiagnostic.reads (hreport.diagnostics d hd))
  rw [DataReport.ofJson, hrecord]
  by_cases hempty : report.skipped = []
  · have hskipped : record.field "skipped" (asList asText) = none :=
      h.field_eq_none "skipped" (by simp [recordType])
        (report.member?_skipped.trans (if_pos hempty))
    simp [hversion, hpath, hpassed, hscanned, herrors, hwarnings, hdiagnostics, hskipped,
      Record.firstProblem_eq_ok, h.finish, ← hempty]
  · have hskipped := h.field_eq_ok "skipped" (by simp [recordType])
      (report.member?_skipped.trans (if_neg hempty)) (reads_texts report.skipped)
    simp [hversion, hpath, hpassed, hscanned, herrors, hwarnings, hdiagnostics, hskipped,
      Record.firstProblem_eq_ok, h.finish]

/-! ## All exchanged data -/

/-- The texts of a value : on one line with the members in their own order or sorted, or on
several lines. -/
def Json.IsText (j : Json) (text : String) : Prop :=
  text = j.compact ∨ text = j.sorted.compact ∨ text = j.pretty

theorem Json.ofText_of_isText {j : Json} (h : j.Readable (maxDepth - 1)) {text : String}
    (htext : j.IsText text) : ofText text.toList = .ok j.sorted := by
  rcases htext with rfl | rfl | rfl
  · exact ofText_compact h
  · rw [ofText_compact h.sorted, sorted_sorted]
  · have hread := ofText_pretty h (List.forall_mem_nil _)
    rwa [List.append_nil] at hread

/-- Everything that fits is read back from its value, in whatever order the members of the
value stand, and from the texts of the value. Different things have different values, and no
text in common. -/
structure RoundTrips {α : Type} (Fits : α → Prop) (encode : α → Json) (decode : Json → Decoded α) :
    Prop where
  reads : ∀ a, Fits a → Reads decode (encode a) a
  readsText : ∀ a, Fits a → ∀ text, (encode a).IsText text →
    ∃ j, ofText text.toList = .ok j ∧ decode j = .ok a
  distinct : ∀ a b, Fits a → Fits b → (encode a).Same (encode b) → a = b
  distinctTexts : ∀ a b, Fits a → Fits b → ∀ text, (encode a).IsText text →
    (encode b).IsText text → a = b

theorem RoundTrips.of_reads {α : Type} {Fits : α → Prop} {encode : α → Json}
    {decode : Json → Decoded α} (hreads : ∀ a, Fits a → Reads decode (encode a) a)
    (hreadable : ∀ a, Fits a → (encode a).Readable 127) : RoundTrips Fits encode decode where
  reads := hreads
  readsText a ha text htext :=
    ⟨_, ofText_of_isText (hreadable a ha) htext, hreads a ha _ (same_sorted _)⟩
  distinct a b ha hb := (hreads a ha).eq_of_same (hreads b hb)
  distinctTexts a b ha hb text htext htext' := by
    have hsorted := (ofText_of_isText (hreadable a ha) htext).symm.trans
      (ofText_of_isText (hreadable b hb) htext')
    exact (hreads a ha).eq_of_same (hreads b hb) (Except.ok.inj hsorted)

/-- A report is read back as it is written. -/
theorem DataReport.reads_text {report : DataReport} (h : report.Fits) :
    ∃ j, ofText report.text.toList = .ok j ∧ DataReport.ofJson j = .ok report := by
  have hreadable : report.toJson.Readable (124 + 3) := DataReport.readable h
  have hnewline : ∀ b ∈ "\n".toList, Scan.isSpace b = true := List.forall_mem_singleton.2 rfl
  rw [DataReport.text, String.toList_append, ofText_pretty hreadable hnewline]
  exact ⟨_, rfl, DataReport.reads h _ (same_sorted _)⟩

/-- Everything that is exchanged is read back as it was, from its value and from its text, and
different things are written in different ways. What is absent or empty leaves no member. -/
theorem wire_roundTrips :
    RoundTrips Diagnostic.Fits Diagnostic.toJson Diagnostic.ofJson ∧
    RoundTrips TextEdit.Fits TextEdit.toJson TextEdit.ofJson ∧
    RoundTrips CodeAction.Fits CodeAction.toJson CodeAction.ofJson ∧
    RoundTrips (fun _ => True) CompletionItem.toJson CompletionItem.ofJson ∧
    RoundTrips Token.Fits Token.toJson Token.ofJson ∧
    RoundTrips (fun _ => True) Config.toJson Config.ofJson ∧
    RoundTrips ReportedDiagnostic.Fits ReportedDiagnostic.toJson ReportedDiagnostic.ofJson ∧
    RoundTrips DataReport.Fits DataReport.toJson DataReport.ofJson ∧
    (∀ report : DataReport, report.Fits →
      ∃ j, ofText report.text.toList = .ok j ∧ DataReport.ofJson j = .ok report) ∧
    (∀ d : Diagnostic, d.toJson.member? "fixCode" = d.fixCode.map FixCode.toJson) ∧
    (∀ i : CompletionItem, i.toJson.member? "detail" = i.detail.map text ∧
      i.toJson.member? "insertText" = i.insertText.map text) ∧
    (∀ d : ReportedDiagnostic, d.toJson.member? "fix" = d.fix.map text) ∧
    ∀ report : DataReport, report.toJson.member? "skipped" =
      if report.skipped = [] then none else some (.list (report.skipped.map text)) :=
  ⟨.of_reads (fun _ => Diagnostic.reads) fun _ => Diagnostic.readable,
    .of_reads (fun _ => TextEdit.reads) fun _ => TextEdit.readable,
    .of_reads (fun _ => CodeAction.reads) fun _ => CodeAction.readable,
    .of_reads (fun i _ => i.reads) fun i _ => i.readable,
    .of_reads (fun _ => Token.reads) fun _ => Token.readable,
    .of_reads (fun config _ => config.reads) fun config _ => config.readable,
    .of_reads (fun _ => ReportedDiagnostic.reads) fun _ => ReportedDiagnostic.readable,
    .of_reads (fun _ => DataReport.reads) fun _ => DataReport.readable,
    fun _ => DataReport.reads_text, Diagnostic.member?_fixCode,
    fun i => ⟨i.member?_detail, i.member?_insertText⟩, ReportedDiagnostic.member?_fix,
    DataReport.member?_skipped⟩

/-- A diagnostic with a quote and a line break in its message, and with a fix. -/
def quotedDiagnostic : Diagnostic where
  range := ⟨⟨0, 4⟩, ⟨0, 12⟩⟩
  severity := .warning
  message := "write \"x\"\n"
  source := sourceName
  rule := .deprecatedCall
  fixCode := some .deprecatedCallForm

theorem wire_roundTrips_quotedDiagnostic :
    quotedDiagnostic.Fits ∧
      ∃ j, ofText quotedDiagnostic.toJson.pretty.toList = .ok j ∧
        Diagnostic.ofJson j = .ok quotedDiagnostic :=
  have hfits : quotedDiagnostic.Fits :=
    ⟨⟨⟨by decide, by decide⟩, ⟨by decide, by decide⟩⟩⟩
  ⟨hfits, wire_roundTrips.1.readsText quotedDiagnostic hfits _ (Or.inr (Or.inr rfl))⟩

end RazenLint
