import RazenLint.Proofs.Edit.Line
import RazenLint.Proofs.Event.Keyword

/-!
# Diagnostics of a declaration with another keyword

The initializer of a declaration demands a base kind or leaves it open
(`Declaration.demanded?`). A declaration has a finding exactly when its keyword commits to a
base kind other than the demanded one (`Declaration.findings_eq_nil_iff`), and what stands
behind the keyword does not depend on it : with another keyword in place, all other findings
of the text are what they were, moved behind the new keyword (`exists_findingsAround`).

`keywordExchange_withKeyword` tells what follows for the diagnostics. A keyword of the same
base kind changes nothing in them but the keyword that a message quotes, and the keyword that
a message recommends settles the diagnostic and brings no other.
-/

namespace RazenLint

open Text

/-! ## Places behind a keyword -/

/-- The same place when the keyword of its line has another length. -/
def Position.moved (p : Position) (keyword : Span) (length : Nat) : Position :=
  if p.line = keyword.line then ⟨p.line, keyword.movedColumn length p.character⟩ else p

/-- The same diagnostic when the keyword of its line has another length. -/
def Diagnostic.moved (m : Diagnostic) (keyword : Span) (length : Nat) : Diagnostic :=
  { m with range := ⟨m.range.start.moved keyword length, m.range.stop.moved keyword length⟩ }

theorem Finding.diagnostic_moved (keyword : Span) (length : Nat) (f : Finding) :
    (f.mapSpan (·.moved keyword length)).diagnostic = f.diagnostic.moved keyword length := by
  have hspan : (f.mapSpan (·.moved keyword length)).span = f.span.moved keyword length := by
    cases f <;> rfl
  have hrange : Range.ofSpan (f.span.moved keyword length) =
      ⟨(Range.ofSpan f.span).start.moved keyword length,
        (Range.ofSpan f.span).stop.moved keyword length⟩ := by
    unfold Span.moved Position.moved Range.ofSpan
    split <;> rfl
  rw [diagnostic, hspan, hrange]
  cases f <;> rfl

/-! ## What an initializer demands -/

/-- The base kind that the initializer of a declaration demands : that of its shape when it
begins with no library call, and that of the function's result when it is one call and nothing
else. In all other cases it demands none. -/
def Declaration.demanded? (d : Declaration) : Option Kind :=
  match d.call with
  | none => (Shape.classify d.initializer.toList).kind?
  | some call => if call.spansInitializer then call.result?.map (·.2.kind.base) else none

/-- The kind commits to a base kind other than the demanded one. -/
def Kind.Misses (kind : Kind) (demanded : Option Kind) : Prop :=
  ∃ base, demanded = some base ∧ kind.base ≠ .any ∧ kind.base ≠ base

/-- The finding holds a declaration against its initializer. -/
def Finding.isMismatch (f : Finding) : Bool :=
  f.rule = .kindMismatch || f.rule = .returnMismatch

/-- The diagnostic holds the declaration on the line against its initializer. -/
def Diagnostic.isMismatchOn (line : Nat) (m : Diagnostic) : Bool :=
  (m.rule = .kindMismatch || m.rule = .returnMismatch) && m.range.start.line = line

/-- The keyword that the message of a finding tells to use. -/
def Finding.recommended? : Finding → Option String
  | returnMismatch _ _ _ _ _ result _ => some result.kind.keyword
  | _ => none

/-- The finding about a declaration with another keyword. -/
def Finding.withKeyword (keyword : String) (kind : Kind) : Finding → Finding
  | kindMismatch name _ _ shape span => kindMismatch name keyword kind shape span
  | returnMismatch name _ _ library function result span =>
    returnMismatch name keyword kind library function result span
  | f => f

/-- The finding about a declaration with another keyword, when it stands on the given line. -/
def Finding.withKeywordOn (f : Finding) (line : Nat) (keyword : String) (kind : Kind) : Finding :=
  if f.isMismatch = true ∧ f.span.line = line then f.withKeyword keyword kind else f

theorem Finding.isMismatchOn_diagnostic_iff {f : Finding} {line : Nat} :
    f.diagnostic.isMismatchOn line = true ↔ f.isMismatch = true ∧ f.span.line = line := by
  rw [Diagnostic.isMismatchOn, Bool.and_eq_true, decide_eq_true_iff]
  rfl

theorem Diagnostic.isMismatchOn_moved (m : Diagnostic) (keyword : Span) (length line : Nat) :
    (m.moved keyword length).isMismatchOn line = m.isMismatchOn line := by
  have hline : (m.range.start.moved keyword length).line = m.range.start.line := by
    unfold Position.moved
    split <;> rfl
  rw [isMismatchOn, isMismatchOn, moved, hline]

namespace Declaration

variable (d : Declaration)

/-- What is found about a declaration is that its kind misses the demanded one. -/
theorem findings_eq_nil_iff : d.findings = [] ↔ ¬d.kind.Misses d.demanded? := by
  unfold findings demanded? Kind.Misses
  cases d.call with
  | none =>
    have haccepts : d.kind.accepts (Shape.classify d.initializer.toList) = some false ↔
        ∃ base, (Shape.classify d.initializer.toList).kind? = some base ∧ d.kind.base ≠ .any ∧
          d.kind.base ≠ base := by
      rw [Kind.accepts, Kind.isAny]
      by_cases hany : d.kind.base = .any
      · simp [hany]
      · cases (Shape.classify d.initializer.toList).kind? with
        | none => simp [hany]
        | some base => simp [hany, eq_comm]
    dsimp only
    rw [← haccepts]
    split
    · simp [*]
    · exact iff_of_true rfl ‹_›
  | some call =>
    dsimp only
    cases call.spansInitializer with
    | false => simp
    | true =>
      by_cases hany : d.kind.base = .any
      · simp [Kind.isAny, hany]
      · cases call.result? with
        | none => simp [Kind.isAny, hany]
        | some found =>
          obtain ⟨library, result⟩ := found
          by_cases hbase : d.kind.base = result.kind.base <;> simp [Kind.isAny, hany, hbase]

theorem isMismatch_of_mem_findings {f : Finding} (h : f ∈ d.findings) : f.isMismatch = true := by
  rcases cases_of_mem_findings h with ⟨_, -, rfl⟩ | ⟨_, _, _, -, -, -, rfl⟩
  · rfl
  · rfl

/-- A keyword of the same base kind is found fault with in the same way. -/
theorem findings_withKeyword (keyword : String) {kind : Kind} (h : kind.base = d.kind.base) :
    (d.withKeyword keyword kind).findings = d.findings.map (Finding.withKeyword keyword kind) := by
  have hany : kind.isAny = d.kind.isAny := by rw [Kind.isAny, Kind.isAny, h]
  have haccepts : ∀ shape, kind.accepts shape = d.kind.accepts shape := by
    intro shape
    rw [Kind.accepts, Kind.accepts, hany, h]
  unfold findings withKeyword
  cases d.call with
  | none =>
    dsimp only
    rw [haccepts]
    split <;> rfl
  | some call =>
    dsimp only
    rw [hany, h]
    split
    · rfl
    · cases call.result? with
      | none => rfl
      | some found =>
        dsimp only
        split <;> rfl

/-- The keyword that a finding recommends is the keyword of a kind that is demanded. -/
theorem findings_withKeyword_recommended {f : Finding} (hf : f ∈ d.findings) {keyword : String}
    (hkeyword : f.recommended? = some keyword) {kind : Kind}
    (hkind : Kind.ofKeyword? keyword = some kind) :
    d.findings = [f] ∧ (d.withKeyword keyword kind).findings = [] := by
  have hone : d.findings = [f] := by
    rcases d.findings_eq with hd | ⟨g, hd, -⟩
    · rw [hd] at hf
      exact absurd hf List.not_mem_nil
    · rw [hd] at hf
      rw [hd, List.mem_singleton.1 hf]
  refine ⟨hone, ?_⟩
  rw [findings_eq_nil_iff, Kind.Misses]
  rintro ⟨base, hbase, -, hmisses⟩
  change d.demanded? = some base at hbase
  rcases cases_of_mem_findings hf with
    ⟨_, -, rfl⟩ | ⟨call, library, result, hcall, hspans, hresult, rfl⟩
  · cases hkeyword
  · cases hkeyword
    rw [demanded?, hcall] at hbase
    dsimp only at hbase
    rw [if_pos hspans, hresult] at hbase
    obtain rfl := Option.some.inj hbase
    refine hmisses ?_
    cases result <;> exact congrArg Kind.base (Option.some.inj hkind).symm

end Declaration

/-! ## Another keyword in a text -/

/-- The text with another keyword in the place of a declaration's. -/
def withKeyword (text : List Char) (d : Declaration) (keyword : String) : List Char :=
  (applyEdits text [⟨.ofSpan d.keywordSpan, keyword⟩]).1

theorem LibraryCall.isMismatch_of_mem_orderedFindings {c : LibraryCall} {f : Finding}
    (h : f ∈ c.orderedFindings) : f.isMismatch = false := by
  unfold orderedFindings at h
  split at h
  · split at h
    · exact absurd h List.not_mem_nil
    · rw [List.mem_singleton.1 h]
      rfl
  · rcases List.mem_append.1 h with h | h
    · split at h
      · rw [List.mem_singleton.1 h]
        rfl
      · exact absurd h List.not_mem_nil
    · split at h
      · exact absurd h List.not_mem_nil
      · rw [List.mem_singleton.1 h]
        rfl

/-- A finding is about one of the lines. -/
theorem exists_line_of_mem_orderedFindings {first : Nat} {lines : List (List Char)} {f : Finding}
    (h : f ∈ (eventsFrom first lines).flatMap Event.orderedFindings) :
    ∃ i < lines.length, f.span.line = first + i := by
  obtain ⟨e, he, hf⟩ := List.mem_flatMap.1 h
  obtain ⟨i, line, hline, he⟩ := mem_eventsFrom_iff.1 he
  exact ⟨i, (List.getElem?_eq_some_iff.1 hline).1,
    line_of_mem_orderedFindings (List.mem_flatMap.2 ⟨e, he, hf⟩)⟩

theorem Finding.mapSpan_moved_of_ne (keyword : Span) (length : Nat) {f : Finding}
    (h : f.span.line ≠ keyword.line) : f.mapSpan (·.moved keyword length) = f := by
  have hkept : f.span.moved keyword length = f.span := if_neg h
  cases f <;> exact congrArg _ hkept

/-- What is found about a declaration, with its keyword and with another one, stands between
the same findings, and none of those is a mismatch on the line. -/
structure FindingsAround (text : List Char) (d : Declaration) (keyword : String) (kind : Kind)
    (front back : List Finding) : Prop where
  written : (events text).flatMap Event.orderedFindings = front ++ (d.findings ++ back)
  exchanged : (events (withKeyword text d keyword)).flatMap Event.orderedFindings =
    (front ++ ((d.withKeyword keyword kind).findings ++ back)).map
      (Finding.mapSpan (·.moved d.keywordSpan keyword.toList.length))
  others : ∀ f ∈ front ++ back, f.isMismatch = true → f.span.line ≠ d.statementSpan.line

section

variable {text : List Char} {d : Declaration} (hd : .declaration d ∈ events text)
  {keyword : String} {kind : Kind} (hkind : Kind.ofKeyword? keyword = some kind)

include hd hkind

/-- A text with another keyword has its lines but for the one of the declaration, and the line
has the events that it had, but for the kind that is declared. -/
theorem exists_lines_withKeyword : ∃ (above below : List Char) (before after : List (List Char))
      (line line' : List Char) (calls : List LibraryCall),
    text = above ++ (d.keyword.toList ++ below) ∧
    withKeyword text d keyword = above ++ (keyword.toList ++ below) ∧
    before.length = d.statementSpan.line ∧
    lines text = before ++ line :: after ∧
    lines (withKeyword text d keyword) = before ++ line' :: after ∧
    eventsOfLine before.length line = .declaration d :: calls.map .call ∧
    eventsOfLine before.length line' =
      (.declaration (d.withKeyword keyword kind) :: calls.map .call).map (Event.mapSpans
        (·.moved d.keywordSpan keyword.toList.length)) := by
  obtain ⟨i, line, hline, he⟩ := mem_eventsFrom_iff.1 hd
  rw [Nat.zero_add] at he
  rcases of_mem_eventsOfLine he with ⟨a, ha, hd⟩ | ⟨words, -, hd⟩ | ⟨column, head, bound, -, hd⟩
  · obtain ⟨words, -, hwords, -⟩ := of_assignment? ha
    obtain ⟨slot, anchor, back, c, rfl, htail, hlast, hc, hword⟩ :=
      KeywordSlot.exists_of_wordPair? hwords
    have hassigned := ha
    rw [slot.assignment?_line hword] at hassigned
    obtain ⟨kind₀, hkind₀, hassigned⟩ := Option.bind_eq_some_iff.1 hassigned
    obtain ⟨value, hvalue, rfl⟩ := Option.map_eq_some_iff.1 hassigned
    cases hd
    rw [slot.ofAssignment_line i hword]
    have hident := isIdent_of_ofKeyword? hkind
    have hnewline : '\n' ∉ keyword.toList :=
      fun h => absurd (isIdentRest_of_mem_isIdent hident h) (by decide)
    have hparts : (lines text)[i]? =
        some (slot.indent ++ (words.first ++ (anchor ++ back))) := by
      rw [hline, KeywordSlot.line, KeywordSlot.lead, htail]
      simp
    obtain ⟨above, below, before, after, htext, hedit, rfl, hlines, hlines'⟩ :=
      exists_applyEdits_line hparts hlast hc keyword hnewline
    have hwith : withKeyword text (slot.declaration before.length value words.first kind₀) keyword =
        above ++ (keyword.toList ++ below) := by
      rw [withKeyword, slot.keywordSpan_declaration, hedit]
    have hslot : ∀ word : List Char,
        slot.indent ++ (word ++ (anchor ++ back)) = slot.line word := by
      intro word
      rw [KeywordSlot.line, KeywordSlot.lead, htail, List.append_assoc]
    obtain ⟨calls, hevents, hevents'⟩ := slot.exists_eventsOfLine before.length
      hword hident hkind₀ (by rwa [String.ofList_toList]) hvalue
    rw [String.ofList_toList] at hevents'
    refine ⟨above, below, before, after, _, _, calls, ?_, hwith, rfl, ?_, ?_, hevents, hevents'⟩
    · rw [htext, KeywordSlot.declaration, String.toList_ofList]
    · rw [hlines, hslot]
    · rw [hwith, hlines', hslot]
  · cases hd
  · cases hd

/-- With another keyword the findings of a text are those of its other events, moved behind
the keyword, and what is found about the declaration with the keyword. -/
theorem exists_findingsAround : ∃ above below front back,
    text = above ++ (d.keyword.toList ++ below) ∧
    withKeyword text d keyword = above ++ (keyword.toList ++ below) ∧
    FindingsAround text d keyword kind front back := by
  obtain ⟨above, below, before, after, line, line', calls, htext, htext', hline, hlines, hlines',
    hevents, hevents'⟩ := exists_lines_withKeyword hd hkind
  set front := (eventsFrom 0 before).flatMap Event.orderedFindings with hfront
  set later := (eventsFrom (before.length + 1) after).flatMap Event.orderedFindings with hlater
  set called := (calls.map Event.call).flatMap Event.orderedFindings with hcalled
  have hbefore : ∀ f ∈ front, f.span.line ≠ d.statementSpan.line := by
    intro f hf
    obtain ⟨i, hi, hf⟩ := exists_line_of_mem_orderedFindings hf
    omega
  have hafter : ∀ f ∈ later, f.span.line ≠ d.statementSpan.line := by
    intro f hf
    obtain ⟨i, hi, hf⟩ := exists_line_of_mem_orderedFindings hf
    omega
  have hkept : ∀ {found : List Finding}, (∀ f ∈ found, f.span.line ≠ d.statementSpan.line) →
      found.map (Finding.mapSpan (·.moved d.keywordSpan keyword.toList.length)) = found :=
    fun h => (List.map_congr_left fun f hf => Finding.mapSpan_moved_of_ne d.keywordSpan _
      (h f hf)).trans (List.map_id _)
  have hmoved : ∀ es : List Event,
      (es.map (Event.mapSpans (·.moved d.keywordSpan keyword.toList.length))).flatMap
          Event.orderedFindings =
        (es.flatMap Event.orderedFindings).map
          (Finding.mapSpan (·.moved d.keywordSpan keyword.toList.length)) := by
    intro es
    rw [List.flatMap_map, List.map_flatMap]
    exact List.flatMap_congr fun e _ => e.orderedFindings_mapSpans _
  have hsplit : ∀ {text : List Char} {line : List Char}, lines text = before ++ line :: after →
      (events text).flatMap Event.orderedFindings = front ++
        ((eventsOfLine before.length line).flatMap Event.orderedFindings ++ later) := by
    intro text line hlines
    rw [events, hlines, eventsFrom_append, eventsFrom, Nat.zero_add, List.flatMap_append,
      List.flatMap_append]
  refine ⟨above, below, front, called ++ later, htext, htext', ⟨?_, ?_, ?_⟩⟩
  · rw [hsplit hlines, hevents, List.flatMap_cons, List.append_assoc]
    rfl
  · rw [hsplit hlines', hevents', hmoved, List.flatMap_cons, List.map_append, List.map_append,
      List.map_append, hkept hbefore, List.map_append, hkept hafter, List.append_assoc]
    rfl
  · intro f hf hmismatch
    rcases List.mem_append.1 hf with hf | hf
    · exact hbefore f hf
    · rcases List.mem_append.1 hf with hf | hf
      · obtain ⟨e, he, hf⟩ := List.mem_flatMap.1 hf
        obtain ⟨c, -, rfl⟩ := List.mem_map.1 he
        rw [LibraryCall.isMismatch_of_mem_orderedFindings hf] at hmismatch
        cases hmismatch
      · exact hafter f hf

end

theorem Declaration.message_of_recommended {d : Declaration} {f : Finding} (hf : f ∈ d.findings)
    {keyword : String} (h : f.recommended? = some keyword) : ∃ said,
      f.message = said ++ "' with '" ++ keyword ++ "' instead of '" ++ d.keyword ++ "'" := by
  rcases cases_of_mem_findings hf with ⟨_, -, rfl⟩ | ⟨_, _, _, -, -, -, rfl⟩
  · cases h
  · cases h
    exact ⟨_, rfl⟩

theorem Declaration.isMismatchOn_of_mem_findings {d : Declaration} {f : Finding}
    (h : f ∈ d.findings) : f.diagnostic.isMismatchOn d.statementSpan.line = true := by
  rw [Finding.isMismatchOn_diagnostic_iff]
  exact ⟨d.isMismatch_of_mem_findings h, congrArg Span.line (d.span_of_mem_findings h)⟩

namespace FindingsAround

variable {text : List Char} {d : Declaration} {keyword : String} {kind : Kind}
  {front back : List Finding}

theorem diagnose_written (h : FindingsAround text d keyword kind front back) :
    diagnose text = front.map Finding.diagnostic ++
      (d.findings.map Finding.diagnostic ++ back.map Finding.diagnostic) := by
  rw [diagnose_eq, h.written, List.map_append, List.map_append]

theorem diagnose_exchanged (h : FindingsAround text d keyword kind front back) :
    diagnose (withKeyword text d keyword) = (front.map Finding.diagnostic ++
      ((d.withKeyword keyword kind).findings.map Finding.diagnostic ++
        back.map Finding.diagnostic)).map (·.moved d.keywordSpan keyword.toList.length) := by
  rw [diagnose_eq, h.exchanged, List.map_map, ← List.map_append, ← List.map_append, List.map_map]
  exact List.map_congr_left fun f _ => f.diagnostic_moved d.keywordSpan keyword.toList.length

theorem isMismatchOn_eq_false (h : FindingsAround text d keyword kind front back) {f : Finding}
    (hf : f ∈ front ++ back) : f.diagnostic.isMismatchOn d.statementSpan.line = false := by
  by_contra hmismatch
  obtain ⟨hmismatch, hline⟩ := Finding.isMismatchOn_diagnostic_iff.1 (by simpa using hmismatch)
  exact h.others f hf hmismatch hline

/-- What is no mismatch on the line stands around. -/
theorem filter_eq (h : FindingsAround text d keyword kind front back) {found : List Finding}
    (hfound : ∀ f ∈ found, f.diagnostic.isMismatchOn d.statementSpan.line = true) :
    (front.map Finding.diagnostic ++
      (found.map Finding.diagnostic ++ back.map Finding.diagnostic)).filter
        (!·.isMismatchOn d.statementSpan.line) =
      front.map Finding.diagnostic ++ back.map Finding.diagnostic := by
  have hnone : (found.map Finding.diagnostic).filter
      (!·.isMismatchOn d.statementSpan.line) = [] := by
    rw [List.filter_eq_nil_iff]
    intro m hm
    obtain ⟨f, hf, rfl⟩ := List.mem_map.1 hm
    simp [hfound f hf]
  have hall : ∀ kept ⊆ front ++ back, (kept.map Finding.diagnostic).filter
      (!·.isMismatchOn d.statementSpan.line) = kept.map Finding.diagnostic := by
    intro kept hsub
    rw [List.filter_eq_self]
    intro m hm
    obtain ⟨f, hf, rfl⟩ := List.mem_map.1 hm
    simp [h.isMismatchOn_eq_false (hsub hf)]
  rw [List.filter_append, List.filter_append, hnone, hall _ (List.subset_append_left _ _),
    hall _ (List.subset_append_right _ _), List.nil_append]

/-- All other diagnostics are kept. -/
theorem filter_diagnose (h : FindingsAround text d keyword kind front back) :
    (diagnose (withKeyword text d keyword)).filter (!·.isMismatchOn d.statementSpan.line) =
      ((diagnose text).filter (!·.isMismatchOn d.statementSpan.line)).map
        (·.moved d.keywordSpan keyword.toList.length) := by
  have hmoved : ((!·.isMismatchOn d.statementSpan.line) ∘
      (·.moved d.keywordSpan keyword.toList.length) : Diagnostic → Bool) =
        (!·.isMismatchOn d.statementSpan.line) := by
    funext m
    simp only [Function.comp_apply, Diagnostic.isMismatchOn_moved]
  rw [h.diagnose_exchanged, List.filter_map, hmoved, h.diagnose_written,
    h.filter_eq fun _ hf => d.isMismatchOn_of_mem_findings hf,
    h.filter_eq fun _ hf => (d.withKeyword keyword kind).isMismatchOn_of_mem_findings hf]

/-- A mismatch on the line is one that is found about the declaration. -/
theorem exists_mismatch_iff (h : FindingsAround text d keyword kind front back) :
    (∃ m ∈ diagnose (withKeyword text d keyword),
      m.isMismatchOn d.statementSpan.line = true) ↔ kind.Misses d.demanded? := by
  have hmisses := (d.withKeyword keyword kind).findings_eq_nil_iff
  change _ ↔ ¬kind.Misses d.demanded? at hmisses
  rw [← not_iff_not, ← hmisses, h.diagnose_exchanged]
  constructor
  · intro hnone
    refine List.eq_nil_iff_forall_not_mem.2 fun f hf => hnone ⟨_, List.mem_map_of_mem
      (List.mem_append_right _ (List.mem_append_left _ (List.mem_map_of_mem hf))), ?_⟩
    rw [Diagnostic.isMismatchOn_moved]
    exact (d.withKeyword keyword kind).isMismatchOn_of_mem_findings hf
  · rintro hnil ⟨m, hm, hmismatch⟩
    rw [hnil, List.map_nil, List.nil_append, ← List.map_append, List.map_map] at hm
    obtain ⟨f, hf, rfl⟩ := List.mem_map.1 hm
    rw [Function.comp_apply, Diagnostic.isMismatchOn_moved, h.isMismatchOn_eq_false hf] at hmismatch
    cases hmismatch

/-- With the same base kind only the keyword that is quoted differs. -/
theorem exists_findings_of_base_eq (h : FindingsAround text d keyword kind front back)
    (hbase : kind.base = d.kind.base) : ∃ found : List Finding,
      diagnose text = found.map Finding.diagnostic ∧
      diagnose (withKeyword text d keyword) = found.map fun f =>
        (f.withKeywordOn d.statementSpan.line keyword kind).diagnostic.moved d.keywordSpan
          keyword.toList.length := by
  refine ⟨front ++ (d.findings ++ back), by simp [h.diagnose_written], ?_⟩
  have hself : ∀ found ⊆ front ++ back, found.map (fun f =>
      (f.withKeywordOn d.statementSpan.line keyword kind).diagnostic) =
        found.map Finding.diagnostic := by
    intro found hsub
    refine List.map_congr_left fun f hf => ?_
    rw [Finding.withKeywordOn, if_neg fun hon => h.others f (hsub hf) hon.1 hon.2]
  have hwith : d.findings.map (fun f =>
      (f.withKeywordOn d.statementSpan.line keyword kind).diagnostic) =
        (d.withKeyword keyword kind).findings.map Finding.diagnostic := by
    rw [d.findings_withKeyword keyword hbase, List.map_map]
    refine List.map_congr_left fun f hf => ?_
    rw [Finding.withKeywordOn,
      if_pos (Finding.isMismatchOn_diagnostic_iff.1 (d.isMismatchOn_of_mem_findings hf))]
    rfl
  rw [h.diagnose_exchanged, ← hwith, ← hself _ (List.subset_append_left _ _),
    ← hself _ (List.subset_append_right _ _), ← List.map_append, ← List.map_append, List.map_map]
  rfl

end FindingsAround

/-- The diagnostics of a text with another keyword in the place of a declaration's, held
against those that the text has. -/
structure KeywordExchange (text : List Char) (d : Declaration) (keyword : String) (kind : Kind) :
    Prop where
  /-- The keyword is replaced, and nothing else. -/
  replaced : ∃ above below, text = above ++ (d.keyword.toList ++ below) ∧
    withKeyword text d keyword = above ++ (keyword.toList ++ below)
  /-- All other diagnostics are kept, moved with what stands behind the keyword. -/
  others : (diagnose (withKeyword text d keyword)).filter
      (!·.isMismatchOn d.statementSpan.line) =
    ((diagnose text).filter (!·.isMismatchOn d.statementSpan.line)).map
      (·.moved d.keywordSpan keyword.toList.length)
  mismatch : (∃ m ∈ diagnose (withKeyword text d keyword),
    m.isMismatchOn d.statementSpan.line = true) ↔ kind.Misses d.demanded?
  /-- With the same base kind only the keyword that is quoted differs. -/
  interchangeable : kind.base = d.kind.base → ∃ found : List Finding,
    diagnose text = found.map Finding.diagnostic ∧
    diagnose (withKeyword text d keyword) = found.map fun f =>
      (f.withKeywordOn d.statementSpan.line keyword kind).diagnostic.moved d.keywordSpan
        keyword.toList.length
  /-- The keyword that a message recommends settles the diagnostic and brings no other. -/
  recommended : ∀ f ∈ d.findings, f.recommended? = some keyword →
    (∃ said, f.message = said ++ "' with '" ++ keyword ++ "' instead of '" ++ d.keyword ++ "'") ∧
    ∃ before after, diagnose text = before ++ f.diagnostic :: after ∧
      diagnose (withKeyword text d keyword) =
        (before ++ after).map (·.moved d.keywordSpan keyword.toList.length)

/-- Another keyword in the place of a declaration's leaves all diagnostics as they are but for
the one about its kind, and that is there exactly when the kind of the keyword misses the one
that the initializer demands. -/
theorem keywordExchange_withKeyword {text : List Char} {d : Declaration}
    (hd : .declaration d ∈ events text) {keyword : String} {kind : Kind}
    (hkind : Kind.ofKeyword? keyword = some kind) : KeywordExchange text d keyword kind := by
  obtain ⟨above, below, front, back, htext, htext', haround⟩ := exists_findingsAround hd hkind
  refine ⟨⟨above, below, htext, htext'⟩, haround.filter_diagnose, haround.exists_mismatch_iff,
    haround.exists_findings_of_base_eq, fun f hf hkeyword => ?_⟩
  obtain ⟨hone, hnil⟩ := d.findings_withKeyword_recommended hf hkeyword hkind
  refine ⟨Declaration.message_of_recommended hf hkeyword, front.map Finding.diagnostic,
    back.map Finding.diagnostic, ?_, ?_⟩
  · rw [haround.diagnose_written, hone]
    rfl
  · rw [haround.diagnose_exchanged, hnil]
    rfl

/-- A call that returns no text, and the keyword that the message about it recommends. -/
theorem keywordExchange_withKeyword_length :
    KeywordExchange "take n = strlib::length(s)".toList
      ⟨"take", .textual, "n", ⟨0, 5, 6⟩, ⟨0, 0, 26⟩, "strlib::length(s)",
        some ⟨"strlib", "length", false, true⟩⟩ "let" .numeric :=
  keywordExchange_withKeyword (by decide +kernel) (by decide)

end RazenLint
