import RazenLint.Proofs.Fix.Announced
import RazenLint.Proofs.Fix.Site

/-!
# The fixes that are proposed

The edits of the actions for the diagnostics of a text are those of its sites : a
diagnostic about the form of a call leads to an edit when the call is closed on its line
(`exists_site`), and every site has its diagnostic (`edit_mem_proposedEdits`).
-/

namespace RazenLint

open Text

/-- The edits of the actions for the diagnostics of a text. -/
def proposedEdits (document : String) (text : List Char) : List TextEdit :=
  (codeActions document text (diagnose text)).map (·.edit)

theorem diagnose_eq_map (text : List Char) :
    diagnose text = (orderedFindings text).map Finding.diagnostic :=
  diagnose_eq text

/-! ## Sites and edits -/

/-- A closed call in the old form among the calls of a line is a site. -/
theorem CallSite.exists_of_mem_callHeads {text line : List Char} {index column : Nat}
    {head : CallHead} (hline : (lines text)[index]? = some line)
    (hhead : (column, head) ∈ callHeads (code line)) (hlegacy : head.legacy = true)
    (hregistered : isLibraryName (String.ofList head.library) = true)
    (hclosed : (closingParen (code line) (column + head.openingOffset)).isSome = true) :
    ∃ (site : CallSite) (rest : List Char), text = site.old rest ∧
      ∀ bound, (LibraryCall.ofHead index line bound column head).callSpan = site.span := by
  obtain ⟨o, hold, rfl, rfl⟩ := OldCall.exists_of_mem_callHeads hhead hlegacy hregistered hclosed
  obtain ⟨before, piece, more, hs, rfl, hpiece, -⟩ := exists_segment_of_line hline
  obtain ⟨site, tail, rest, rfl, rfl, hsite, htail⟩ :=
    CallSite.exists_of_line hs (hpiece.symm.trans hold)
  refine ⟨site, rest, rfl, fun bound => ?_⟩
  have hcall := site.callSpan_call tail bound
  rw [OldCall.call, OldCall.column, ← htail] at hcall
  have hcolumn : (site.call tail).front = o.front := congrArg OldHead.front hsite
  have hhead : (site.call tail).head = o.head := congrArg OldHead.head hsite
  rw [hold, ← hcall, hcolumn, hhead]
  rfl

/-- The range of a call that is not closed on its line ends with the opening parenthesis. -/
theorem exists_sliceRange?_of_open {text line : List Char} {index column : Nat} {head : CallHead}
    (hline : (lines text)[index]? = some line) (hhead : (column, head) ∈ callHeads (code line))
    (hlegacy : head.legacy = true)
    (hregistered : isLibraryName (String.ofList head.library) = true)
    (hopen : closingParen (code line) (column + head.openingOffset) = none) (bound : Bool) :
    ∃ blanks, head.Fits blanks ∧ sliceRange? text
      (.ofSpan (LibraryCall.ofHead index line bound column head).callSpan) =
        some (head.written blanks) := by
  obtain ⟨o, back, rfl, rfl, rfl⟩ := OldHead.exists_of_mem_callHeads hhead hlegacy hregistered
  have hlength := CallHead.length_written o.fits.length
  have hslice := sliceRange?_of_line hline
  refine ⟨o.blanks, o.fits, ?_⟩
  simp only [LibraryCall.ofHead, hopen, Option.getD_none, Nat.add_assoc, ← hlength]
  exact hslice

/-- An edit that is proposed is that of a site. -/
theorem exists_site {document : String} {text : List Char} {e : TextEdit}
    (h : e ∈ proposedEdits document text) :
    ∃ (site : CallSite) (rest : List Char), text = site.old rest ∧ e = site.edit := by
  obtain ⟨a, ha, rfl⟩ := List.mem_map.1 h
  rw [codeActions_diagnose] at ha
  obtain ⟨p, hp, rfl⟩ := List.mem_map.1 ha
  obtain ⟨hp, hclosed⟩ := List.mem_filter.1 hp
  obtain ⟨hcall, hlegacy, hlibrary⟩ := mem_deprecatedCalls_iff.1 hp
  have haction := propose?_announced document hp
  rw [if_pos hclosed] at haction
  obtain ⟨call, library⟩ := p
  dsimp only at hcall hlegacy hlibrary
  obtain ⟨index, line, hline, hcall⟩ := mem_eventsFrom_iff.1 hcall
  rw [Nat.zero_add] at hcall
  obtain ⟨column, head, bound, hhead, rfl⟩ := exists_head_of_mem_eventsOfLine hcall
  have hregistered : isLibraryName (String.ofList head.library) = true :=
    Option.isSome_iff_exists.2 ⟨library, hlibrary⟩
  have hclosing : (closingParen (code line) (column + head.openingOffset)).isSome = true := by
    simpa [DeprecatedCall.isClosed, LibraryCall.ofHead] using hclosed
  obtain ⟨site, rest, rfl, hsite⟩ :=
    CallSite.exists_of_mem_callHeads hline hhead hlegacy hregistered hclosing
  have hrange : (DeprecatedCall.finding
      ⟨.ofHead index line bound column head, library⟩).diagnostic.range = .ofSpan site.span :=
    congrArg Range.ofSpan (hsite bound)
  have hedit := site.propose?_old document rest rfl hrange
  rw [haction, Option.map_some, Option.some.injEq] at hedit
  exact ⟨site, rest, rfl, hedit⟩

/-- Every site has its edit among those that are proposed. -/
theorem edit_mem_proposedEdits (document : String) (site : CallSite) (rest : List Char) :
    site.edit ∈ proposedEdits document (site.old rest) := by
  obtain ⟨tail, after, hline, hfixed⟩ := site.exists_lines rest
  obtain ⟨f, front, -, back, -, hfindings, -, hrule, hspan, -⟩ :=
    OldCall.exists_orderedFindings hline hfixed
  rw [List.length_map, site.callSpan_call] at hspan
  have hcode : f.diagnostic.fixCode = some .deprecatedCallForm := by
    change f.rule.fixCode = _
    rw [hrule]
    rfl
  have hpropose := site.propose?_old document rest hcode (congrArg Range.ofSpan hspan)
  obtain ⟨a, ha, hedit⟩ := Option.map_eq_some_iff.1 hpropose
  refine List.mem_map.2 ⟨a, List.mem_filterMap.2 ⟨f.diagnostic, ?_, ha⟩, hedit⟩
  rw [diagnose_eq_map, hfindings]
  simp

end RazenLint
