import RazenLint.Analysis
import RazenLint.Proofs.Shape
import RazenLint.Proofs.Symbol.Match
import RazenLint.Proofs.Text.Line

/-!
# What literals and comments hold

The analysis of a text does not depend on what its string literals and comments hold.
Lines that agree outside of them (`AgreeOutsideLiterals`) have one code
(`AgreeOutsideLiterals.code_eq`), and all that is read from the lines themselves is the
arguments of a call and the initializer of a declaration : the arguments are only
quoted in the message about a deprecated call, and of the initializer only the shape
counts. `analyze_agreeOutsideLiterals` puts it together.
-/

namespace RazenLint

open Text

/-! ## Lines that agree -/

/-- Whether the character in a column is one that a literal holds. The quotes at its
ends are not. -/
def heldByLiteral (cs : List Char) (column : Nat) : Bool :=
  cs[column]?.any (Reading.code.after (cs.take column)).hides

/-- Two lines whose parts before the comment have one length, the same literals, and the
same characters outside the contents of literals. -/
structure AgreeOutsideLiterals (cs cs' : List Char) : Prop where
  length : (code cs).length = (code cs').length
  literals : ∀ column < (code cs).length, heldByLiteral cs column = heldByLiteral cs' column
  outside : ∀ column < (code cs).length, heldByLiteral cs column = false →
    cs[column]? = cs'[column]?

instance (cs cs' : List Char) : Decidable (AgreeOutsideLiterals cs cs') :=
  decidable_of_iff ((code cs).length = (code cs').length ∧
    (∀ column < (code cs).length, heldByLiteral cs column = heldByLiteral cs' column) ∧
      ∀ column < (code cs).length, heldByLiteral cs column = false → cs[column]? = cs'[column]?)
    ⟨fun h => ⟨h.1, h.2.1, h.2.2⟩, fun h => ⟨h.length, h.literals, h.outside⟩⟩

theorem getElem?_maskFrom : ∀ (reading : Reading) (cs : List Char) (column : Nat),
    (maskFrom reading cs)[column]? = cs[column]?.map (shown (reading.after (cs.take column)))
  | _, [], _ => by simp [maskFrom]
  | reading, c :: cs, 0 => by simp [maskFrom_cons]
  | reading, c :: cs, column + 1 => by
    rw [maskFrom_cons, List.getElem?_cons_succ, List.getElem?_cons_succ, List.take_succ_cons,
      Reading.after_cons, getElem?_maskFrom]

theorem getElem?_code {cs : List Char} {column : Nat} (h : column < (code cs).length) :
    (code cs)[column]? = cs[column]?.map (shown (Reading.code.after (cs.take column))) := by
  rw [← getElem?_maskFrom]
  obtain ⟨rest, hrest⟩ := List.takeWhile_prefix (fun c => decide (c ≠ commentSign)) (l := mask cs)
  rw [show maskFrom .code cs = code cs ++ rest from hrest.symm, List.getElem?_append_left h]

/-- Lines that agree have one code. -/
theorem AgreeOutsideLiterals.code_eq {line line' : List Char}
    (h : AgreeOutsideLiterals line line') : code line = code line' := by
  refine List.ext_getElem? fun column => ?_
  by_cases hcolumn : column < (code line).length
  · have hcolumn' : column < (code line').length := h.length ▸ hcolumn
    have hline := List.getElem?_eq_getElem (hcolumn.trans_le (length_code_le line))
    have hline' := List.getElem?_eq_getElem (hcolumn'.trans_le (length_code_le line'))
    have hliterals := h.literals column hcolumn
    have houtside := h.outside column hcolumn
    simp only [heldByLiteral, hline, hline', Option.any_some, Option.some.injEq]
      at hliterals houtside
    rw [getElem?_code hcolumn, getElem?_code hcolumn', hline, hline', Option.map_some,
      Option.map_some, shown, shown, ← hliterals]
    split
    · rfl
    · rename_i hvisible
      rw [houtside (by simpa using hvisible)]
  · rw [List.getElem?_eq_none (by omega), List.getElem?_eq_none (by rw [← h.length]; omega)]

/-! ## Events of lines with one code -/

variable {line line' : List Char}

theorem match_ofHead (h : code line = code line') (index : Nat) (bound bound' : Bool) (column : Nat)
    (head : CallHead) : (LibraryCall.ofHead index line bound column head).Match Eq Eq
      (LibraryCall.ofHead index line' bound' column head) :=
  ⟨rfl, rfl, rfl, rfl, rfl, by simp only [LibraryCall.ofHead, h]⟩

theorem match_callsOfLine (h : code line = code line') (index : Nat) (bound : Option Nat) :
    List.Forall₂ (Event.Match Eq Eq) ((callsOfLine index line bound).map .call)
      ((callsOfLine index line' bound).map .call) := by
  rw [callsOfLine, callsOfLine, ← h, List.map_map, List.map_map, List.forall₂_map_left_iff,
    List.forall₂_map_right_iff, List.forall₂_same]
  exact fun p _ => .call (match_ofHead h index _ _ p.1 p.2)

theorem match_ofAssignment (h : code line = code line') (hline : '\n' ∉ line)
    (hline' : '\n' ∉ line') (index : Nat) {a : Assignment} (ha : assignment? (code line) = some a) :
    (Declaration.ofAssignment index line a).Match Eq Eq
      (Declaration.ofAssignment index line' a) where
  keyword := rfl
  kind := rfl
  name := rfl
  nameSpan := rfl
  statementSpan := by simp only [Declaration.ofAssignment, h]
  call := by
    simp only [Declaration.ofAssignment, ← h]
    cases a.head? (code line) with
    | none => exact Option.Rel.none
    | some p =>
      refine Option.Rel.some ⟨rfl, rfl, ?_⟩
      simp only [BoundCall.ofCall, LibraryCall.ofHead, Option.isSome_map, h]
  shape := by
    intro _
    have hsub : ∀ line : List Char, '\n' ∉ line → '\n' ∉ expressionOf
        (between line a.valueColumn (code line).length) := fun line hnewline hmem =>
      hnewline (List.mem_of_mem_drop (List.mem_of_mem_take ((expressionOf_sublist _).subset hmem)))
    simp only [Declaration.ofAssignment, String.toList_ofList]
    refine Shape.classify_congr (outline_expressionOf ?_) (hsub line hline) (hsub line' hline')
    have hmask := mask_between ha
    have hmask' := mask_between (h ▸ ha)
    rw [outline, outline, hmask, hmask', h]

/-- Lines with one code say the same. -/
theorem match_eventsOfLine (h : code line = code line') (hline : '\n' ∉ line)
    (hline' : '\n' ∉ line') (index : Nat) :
    List.Forall₂ (Event.Match Eq Eq) (eventsOfLine index line) (eventsOfLine index line') := by
  rw [eventsOfLine_eq, eventsOfLine_eq, ← h]
  cases ha : assignment? (code line) with
  | some a =>
    exact List.Forall₂.cons (.declaration (match_ofAssignment h hline hline' index ha))
      (match_callsOfLine h index _)
  | none =>
    refine List.rel_append ?_ (match_callsOfLine h index none)
    rw [List.forall₂_same]
    intro e he
    obtain ⟨words, -, rfl⟩ := List.mem_map.1 he
    exact .imported ⟨rfl, rfl⟩

theorem match_eventsFrom {lines lines' : List (List Char)}
    (hagree : List.Forall₂ AgreeOutsideLiterals lines lines') (hline : ∀ line ∈ lines, '\n' ∉ line)
    (hline' : ∀ line ∈ lines', '\n' ∉ line) (index : Nat) :
    List.Forall₂ (Event.Match Eq Eq) (eventsFrom index lines) (eventsFrom index lines') ∧
      occurrencesOfLines index lines = occurrencesOfLines index lines' := by
  induction hagree generalizing index with
  | nil => exact ⟨List.Forall₂.nil, rfl⟩
  | cons h _ ih =>
    obtain ⟨hevents, hwords⟩ := ih (fun l hl => hline l (List.mem_cons_of_mem _ hl))
      (fun l hl => hline' l (List.mem_cons_of_mem _ hl)) (index + 1)
    refine ⟨List.rel_append ?_ hevents, ?_⟩
    · exact match_eventsOfLine h.code_eq (hline _ List.mem_cons_self)
        (hline' _ List.mem_cons_self) index
    · rw [occurrencesOfLines, occurrencesOfLines, occurrencesOfLine_eq, occurrencesOfLine_eq,
        h.code_eq, hwords]

/-! ## The analysis -/

theorem symbols_eq {text text' : List Char}
    (hevents : List.Forall₂ (Event.Match Eq Eq) (events text) (events text'))
    (hwords : occurrences text = occurrences text') : symbols text = symbols text' := by
  refine symbols_eq_of_counterparts (hevents.imp fun e e' h => h.counterpart) ?_
  rw [hwords, List.forall₂_same]
  exact fun o _ => ⟨rfl, rfl, Or.inl rfl⟩

/-- What literals and comments hold does not matter : texts whose lines agree outside of
them have the same tokens, and the same diagnostics up to the messages that quote the
arguments of a deprecated call. -/
theorem analyze_agreeOutsideLiterals (document : String) {text text' : String}
    (h : List.Forall₂ AgreeOutsideLiterals (lines text.toList) (lines text'.toList)) :
    (analyze document text).tokens = (analyze document text').tokens ∧
      List.Forall₂ (Diagnostic.Match Eq) (analyze document text).diagnostics
        (analyze document text').diagnostics := by
  obtain ⟨hevents, hwords⟩ := match_eventsFrom h (fun line => newline_notMem_lines)
    (fun line => newline_notMem_lines) 0
  refine ⟨congrArg SymbolTable.tokens (symbols_eq hevents hwords), ?_⟩
  simp only [analyze, diagnose_eq]
  refine List.rel_map (R := Finding.Match Eq)
    (fun f f' hf => hf.diagnostic fun hs => congrArg Range.ofSpan hs) ?_
  exact List.rel_flatMap hevents fun e e' he => he.orderedFindings fun hs => hs

/-- A deprecated call with other arguments, before another comment, and an open literal. -/
theorem analyze_agreeOutsideLiterals_strings :
    List.Forall₂ AgreeOutsideLiterals
        (lines "let n = strlib[length](\"a#b\") # n\nlet m = \"; ".toList)
        (lines "let n = strlib[length](\"(é)\") # three\nlet m = \"n.".toList) ∧
      (analyze "" "let n = strlib[length](\"a#b\") # n\nlet m = \"; ").tokens =
        (analyze "" "let n = strlib[length](\"(é)\") # three\nlet m = \"n.").tokens ∧
      List.Forall₂ (Diagnostic.Match Eq)
        (analyze "" "let n = strlib[length](\"a#b\") # n\nlet m = \"; ").diagnostics
        (analyze "" "let n = strlib[length](\"(é)\") # three\nlet m = \"n.").diagnostics :=
  ⟨by decide, analyze_agreeOutsideLiterals "" (by decide)⟩

end RazenLint
