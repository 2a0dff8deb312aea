import RazenLint.Fix
import RazenLint.Proofs.Event.CallHead

/-!
# A call in the old form as a whole text

The proposer of fixes reads a text as a call by itself, without libraries, literals or
brackets that match. It finds a call exactly when the text is written as one
(`LegacyCall.ofText?_eq_some_iff`) : the first opening bracket ends the library, and the
last character closes the arguments, whatever stands between. A head of a call is the
beginning of such a text (`LegacyCall.written_of_legacy`) and never the whole of it
(`LegacyCall.written_ne_head`).
-/

namespace RazenLint

open Text

namespace LegacyCall

/-- A call as it is written, with the given blanks before the parenthesis. -/
def written (call : LegacyCall) (blanks : List Char) : List Char :=
  call.library ++ '[' :: (call.function ++ ']' :: (blanks ++ '(' :: (call.arguments ++ [')'])))

/-- A call that can be written with the given blanks. The names are words of any kind, and
the arguments any text. -/
structure Fits (call : LegacyCall) (blanks : List Char) : Prop where
  library_ne : call.library ≠ []
  library : ∀ c ∈ call.library, isWord c = true
  function_ne : call.function ≠ []
  function : ∀ c ∈ call.function, isWord c = true
  blank : ∀ c ∈ blanks, isBlank c = true

@[simp] theorem getLast?_written (call : LegacyCall) (blanks : List Char) :
    (call.written blanks).getLast? = some ')' := by
  have hconcat : call.written blanks = (call.library ++ '[' :: (call.function ++
      ']' :: (blanks ++ '(' :: call.arguments))) ++ [')'] := by simp [written]
  rw [hconcat, List.getLast?_concat]

/-- A word ends where a character of no word stands. -/
theorem takeWhile_isWord {word : List Char} (hword : ∀ c ∈ word, isWord c = true) {c : Char}
    (hc : isWord c = false) (rest : List Char) :
    (word ++ c :: rest).takeWhile isWord = word ∧
      (word ++ c :: rest).dropWhile isWord = c :: rest := by
  rw [List.takeWhile_append_of_pos hword, List.dropWhile_append_of_pos hword]
  simp [hc]

/-- A call that is written is read. -/
theorem ofText?_of_fits {call : LegacyCall} {blanks : List Char} (hfits : call.Fits blanks) :
    ofText? (call.written blanks) = some call := by
  obtain ⟨hlibrary, hrest⟩ := takeWhile_isWord hfits.library (c := '[') (by decide)
    (call.function ++ ']' :: (blanks ++ '(' :: (call.arguments ++ [')'])))
  obtain ⟨hfunction, hrest'⟩ := takeWhile_isWord hfits.function (c := ']') (by decide)
    (blanks ++ '(' :: (call.arguments ++ [')']))
  have htrim : trimStart (blanks ++ '(' :: (call.arguments ++ [')'])) =
      '(' :: (call.arguments ++ [')']) := by
    rw [trimStart_append_of_blank hfits.blank, trimStart_of_not_blank (by decide)]
  obtain ⟨c, cs, hc⟩ := List.exists_cons_of_ne_nil hfits.library_ne
  obtain ⟨d, ds, hd⟩ := List.exists_cons_of_ne_nil hfits.function_ne
  rw [written, ofText?, hlibrary, hrest]
  simp only [hc]
  rw [hfunction, hrest']
  simp only [hd]
  rw [htrim]
  simp [← hc, ← hd]

/-- A call that is read is written. -/
theorem exists_fits_of_ofText? {cs : List Char} {call : LegacyCall} (h : ofText? cs = some call) :
    ∃ blanks, call.Fits blanks ∧ cs = call.written blanks := by
  rw [ofText?] at h
  dsimp only at h
  split at h
  · simp at h
  · rename_i rest hrest hlibrary
    split at h
    · simp at h
    · rename_i rest' hrest' hfunction
      split at h
      · rename_i arguments htrim
        split at h
        · rename_i hlast
          cases h
          obtain ⟨inner, rfl⟩ := List.getLast?_eq_some_iff.1 hlast
          refine ⟨rest'.takeWhile isBlank, ?_, ?_⟩
          · exact ⟨hlibrary, fun c hc => List.mem_takeWhile_imp hc, hfunction,
              fun c hc => List.mem_takeWhile_imp hc, fun c hc => isBlank_of_mem_takeWhile hc⟩
          · rw [written, List.dropLast_concat, ← htrim, takeWhile_append_trimStart, ← hrest',
              List.takeWhile_append_dropWhile, ← hrest, List.takeWhile_append_dropWhile]
        · simp at h
      · simp at h
    · simp at h
  · simp at h

/-- A text is a call exactly when it is written as one. -/
theorem ofText?_eq_some_iff {cs : List Char} {call : LegacyCall} :
    ofText? cs = some call ↔ ∃ blanks, call.Fits blanks ∧ cs = call.written blanks :=
  ⟨exists_fits_of_ofText?, fun ⟨_, hfits, hcs⟩ => hcs ▸ ofText?_of_fits hfits⟩

/-- The call in the current form, character by character. -/
theorem toList_modern (call : LegacyCall) : call.modern.toList = call.library.map Char.toLower ++
    ':' :: ':' :: (call.function ++ '(' :: (call.arguments ++ [')'])) := by
  simp [modern, currentForm, asciiLower]

/-! ## Calls and heads -/

theorem written_of_legacy {head : CallHead} (hlegacy : head.legacy = true)
    (blanks arguments : List Char) : head.written blanks ++ (arguments ++ [')']) =
      written ⟨head.library, head.function, arguments⟩ blanks :=
  CallHead.written_append_of_legacy hlegacy blanks _

theorem fits_of_head {head : CallHead} {blanks : List Char} (hfits : head.Fits blanks)
    (arguments : List Char) : Fits ⟨head.library, head.function, arguments⟩ blanks := by
  have hword : ∀ {ident : List Char}, isIdent ident = true →
      ident ≠ [] ∧ ∀ c ∈ ident, isWord c = true := by
    intro ident hident
    obtain ⟨c, cs, rfl, -⟩ := exists_cons_of_isIdent hident
    exact ⟨List.cons_ne_nil c cs,
      fun d hd => isWord_of_isIdentRest (isIdentRest_of_mem_isIdent hident hd)⟩
  exact ⟨(hword hfits.library).1, (hword hfits.library).2, (hword hfits.function).1,
    (hword hfits.function).2, hfits.blank⟩

/-- A head alone is no call, since it ends in an opening parenthesis. -/
theorem written_ne_head (call : LegacyCall) (blanks : List Char) (head : CallHead)
    (blanks' : List Char) : call.written blanks ≠ head.written blanks' := by
  intro h
  have hend := congrArg List.getLast? h
  rw [getLast?_written, CallHead.getLast?_written] at hend
  exact absurd hend (by decide)

/-- Two calls that are written alike are the same. -/
theorem written_inj {call other : LegacyCall} {blanks blanks' : List Char}
    (hfits : call.Fits blanks) (hfits' : other.Fits blanks')
    (h : call.written blanks = other.written blanks') : call = other ∧ blanks = blanks' := by
  have hcall : some call = some other := by
    rw [← ofText?_of_fits hfits, ← ofText?_of_fits hfits', h]
  obtain rfl := Option.some.inj hcall
  exact ⟨rfl, by simpa [written] using h⟩

end LegacyCall

end RazenLint
