import RazenLint.Proofs.Event.Case
import RazenLint.Proofs.Symbol.Match
import RazenLint.Proofs.Symbol.Keyword

/-!
# Names of libraries in other cases

Two lines that differ at most in the case of the letters of library names
(`AgreeUpToLibraryCase`). An import writes the name of a library, and so does a call, unless
it is in the old form and the library is not registered (`Event.librarySpan?`).

In small letters the two lines are the same, so they have the same heads and begin with the
same two words. No other name that is read from them can differ : the name of a library is a
word, and neither a keyword nor a declared name nor a function is that word
(`AgreeUpToLibraryCase.word_eq`). So the lines say the same of the same libraries
(`AgreeUpToLibraryCase.recased_eventsOfLine`).
-/

namespace RazenLint

open Text

/-! ## Lines that agree -/

/-- Where an event writes the name of a library. In the old form only a registered library
makes a call. -/
def Event.librarySpan? : Event → Option Span
  | declaration _ => none
  | imported i => some i.span
  | call c => if !c.legacy || isLibraryName c.library then some c.librarySpan else none

/-- The character in a column belongs to the name of a library. -/
def InLibraryName (line : List Char) (column : Nat) : Prop :=
  ∃ e ∈ eventsOfLine 0 line, ∃ s ∈ e.librarySpan?, s.start ≤ column ∧ column < s.stop

/-- Two lines that differ at most in the case of the letters of library names. -/
structure AgreeUpToLibraryCase (line line' : List Char) : Prop where
  lower : lower line = lower line'
  outside : ∀ column < line.length, ¬InLibraryName line column → (line)[column]? = line'[column]?

instance (line : List Char) (column : Nat) : Decidable (InLibraryName line column) :=
  inferInstanceAs (Decidable (∃ e ∈ eventsOfLine 0 line, ∃ s ∈ e.librarySpan?,
    s.start ≤ column ∧ column < s.stop))

instance (line line' : List Char) : Decidable (AgreeUpToLibraryCase line line') :=
  decidable_of_iff (lower line = lower line' ∧
    ∀ column < line.length, ¬InLibraryName line column → (line)[column]? = line'[column]?)
    ⟨fun h => ⟨h.1, h.2⟩, fun h => ⟨h.lower, h.outside⟩⟩

/-! ## Names of libraries are words -/

/-- The word in a column of the code is the name of a library. -/
def LibraryWord (code word : List Char) (column : Nat) : Prop :=
  (∃ words, importWords? code = some words ∧ words.second = word ∧ words.secondColumn = column) ∨
  ∃ head, (column, head) ∈ callHeads code ∧ head.library = word ∧
    (!head.legacy || isLibraryName (String.ofList head.library)) = true

theorem LibraryWord.wordIn {code word : List Char} {column : Nat}
    (h : LibraryWord code word column) : WordIn code word column := by
  rcases h with ⟨words, hwords, rfl, rfl⟩ | ⟨head, hhead, rfl, -⟩
  · exact wordIn_imported hwords
  · exact (wordIn_head hhead).1

theorem InLibraryName.exists_libraryWord {line : List Char} {column : Nat}
    (h : InLibraryName line column) : ∃ word start, LibraryWord (code line) word start ∧
      start ≤ column ∧ column < start + word.length := by
  obtain ⟨e, he, s, hs, hstart, hstop⟩ := h
  rcases of_mem_eventsOfLine he with ⟨a, -, rfl⟩ | ⟨words, hwords, rfl⟩ |
    ⟨place, head, bound, hhead, rfl⟩
  · cases hs
  · cases hs
    exact ⟨words.second, words.secondColumn, Or.inl ⟨words, hwords, rfl, rfl⟩, hstart, hstop⟩
  · obtain ⟨hsite, hs⟩ := Option.ite_none_right_eq_some.1 hs
    cases hs
    exact ⟨head.library, place, Or.inr ⟨head, hhead, rfl, hsite⟩, hstart, hstop⟩

/-- The name of a library is a site. -/
theorem LibraryWord.mem_sites {line word : List Char} {column : Nat}
    (h : LibraryWord (code line) word column) (index : Nat) :
    ⟨index, column, column + word.length⟩ ∈ (eventsOfLine index line).flatMap Event.sites := by
  rcases h with ⟨words, hwords, rfl, rfl⟩ | ⟨head, hhead, rfl, hsite⟩
  · rw [eventsOfLine_eq, assignment?_of_importWords? hwords, hwords]
    exact List.mem_cons_self
  · obtain ⟨bound, he⟩ := exists_mem_eventsOfLine index hhead
    refine List.mem_flatMap.2 ⟨_, he, ?_⟩
    have hsites : (Event.call (.ofHead index line bound column head)).sites =
        [⟨index, column, column + head.library.length⟩, ⟨index, column + head.functionOffset,
          column + head.functionOffset + head.function.length⟩] := if_pos hsite
    rw [hsites]
    exact List.mem_cons_self

/-! ## No other word is the name of a library -/

/-- A character that never stands behind the library of a head. -/
def FollowsNoLibrary (c : Char) : Prop :=
  isIdentRest c = false ∧ c ≠ ':' ∧ c ≠ '['

theorem followsNoLibrary_of_isBlank {c : Char} (h : isBlank c = true) : FollowsNoLibrary c := by
  refine ⟨?_, ?_, ?_⟩
  · by_contra hrest
    rw [isBlank_of_isIdentRest (by simpa using hrest)] at h
    exact absurd h (by simp)
  · rintro rfl
    exact absurd h (by decide)
  · rintro rfl
    exact absurd h (by decide)

section

variable {code : List Char}

/-- A colon or a bracket follows the library of a head. -/
theorem notMem_callHeads {front word rest : List Char} {c : Char} {column : Nat}
    (hcode : code = front ++ (word ++ c :: rest)) (hcolumn : front.length = column)
    (hword : isIdent word = true) (hc : FollowsNoLibrary c) (head : CallHead) :
    (column, head) ∉ callHeads code := by
  intro h
  obtain ⟨front', blanks, rest', hhead, hlength, -, hfits⟩ := mem_callHeads_iff.1 h
  rw [hcode] at hhead
  obtain ⟨-, hhead⟩ := List.append_inj hhead (hcolumn.trans hlength.symm)
  rw [CallHead.written_append] at hhead
  have hopener : (head.opener ++ (head.function ++ (head.closer blanks ++ rest'))).head? =
      some (if head.legacy then '[' else ':') := by
    unfold CallHead.opener
    split <;> rfl
  -- the identifier that both begin with ends at one place
  have htake : takeIdent? (word ++ c :: rest) = some (word, c :: rest) :=
    takeIdent?_eq_some_iff.2 ⟨rfl, hword, by simpa using hc.1⟩
  have htake' := takeIdent?_eq_some_iff.2 ⟨hhead, hfits.library, by rw [hopener]; split <;> rfl⟩
  rw [htake, Option.some.injEq, Prod.mk.injEq] at htake'
  rw [← htake'.2, List.head?_cons, Option.some.injEq] at hopener
  split at hopener
  · exact hc.2.2 hopener
  · exact hc.2.1 hopener

/-- The first of two words names no library. -/
theorem not_libraryWord_first {words : WordPair} (h : wordPair? code = some words) :
    ¬LibraryWord code words.first words.firstColumn := by
  obtain ⟨indent, gap, after, hcode, -, hgap, -, hfirst, -, hfirstColumn, hsecondColumn, -, hne⟩ :=
    of_wordPair? h
  rintro (⟨words', hwords', -, hcolumn⟩ | ⟨head, hhead, -⟩)
  · obtain rfl : words = words' :=
      Option.some.inj (h.symm.trans (importWords?_eq_some_iff.1 hwords').1)
    have hgap := List.length_pos_iff.2 hne
    omega
  · obtain ⟨c, cs, rfl⟩ := List.exists_cons_of_ne_nil hne
    exact notMem_callHeads hcode hfirstColumn.symm hfirst
      (followsNoLibrary_of_isBlank (hgap c List.mem_cons_self)) head hhead

/-- A name in front of an equals sign is not the name of a library. -/
theorem not_libraryWord_second {words : WordPair} (h : wordPair? code = some words)
    (hequals : words.rest.head? = some '=') :
    ¬LibraryWord code words.second words.secondColumn := by
  obtain ⟨indent, gap, after, hcode, -, -, hafter, -, hsecond, -, hsecondColumn, -⟩ :=
    of_wordPair? h
  obtain ⟨value, hrest⟩ := List.head?_eq_some_iff.1 hequals
  rintro (⟨words', hwords', -⟩ | ⟨head, hhead, -⟩)
  · obtain ⟨hwords', -, himport⟩ := importWords?_eq_some_iff.1 hwords'
    obtain rfl : words = words' := Option.some.inj (h.symm.trans hwords')
    rw [hrest] at himport
    rcases himport with hblank | ⟨tail, hsemicolon, -⟩
    · exact absurd (hblank '=' List.mem_cons_self) (by decide)
    · exact absurd hsemicolon (by simp)
  · obtain ⟨c, cs, hnext, hc⟩ : ∃ c cs, after ++ words.rest = c :: cs ∧ FollowsNoLibrary c := by
      cases after with
      | nil => exact ⟨'=', value, hrest, rfl, by decide, by decide⟩
      | cons c cs =>
        have hblank := hafter c List.mem_cons_self
        exact ⟨c, cs ++ words.rest, rfl, followsNoLibrary_of_isBlank hblank⟩
    have hcut : code = (indent ++ (words.first ++ gap)) ++ (words.second ++ c :: cs) := by
      rw [hcode, hnext]
      simp
    refine notMem_callHeads hcut ?_ hsecond hc head hhead
    rw [hsecondColumn]
    simp only [List.length_append]
    omega

/-- The function of a call is not the name of a library. -/
theorem not_libraryWord_function {column : Nat} {head : CallHead}
    (h : (column, head) ∈ callHeads code) :
    ¬LibraryWord code head.function (column + head.functionOffset) := by
  rintro (⟨words, hwords, -⟩ | ⟨head', hhead', -⟩)
  · rw [callHeads_of_importWords? hwords] at h
    exact absurd h List.not_mem_nil
  · obtain ⟨front, blanks, rest, hcode, hlength, -, hfits⟩ := mem_callHeads_iff.1 h
    obtain ⟨c, cs, hc⟩ := head.exists_cons_closer blanks
    have hends : FollowsNoLibrary c := by
      rcases hfits.of_mem_closer (hc ▸ List.mem_cons_self) with hblank | rfl | rfl
      · exact followsNoLibrary_of_isBlank hblank
      · exact ⟨rfl, by decide, by decide⟩
      · exact ⟨rfl, by decide, by decide⟩
    have hcut : code = (front ++ (head.library ++ head.opener)) ++
        (head.function ++ c :: (cs ++ rest)) := by
      rw [hcode, CallHead.written_append, hc]
      simp
    refine notMem_callHeads hcut ?_ hfits.function hends head' hhead'
    rw [List.length_append, List.length_append, CallHead.length_opener, hlength]

end

/-! ## Readers that see no case -/

/-- Two results that are the same in another view are both there or both missing. -/
theorem cases_of_map_eq {α β : Type} {f : α → β} {x y : Option α} (h : x.map f = y.map f) :
    (x = none ∧ y = none) ∨ ∃ a b, x = some a ∧ y = some b ∧ f a = f b := by
  cases x with
  | none => exact Or.inl ⟨rfl, Option.map_eq_none_iff.1 h.symm⟩
  | some a =>
    obtain ⟨b, rfl, hb⟩ := Option.map_eq_some_iff.1 h.symm
    exact Or.inr ⟨a, b, rfl, rfl, hb.symm⟩

theorem forall₂_of_map_eq {α β : Type} {f : α → β} {l l' : List α} (h : l.map f = l'.map f) :
    List.Forall₂ (fun a b => f a = f b) l l' := by
  rwa [← List.forall₂_eq_eq_eq, List.forall₂_map_left_iff, List.forall₂_map_right_iff] at h

theorem Assignment.head?_lower (a : Assignment) (code : List Char) :
    a.head? (lower code) = (a.head? code).map fun (column, head) => (column, head.lower) := by
  rw [head?, ← lower_drop, trimStart_lower, headAt?_lower, takeWhile_isBlank_lower, length_lower,
    head?]
  cases headAt? (trimStart (code.drop a.valueColumn)) <;> rfl

theorem endsAfter_lower (code : List Char) (column : Nat) :
    endsAfter (lower code) column = endsAfter code column := by
  have hsemicolon : ∀ cs : List Char, lower cs = [';'] ↔ cs = [';'] := fun cs =>
    lower_eq_iff (by simp [isIdentStart])
  rw [endsAfter, ← lower_drop, trim_lower, endsAfter]
  simp only [hsemicolon, isEmpty_lower]

theorem between_lower (line : List Char) (start stop : Nat) :
    between (lower line) start stop = lower (between line start stop) := by
  rw [between, ← lower_drop, lower, lower, ← List.map_take, between]

/-- The parenthesis of a call stands in the value of a declaration. -/
theorem paren_mem_value {line : List Char} {a : Assignment} {p : Nat × CallHead}
    (ha : assignment? (code line) = some a) (hp : p ∈ callHeads (code line)) :
    '(' ∈ between line a.valueColumn (code line).length := by
  have hvalue := valueColumn_le_of_mem_callHeads ha hp
  obtain ⟨front, blanks, rest, hcode, hlength, -⟩ := mem_callHeads_iff.1 hp
  have hparen : '(' ∈ p.2.written blanks := List.mem_of_getLast? (p.2.getLast?_written blanks)
  have hmask : '(' ∈ mask (between line a.valueColumn (code line).length) := by
    rw [mask_between ha, hcode, List.drop_append_of_le_length (by omega)]
    exact List.mem_append_right _ (List.mem_append_left _ hparen)
  exact (mem_of_mem_maskFrom hmask).resolve_left (by decide)

/-- A library is found under its name in any case. -/
theorem resolve?_eq_of_lower_eq {name name' : List Char} (h : lower name = lower name') :
    Library.resolve? (String.ofList name) = Library.resolve? (String.ofList name') := by
  have hname : asciiLower (String.ofList name) = asciiLower (String.ofList name') := by
    rw [asciiLower, asciiLower, String.toList_ofList, String.toList_ofList]
    exact congrArg String.ofList h
  rw [Library.resolve?, Library.resolve?, hname]

section

variable {code code' : List Char} {words words' : WordPair}

/-- A declaration is read off two words and the value behind the equals sign. -/
theorem assignment?_of_wordPair? (h : wordPair? code = some words)
    (h' : wordPair? code' = some words') (hlower : words.lower = words'.lower)
    (hfirst : words.first = words'.first)
    (hsecond : words.rest.head? = some '=' → words.second = words'.second) {a : Assignment}
    (ha : assignment? code = some a) : assignment? code' = some a := by
  obtain ⟨read, value, hread, hrest, hvalue, hkeyword, hkeywordColumn, hkind, hname, hnameColumn,
    hvalueColumn⟩ := of_assignment? ha
  obtain rfl : words = read := Option.some.inj (h.symm.trans hread)
  obtain ⟨-, hfirstColumn, -, hsecondColumn, hlowerRest, hrestColumn⟩ := WordPair.of_lower_eq hlower
  rw [hrest, eq_comm] at hlowerRest
  obtain ⟨sign, value', hrest', hsign, hlowerValue⟩ := List.map_eq_cons_iff.1 hlowerRest
  obtain rfl : sign = '=' := (toLower_eq_iff rfl).1 hsign
  have hvalue' : value'.head? ≠ some '=' := by
    rw [ne_eq, ← head?_lower_eq_iff rfl, lower, hlowerValue, ← ne_eq]
    exact mt (head?_lower_eq_iff rfl).1 hvalue
  have hsame : words.second = words'.second := hsecond (by rw [hrest]; rfl)
  obtain ⟨keyword, keywordColumn, kind, name, nameColumn, valueColumn⟩ := a
  dsimp only at hkeyword hkeywordColumn hkind hname hnameColumn hvalueColumn
  simp [assignment?, h', ← hfirst, hkind, hrest', hvalue', hkeyword, hkeywordColumn, hname,
    hnameColumn, hvalueColumn, hfirstColumn, hsecondColumn, hrestColumn, hsame]

/-- An import is read off two words and the signs behind them. -/
theorem importWords?_of_wordPair? (h' : wordPair? code' = some words')
    (hlower : words.lower = words'.lower) (hfirst : words.first = words'.first)
    (himport : importWords? code = some words) : importWords? code' = some words' := by
  have hblank : ∀ {cs cs' : List Char}, lower cs = lower cs' → (∀ c ∈ cs, isBlank c = true) →
      ∀ c ∈ cs', isBlank c = true := fun hlower hall => by
    rw [← List.all_eq_true, ← all_isBlank_lower, ← hlower, all_isBlank_lower, List.all_eq_true]
    exact hall
  obtain ⟨-, -, -, -, hlowerRest, -⟩ := WordPair.of_lower_eq hlower
  obtain ⟨-, hkeyword, hrest⟩ := importWords?_eq_some_iff.1 himport
  refine importWords?_eq_some_iff.2 ⟨h', hfirst ▸ hkeyword, hrest.imp (hblank hlowerRest) ?_⟩
  rintro ⟨tail, hsemicolon, htail⟩
  rw [hsemicolon, eq_comm] at hlowerRest
  obtain ⟨sign, tail', hrest', hsign, hlowerTail⟩ := List.map_eq_cons_iff.1 hlowerRest
  obtain rfl : sign = ';' := (toLower_eq_iff rfl).1 hsign
  exact ⟨tail', hrest', hblank hlowerTail.symm htail⟩

end

/-! ## What else the lines say -/

/-- Two calls of one function of one library, the library perhaps under different
spellings of its name. -/
structure LibraryCall.Recased (c c' : LibraryCall) : Prop extends c.Counterpart Eq c' where
  function : c.function = c'.function
  legacy : c.legacy = c'.legacy
  callSpan : c.callSpan = c'.callSpan

/-- Two events that say the same in the same places, but for the spelling of libraries. -/
inductive Event.Recased : Event → Event → Prop
  | declaration {d d' : Declaration} (h : d.Match Eq Eq d') :
    Event.Recased (.declaration d) (.declaration d')
  | imported {i i' : Import} (h : i.Counterpart Eq i') :
    Event.Recased (.imported i) (.imported i')
  | call {c c' : LibraryCall} (h : c.Recased c') : Event.Recased (.call c) (.call c')

theorem Event.Recased.counterpart {e e' : Event} (h : Event.Recased e e') :
    Event.Counterpart Eq Eq e e' := by
  cases h with
  | declaration h => exact .declaration h
  | imported h => exact .imported h
  | call h => exact .call h.toCounterpart

/-- The findings of events that say the same are of one rule, place by place. -/
theorem Event.Recased.map_orderedFindings {e e' : Event} (h : Event.Recased e e') :
    e.orderedFindings.map (fun f => (f.span, f.rule)) =
      e'.orderedFindings.map fun f => (f.span, f.rule) := by
  cases h with
  | declaration h =>
    exact map_eq_of_forall₂ (fun _ _ hf => Prod.ext hf.span hf.rule) h.findings
  | @imported i i' h =>
    have hregistered : isLibraryName i.name = isLibraryName i'.name := by
      rw [isLibraryName, isLibraryName, h.library]
    simp only [Event.orderedFindings, Import.findings, hregistered]
    split
    · rfl
    · exact congrArg (fun span => [(span, Rule.unknownImport)]) h.span
  | @call c c' h =>
    simp only [Event.orderedFindings, LibraryCall.orderedFindings, h.library, h.legacy, h.function]
    cases Library.resolve? c'.library with
    | none =>
      dsimp only
      split
      · rfl
      · exact congrArg (fun span => [(span, Rule.unknownLibrary)]) h.librarySpan
    | some library =>
      dsimp only
      rw [List.map_append, List.map_append]
      congr 1
      · split
        · exact congrArg (fun span => [(span, Rule.deprecatedCall)]) h.callSpan
        · rfl
      · split
        · rfl
        · exact congrArg (fun span => [(span, Rule.unknownFunction)]) h.functionSpan

/-- The line holds the characters of a word of its code. -/
theorem WordIn.getElem?_line {line word : List Char} {column i : Nat}
    (h : WordIn (code line) word column) (hi : i < word.length) :
    (line)[column + i]? = word[i]? := by
  obtain ⟨front, back, rfl, rfl⟩ := h.exists_line
  rw [List.getElem?_append_right (by omega), Nat.add_sub_cancel_left,
    List.getElem?_append_left hi]

namespace AgreeUpToLibraryCase

variable {line line' : List Char}

theorem lower_code (h : AgreeUpToLibraryCase line line') :
    Text.lower (code line) = Text.lower (code line') := by
  rw [← code_lower, h.lower, code_lower]

theorem closingParen_eq (h : AgreeUpToLibraryCase line line') (opening : Nat) :
    closingParen (code line) opening = closingParen (code line') opening := by
  rw [← closingParen_lower, h.lower_code, closingParen_lower]

/-- A word that is not the name of a library is the same in both lines. -/
theorem word_eq (h : AgreeUpToLibraryCase line line') {word word' : List Char} {column : Nat}
    (hword : WordIn (code line) word column) (hword' : WordIn (code line') word' column)
    (hlower : Text.lower word = Text.lower word') (hnot : ¬LibraryWord (code line) word column) :
    word = word' := by
  have hlength : word.length = word'.length := by
    rw [← length_lower word, hlower, length_lower]
  refine List.ext_getElem? fun i => ?_
  by_cases hi : i < word.length
  · have hline := hword.getElem?_line hi
    have hin : column + i < line.length := by
      by_contra hout
      rw [List.getElem?_eq_none (by omega), List.getElem?_eq_getElem hi] at hline
      exact absurd hline (by simp)
    have houtside : ¬InLibraryName line (column + i) := fun hin => by
      obtain ⟨library, start, hlibrary, hstart, hstop⟩ := hin.exists_libraryWord
      rcases Nat.lt_trichotomy start column with hlt | rfl | hlt
      · have := hlibrary.wordIn.le_of_lt hword hlt
        omega
      · exact hnot (hlibrary.wordIn.unique hword ▸ hlibrary)
      · have := hword.le_of_lt hlibrary.wordIn hlt
        omega
    rw [← hline, h.outside (column + i) hin houtside, hword'.getElem?_line (by omega)]
  · rw [List.getElem?_eq_none (by omega), List.getElem?_eq_none (by omega)]

/-- The lines begin with the same two words, the first one in the same case. -/
theorem wordPair?_cases (h : AgreeUpToLibraryCase line line') :
    (wordPair? (code line) = none ∧ wordPair? (code line') = none) ∨
      ∃ words words', wordPair? (code line) = some words ∧ wordPair? (code line') = some words' ∧
        words.lower = words'.lower ∧ words.first = words'.first := by
  refine (cases_of_map_eq (by rw [← wordPair?_lower, h.lower_code, wordPair?_lower])).imp_right ?_
  rintro ⟨words, words', hwords, hwords', hlower⟩
  obtain ⟨hfirst, hcolumn, -⟩ := WordPair.of_lower_eq hlower
  exact ⟨words, words', hwords, hwords', hlower, h.word_eq (wordIn_first hwords)
    (hcolumn ▸ wordIn_first hwords') hfirst (not_libraryWord_first hwords)⟩

/-- The lines make the same declaration. -/
theorem assignment?_eq (h : AgreeUpToLibraryCase line line') :
    assignment? (code line) = assignment? (code line') := by
  rcases h.wordPair?_cases with ⟨hnone, hnone'⟩ | ⟨words, words', hwords, hwords', hlower, hfirst⟩
  · simp [assignment?, hnone, hnone']
  · obtain ⟨-, -, hlowerSecond, hcolumn, hlowerRest, -⟩ := WordPair.of_lower_eq hlower
    have hsign : words.rest.head? = some '=' ↔ words'.rest.head? = some '=' := by
      rw [← head?_lower_eq_iff rfl, hlowerRest, head?_lower_eq_iff rfl]
    have hboundary : boundaryAfter (some '=') = true := by decide
    have hsecond : words.rest.head? = some '=' → words.second = words'.second := fun hequals =>
      h.word_eq (wordIn_second hwords (hequals ▸ hboundary))
        (hcolumn ▸ wordIn_second hwords' (hsign.1 hequals ▸ hboundary)) hlowerSecond
        (not_libraryWord_second hwords hequals)
    ext a
    constructor
    · exact assignment?_of_wordPair? hwords hwords' hlower hfirst hsecond
    · exact assignment?_of_wordPair? hwords' hwords hlower.symm hfirst.symm
        fun hequals => (hsecond (hsign.2 hequals)).symm

/-- The lines import the same library, or none. -/
theorem importWords?_cases (h : AgreeUpToLibraryCase line line') :
    (importWords? (code line) = none ∧ importWords? (code line') = none) ∨
      ∃ words words', importWords? (code line) = some words ∧
        importWords? (code line') = some words' ∧ words.lower = words'.lower := by
  rcases h.wordPair?_cases with ⟨hnone, hnone'⟩ | ⟨words, words', hwords, hwords', hlower, hfirst⟩
  · exact Or.inl ⟨by simp [importWords?, hnone], by simp [importWords?, hnone']⟩
  · cases himport : importWords? (code line) with
    | none =>
      refine Or.inl ⟨rfl, ?_⟩
      rw [Option.eq_none_iff_forall_ne_some]
      intro read hread
      obtain rfl : words' = read :=
        Option.some.inj (hwords'.symm.trans (importWords?_eq_some_iff.1 hread).1)
      rw [importWords?_of_wordPair? hwords hlower.symm hfirst.symm hread] at himport
      exact absurd himport (by simp)
    | some read =>
      obtain rfl : words = read :=
        Option.some.inj (hwords.symm.trans (importWords?_eq_some_iff.1 himport).1)
      exact Or.inr ⟨words, words', rfl,
        importWords?_of_wordPair? hwords' hlower hfirst himport, hlower⟩

/-- The lines have the same heads, in small letters. -/
theorem forall₂_callHeads (h : AgreeUpToLibraryCase line line') :
    List.Forall₂ (fun p p' : Nat × CallHead => p.1 = p'.1 ∧ p.2.lower = p'.2.lower)
      (callHeads (code line)) (callHeads (code line')) := by
  have hmap := callHeads_lower (code line)
  rw [h.lower_code, callHeads_lower] at hmap
  exact (forall₂_of_map_eq hmap.symm).imp fun p p' hp => Prod.mk.inj hp

/-- A call in the same column calls the same function of the same library. -/
theorem recased_ofHead (h : AgreeUpToLibraryCase line line') {column : Nat}
    {head head' : CallHead} (hhead : (column, head) ∈ callHeads (code line))
    (hhead' : (column, head') ∈ callHeads (code line')) (hlower : head.lower = head'.lower)
    (index : Nat) (bound bound' : Bool) : (LibraryCall.ofHead index line bound column head).Recased
      (.ofHead index line' bound' column head') := by
  obtain ⟨hlibrary, hfunction, hlegacy, -⟩ := CallHead.of_lower_eq hlower
  have hresolve := resolve?_eq_of_lower_eq hlibrary
  have hopening : head.openingOffset = head'.openingOffset := by
    rw [← CallHead.openingOffset_lower, hlower, CallHead.openingOffset_lower]
  have hoffset : head.functionOffset = head'.functionOffset := by
    rw [← CallHead.functionOffset_lower, hlower, CallHead.functionOffset_lower]
  have hlength : head.library.length = head'.library.length := by
    rw [← length_lower, hlibrary, length_lower]
  have hsame : head.function = head'.function := h.word_eq (wordIn_head hhead).2
    (hoffset ▸ (wordIn_head hhead').2) hfunction (not_libraryWord_function hhead)
  refine ⟨⟨hresolve, ?_, ?_, ?_⟩, congrArg String.ofList hsame, hlegacy, ?_⟩
  · simp only [LibraryCall.ofHead, isLibraryName, hlegacy, hresolve]
  · simp only [LibraryCall.ofHead, hlength]
  · simp only [LibraryCall.ofHead, hoffset, hsame]
  · simp only [LibraryCall.ofHead, hopening, h.closingParen_eq]

/-- A call in the same column is held against a declaration in the same way. -/
theorem match_ofCall (h : AgreeUpToLibraryCase line line') {column : Nat} {head head' : CallHead}
    (hhead : (column, head) ∈ callHeads (code line))
    (hhead' : (column, head') ∈ callHeads (code line')) (hlower : head.lower = head'.lower)
    (index : Nat) : (BoundCall.ofCall line (.ofHead index line true column head)).Match
      (.ofCall line' (.ofHead index line' true column head')) := by
  have hcall := h.recased_ofHead hhead hhead' hlower index true true
  have hopening : head.openingOffset = head'.openingOffset := by
    rw [← CallHead.openingOffset_lower, hlower, CallHead.openingOffset_lower]
  have hends : ∀ column, endsAfter (code line) column = endsAfter (code line') column :=
    fun column => by rw [← endsAfter_lower, h.lower_code, endsAfter_lower]
  refine ⟨?_, hcall.function, ?_⟩
  · have hlibrary := hcall.library
    have hfunction := hcall.function
    simp only [BoundCall.result?, BoundCall.ofCall, hlibrary, hfunction]
  · have hspan := hcall.callSpan
    simp only [BoundCall.ofCall, hspan, hends]
    simp only [LibraryCall.ofHead, Option.isSome_map, hopening, h.closingParen_eq]

/-- A declaration without calls on its line names no library. -/
theorem eq_of_callHeads_eq_nil (h : AgreeUpToLibraryCase line line') {a : Assignment}
    (ha : assignment? (code line) = some a) (hheads : callHeads (code line) = []) :
    line = line' := by
  have hlength : line.length = line'.length := by rw [← length_lower, h.lower, length_lower]
  refine List.ext_getElem? fun column => ?_
  by_cases hcolumn : column < line.length
  · refine h.outside column hcolumn fun hin => ?_
    obtain ⟨word, start, ⟨words, hwords, -⟩ | ⟨head, hhead, -⟩, -⟩ := hin.exists_libraryWord
    · rw [assignment?_of_importWords? hwords] at ha
      exact absurd ha (by simp)
    · rw [hheads] at hhead
      exact absurd hhead List.not_mem_nil
  · rw [List.getElem?_eq_none (by omega), List.getElem?_eq_none (by omega)]

/-- The initializers have one shape : where they differ, they hold the parenthesis of a
call. -/
theorem classify_initializer (h : AgreeUpToLibraryCase line line') {a : Assignment}
    (ha : assignment? (code line) = some a) (index : Nat) :
    Shape.classify (Declaration.ofAssignment index line a).initializer.toList =
      Shape.classify (Declaration.ofAssignment index line' a).initializer.toList := by
  cases hheads : callHeads (code line) with
  | nil => rw [h.eq_of_callHeads_eq_nil ha hheads]
  | cons p rest =>
    set value := between line a.valueColumn (code line).length with hvalue
    set value' := between line' a.valueColumn (code line').length with hvalue'
    have hlower : Text.lower value = Text.lower value' := by
      rw [hvalue, hvalue', ← between_lower, ← between_lower, h.lower, ← length_lower (code line),
        h.lower_code, length_lower]
    have hparen : '(' ∈ value :=
      paren_mem_value ha (show p ∈ callHeads (code line) by rw [hheads]; exact List.mem_cons_self)
    have hparen' : '(' ∈ value' := by
      rw [← mem_lower_iff rfl, ← hlower, mem_lower_iff rfl]
      exact hparen
    have hmem : ∀ {cs}, '(' ∈ cs → '(' ∈ expressionOf cs := fun hcs =>
      mem_expressionOf hcs (by decide) (by decide)
    change Shape.classify (String.ofList (expressionOf value)).toList =
      Shape.classify (String.ofList (expressionOf value')).toList
    rw [String.toList_ofList, String.toList_ofList, ← Shape.classify_lower (hmem (hmem hparen)),
      ← Shape.classify_lower (hmem (hmem hparen')), ← expressionOf_lower, hlower,
      expressionOf_lower]

/-- A declaration says the same. -/
theorem match_ofAssignment (h : AgreeUpToLibraryCase line line') {a : Assignment}
    (ha : assignment? (code line) = some a) (index : Nat) :
    (Declaration.ofAssignment index line a).Match Eq Eq (.ofAssignment index line' a) where
  keyword := rfl
  kind := rfl
  name := rfl
  nameSpan := rfl
  statementSpan := by
    have hlength : (trimEnd (code line)).length = (trimEnd (code line')).length := by
      rw [← length_lower, ← trimEnd_lower, h.lower_code, trimEnd_lower, length_lower]
    simp only [Declaration.ofAssignment, hlength]
  call := by
    have hhead := a.head?_lower (code line)
    rw [h.lower_code, a.head?_lower] at hhead
    simp only [Declaration.ofAssignment]
    rcases cases_of_map_eq hhead.symm with ⟨hnone, hnone'⟩ | ⟨⟨column, head⟩, ⟨column', head'⟩,
      hhead, hhead', hsame⟩
    · rw [hnone, hnone']
      exact Option.Rel.none
    · obtain ⟨rfl, hlower⟩ := Prod.mk.inj hsame
      have hmem : (column, head) ∈ callHeads (code line) := by
        obtain ⟨rest, hrest⟩ := callHeads_of_head? ha hhead
        rw [hrest]
        exact List.mem_cons_self
      have hmem' : (column, head') ∈ callHeads (code line') := by
        obtain ⟨rest, hrest⟩ := callHeads_of_head? (h.assignment?_eq ▸ ha) hhead'
        rw [hrest]
        exact List.mem_cons_self
      rw [hhead, hhead']
      exact Option.Rel.some (h.match_ofCall hmem hmem' hlower index)
  shape := fun _ => h.classify_initializer ha index

theorem recased_callsOfLine (h : AgreeUpToLibraryCase line line') (index : Nat)
    (bound bound' : Option Nat) : List.Forall₂ Event.Recased
      ((callsOfLine index line bound).map .call) ((callsOfLine index line' bound').map .call) := by
  rw [callsOfLine, callsOfLine, List.map_map, List.map_map]
  refine List.rel_map ?_ (forall₂_and_mem h.forall₂_callHeads)
  rintro ⟨column, head⟩ ⟨column', head'⟩ ⟨⟨rfl, hlower⟩, hhead, hhead'⟩
  exact .call (h.recased_ofHead hhead hhead' hlower index _ _)

/-- The lines say the same of the same libraries. -/
theorem recased_eventsOfLine (h : AgreeUpToLibraryCase line line') (index : Nat) :
    List.Forall₂ Event.Recased (eventsOfLine index line) (eventsOfLine index line') := by
  rw [eventsOfLine_eq, eventsOfLine_eq, ← h.assignment?_eq]
  cases ha : assignment? (code line) with
  | some a =>
    exact List.Forall₂.cons (.declaration (h.match_ofAssignment ha index))
      (h.recased_callsOfLine index _ _)
  | none =>
    refine List.rel_append ?_ (h.recased_callsOfLine index none none)
    rcases h.importWords?_cases with ⟨hnone, hnone'⟩ | ⟨words, words', hwords, hwords', hlower⟩
    · rw [hnone, hnone']
      exact List.Forall₂.nil
    · obtain ⟨-, -, hsecond, hcolumn, -⟩ := WordPair.of_lower_eq hlower
      have hlength : words.second.length = words'.second.length := by
        rw [← length_lower, hsecond, length_lower]
      rw [hwords, hwords']
      refine List.Forall₂.cons (.imported ⟨resolve?_eq_of_lower_eq hsecond, ?_⟩) List.Forall₂.nil
      simp only [Import.ofWords, hcolumn, hlength]

end AgreeUpToLibraryCase

end RazenLint
