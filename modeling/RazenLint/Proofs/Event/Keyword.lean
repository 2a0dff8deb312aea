import RazenLint.Proofs.Event.Shift
import RazenLint.Proofs.Symbol.Occurrence

/-!
# A declaration with another keyword

A line that begins with a keyword is read in two parts. `KeywordSlot` is such a line without
the keyword : the blanks in front of it and the text behind it. The text behind is read as if
it were a line of its own (`code_append_of_plain`, `LibraryCall.ofHead_append`), so the heads,
the name and the value are where they are behind any other keyword
(`KeywordSlot.callHeads_line`, `KeywordSlot.assignment?_line`).

`KeywordSlot.eventsOfLine_line` : with another keyword the declaration commits to another
kind, and all that stands behind the keyword moves by the difference of the lengths.
-/

namespace RazenLint

open Text

/-! ## Text in front of a line -/

/-- Text that neither begins a literal nor a comment. -/
def IsPlain (cs : List Char) : Prop :=
  ∀ c ∈ cs, isQuote c = false ∧ c ≠ commentSign

section

variable {front : List Char} (hfront : IsPlain front)

include hfront in
theorem code_append_of_plain (line : List Char) : code (front ++ line) = front ++ code line := by
  obtain ⟨hafter, hmask⟩ := maskFrom_code_of_plain fun c hc => (hfront c hc).1
  have hsign : commentSign ∉ maskFrom .code front := by
    rw [hmask]
    exact fun hmem => (hfront _ hmem).2 rfl
  rw [code_eq_codeFrom, codeFrom_append hsign, hafter, hmask]
  rfl

theorem closingParen_add_length (front code : List Char) (opening : Nat) :
    closingParen (front ++ code) (opening + front.length) =
      (closingParen code opening).map (· + front.length) := by
  rw [closingParen, closingParen, Nat.add_comm opening, List.drop_length_add_append, Option.map_map]
  congr 1
  funext distance
  simp only [Function.comp_apply]
  omega

theorem between_append (front line : List Char) (start stop : Nat) :
    between (front ++ line) (start + front.length) (stop + front.length) =
      between line start stop := by
  rw [between, between, Nat.add_comm start, List.drop_length_add_append, Nat.add_comm,
    Nat.add_sub_add_left]

include hfront in
/-- A call further to the right says the same. -/
theorem LibraryCall.ofHead_append (index : Nat) (line : List Char) (bound : Bool) (column : Nat)
    (head : CallHead) : ofHead index (front ++ line) bound (column + front.length) head =
      (ofHead index line bound column head).mapSpans (·.advance front.length) := by
  have hopening : column + front.length + head.openingOffset =
      column + head.openingOffset + front.length := by omega
  have hclosing := closingParen_add_length front (code line) (column + head.openingOffset)
  rw [← code_append_of_plain hfront] at hclosing
  simp only [ofHead, mapSpans, Span.advance, hopening, hclosing]
  cases closingParen (code line) (column + head.openingOffset) with
  | none =>
    simp
    omega
  | some closing =>
    have hbetween := between_append front line (column + head.openingOffset + 1) closing
    rw [Nat.add_right_comm _ 1] at hbetween
    simp [hbetween]
    omega

include hfront in
theorem BoundCall.ofCall_append (line : List Char) (c : LibraryCall) :
    ofCall (front ++ line) (c.mapSpans (·.advance front.length)) = ofCall line c := by
  have hends : endsAfter (code (front ++ line)) (c.callSpan.stop + front.length) =
      endsAfter (code line) c.callSpan.stop := by
    rw [endsAfter, endsAfter, code_append_of_plain hfront, Nat.add_comm,
      List.drop_length_add_append]
  simp only [ofCall, LibraryCall.mapSpans, Span.advance, hends]

end

/-! ## The place of a keyword -/

/-- A line without its first word : the blanks in front of the word, and a text that begins
with a blank behind it. -/
structure KeywordSlot where
  indent : List Char
  tail : List Char
  blank : ∀ c ∈ indent, isBlank c = true
  apart : tail.head?.any isBlank = true

namespace KeywordSlot

variable (slot : KeywordSlot)

/-- What stands up to the end of the word. -/
def lead (word : List Char) : List Char :=
  slot.indent ++ word

/-- The line with the word. -/
def line (word : List Char) : List Char :=
  slot.lead word ++ slot.tail

theorem exists_cons_code : ∃ c rest, code slot.tail = c :: rest ∧ isBlank c = true := by
  have hapart := slot.apart
  obtain ⟨c, rest, htail⟩ : ∃ c rest, slot.tail = c :: rest := by
    cases htail : slot.tail with
    | nil => rw [htail] at hapart; cases hapart
    | cons c rest => exact ⟨c, rest, rfl⟩
  have hc : isBlank c = true := by simpa [htail] using hapart
  refine ⟨c, codeFrom .code rest, ?_, hc⟩
  have hsign : c ≠ commentSign := by
    rintro rfl
    exact absurd hc (by decide)
  rw [htail, code_eq_codeFrom, codeFrom_cons, next_code (isQuote_of_isBlank hc)]
  exact if_neg hsign

section

variable {word : List Char} (hword : isIdent word = true)

include hword

theorem isPlain_lead : IsPlain (slot.lead word) := by
  intro c hc
  rcases List.mem_append.1 hc with hc | hc
  · have hblank := slot.blank c hc
    exact ⟨isQuote_of_isBlank hblank, by rintro rfl; exact absurd hblank (by decide)⟩
  · have hrest := isIdentRest_of_mem_isIdent hword hc
    exact ⟨isQuote_of_isIdentRest hrest, by rintro rfl; exact absurd hrest (by decide)⟩

theorem code_line : code (slot.line word) = slot.lead word ++ code slot.tail :=
  code_append_of_plain (slot.isPlain_lead hword) slot.tail

theorem takeIdent?_word : takeIdent? (word ++ code slot.tail) = some (word, code slot.tail) := by
  obtain ⟨c, rest, hcode, hc⟩ := slot.exists_cons_code
  refine takeIdent?_eq_some_iff.2 ⟨rfl, hword, ?_⟩
  rw [hcode]
  by_contra hrest
  have := isBlank_of_isIdentRest (c := c) (by simpa using hrest)
  rw [hc] at this
  cases this

theorem trimStart_code_line : trimStart (code (slot.line word)) = word ++ code slot.tail := by
  obtain ⟨c, cs, rfl, hc⟩ := exists_cons_of_isIdent hword
  rw [slot.code_line hword, lead, List.append_assoc, trimStart_append_of_blank slot.blank,
    List.cons_append, trimStart_of_not_blank (isBlank_of_isIdentStart hc)]

theorem takeWhile_code_line : (code (slot.line word)).takeWhile isBlank = slot.indent := by
  obtain ⟨c, cs, rfl, hc⟩ := exists_cons_of_isIdent hword
  rw [slot.code_line hword, lead, List.append_assoc, List.takeWhile_append_of_pos slot.blank]
  simp [isBlank_of_isIdentStart hc]

/-- The heads of the line stand behind the word. -/
theorem callHeads_line : callHeads (code (slot.line word)) =
    (callHeads (code slot.tail)).map fun p => (p.1 + (slot.lead word).length, p.2) := by
  obtain ⟨c, rest, hcode, hc⟩ := slot.exists_cons_code
  have hstart : ∀ d : Char, isBlank d = true → isIdentStart d = false := by
    intro d hd
    by_contra hstart
    rw [isBlank_of_isIdentStart (by simpa using hstart)] at hd
    cases hd
  have hplain : ∀ column previous t, scanFrom headFrom column previous ([c] ++ t) =
      scanFrom headFrom (column + 1) (some c) t := by
    intro column previous t
    refine readsWords_headFrom.scanFrom_plain (fun d hd => ?_) column previous t
    rw [List.mem_singleton.1 hd]
    exact hstart c hc
  -- the word is followed by a blank, so it is no library
  have hnone : ∀ column previous, headFrom column previous (word ++ code slot.tail) = none := by
    intro column previous
    have : headAt? (word ++ code slot.tail) = none := by
      rw [headAt?, slot.takeIdent?_word hword, hcode]
      simp only [Option.bind_eq_bind, Option.bind_some]
      split
      · rename_i heq
        rw [(List.cons.inj heq).1] at hc
        exact absurd hc (by decide)
      · rename_i heq
        rw [(List.cons.inj heq).1] at hc
        exact absurd hc (by decide)
      · rfl
    simp [headFrom, this]
  rw [callHeads, callHeads, ← callHeadsFrom_add, callHeadsFrom_eq_scanFrom,
    callHeadsFrom_eq_scanFrom, slot.code_line hword, lead, List.append_assoc,
    readsWords_headFrom.scanFrom_plain fun d hd => hstart d (slot.blank d hd),
    readsWords_headFrom.scanFrom_ident hword, hnone]
  rw [hcode]
  change [] ++ scanFrom headFrom _ _ ([c] ++ rest) = scanFrom headFrom _ _ ([c] ++ rest)
  rw [hplain, hplain, List.nil_append, List.length_append, Nat.zero_add, Nat.zero_add]

end

end KeywordSlot

/-! ## The declaration behind the keyword -/

/-- The name of a declaration and its value, with their columns behind the keyword. -/
structure NamedValue where
  name : List Char
  nameColumn : Nat
  valueColumn : Nat
deriving DecidableEq, Repr

/-- The name and the value that the code behind a keyword begins with. -/
def namedValue? (code : List Char) : Option NamedValue := do
  let gap := (code.takeWhile isBlank).length
  let (name, rest) ← takeIdent? (trimStart code)
  match trimStart rest with
  | '=' :: value =>
    if value.head? = some '=' then none
    else return {
      name, nameColumn := gap
      valueColumn := gap + name.length + (rest.takeWhile isBlank).length + 1 }
  | _ => none

/-- The head that a value begins with, with its column. -/
def NamedValue.head? (value : NamedValue) (code : List Char) : Option (Nat × CallHead) :=
  (headAt? (trimStart (code.drop value.valueColumn))).map fun head =>
    (value.valueColumn + ((code.drop value.valueColumn).takeWhile isBlank).length, head)

namespace KeywordSlot

variable (slot : KeywordSlot) {word word' : List Char} (index : Nat)

/-- The declaration that the line makes with the given keyword. -/
def declaration (value : NamedValue) (word : List Char) (kind : Kind) : Declaration where
  keyword := String.ofList word
  kind
  name := String.ofList value.name
  nameSpan := Span.advance ⟨index, value.nameColumn, value.nameColumn + value.name.length⟩
    (slot.lead word).length
  statementSpan :=
    ⟨index, slot.indent.length, (trimEnd (code slot.tail)).length + (slot.lead word).length⟩
  initializer := String.ofList
    (expressionOf (between slot.tail value.valueColumn (code slot.tail).length))
  call := (value.head? (code slot.tail)).map fun (column, head) =>
    .ofCall slot.tail (.ofHead index slot.tail true column head)

section

variable (hword : isIdent word = true)

include hword

theorem assignment?_line : assignment? (code (slot.line word)) =
    (Kind.ofKeyword? (String.ofList word)).bind fun kind =>
      (namedValue? (code slot.tail)).map fun value =>
        { keyword := word, keywordColumn := slot.indent.length, kind, name := value.name
          nameColumn := value.nameColumn + (slot.lead word).length
          valueColumn := value.valueColumn + (slot.lead word).length } := by
  obtain ⟨c, rest, hcode, hc⟩ := slot.exists_cons_code
  have hgap : ((code slot.tail).takeWhile isBlank).length ≠ 0 := by simp [hcode, hc]
  have hlead : (slot.lead word).length = slot.indent.length + word.length := List.length_append
  rw [assignment?, wordPair?, namedValue?, slot.takeWhile_code_line hword,
    slot.trimStart_code_line hword, slot.takeIdent?_word hword, hlead]
  simp only [Option.bind_eq_bind, Option.bind_some, if_neg hgap]
  cases takeIdent? (trimStart (code slot.tail)) with
  | none => cases Kind.ofKeyword? (String.ofList word) <;> rfl
  | some split =>
    obtain ⟨name, after⟩ := split
    simp only [Option.bind_some, Option.pure_def]
    cases Kind.ofKeyword? (String.ofList word) with
    | none => rfl
    | some kind =>
      cases trimStart after with
      | nil => rfl
      | cons d value =>
        by_cases hd : d = '='
        · by_cases hvalue : value.head? = some '='
          · simp [hd, hvalue]
          · simp only [hd, hvalue, Option.bind_some, if_false, Option.map_some,
              Option.some.injEq, Assignment.mk.injEq, true_and]
            omega
        · simp [hd]

theorem head?_line (value : NamedValue) (kind : Kind) : Assignment.head?
    { keyword := word, keywordColumn := slot.indent.length, kind, name := value.name
      nameColumn := value.nameColumn + (slot.lead word).length
      valueColumn := value.valueColumn + (slot.lead word).length } (code (slot.line word)) =
    (value.head? (code slot.tail)).map fun p => (p.1 + (slot.lead word).length, p.2) := by
  rw [Assignment.head?, NamedValue.head?, slot.code_line hword, Nat.add_comm value.valueColumn,
    List.drop_length_add_append, Option.map_map]
  congr 1
  funext head
  simp only [Function.comp_apply, Prod.mk.injEq, and_true]
  omega

/-- What an assignment behind the keyword declares. -/
theorem ofAssignment_line (value : NamedValue) (kind : Kind) : Declaration.ofAssignment index
    (slot.line word)
    { keyword := word, keywordColumn := slot.indent.length, kind, name := value.name
      nameColumn := value.nameColumn + (slot.lead word).length
      valueColumn := value.valueColumn + (slot.lead word).length } =
    slot.declaration index value word kind := by
  obtain ⟨c, hlast⟩ : ∃ c, word.getLast? = some c := by
    obtain ⟨d, ds, rfl, -⟩ := exists_cons_of_isIdent hword
    exact ⟨_, List.getLast?_eq_some_getLast (List.cons_ne_nil d ds)⟩
  have hlead : (slot.lead word).getLast? = some c := by
    rw [lead, List.getLast?_append, hlast]
    rfl
  have hblank := isBlank_of_isIdentRest
    (isIdentRest_of_mem_isIdent hword (List.mem_of_getLast? hlast))
  have hcode := slot.code_line hword
  have hend : (trimEnd (code (slot.line word))).length =
      (trimEnd (code slot.tail)).length + (slot.lead word).length := by
    rw [hcode, trimEnd_append hlead hblank, List.length_append, Nat.add_comm]
  have hvalue : between (slot.line word) (value.valueColumn + (slot.lead word).length)
      (code (slot.line word)).length =
        between slot.tail value.valueColumn (code slot.tail).length := by
    rw [hcode, List.length_append, Nat.add_comm (slot.lead word).length]
    exact between_append _ _ _ _
  have hname : value.nameColumn + (slot.lead word).length + value.name.length =
      value.nameColumn + value.name.length + (slot.lead word).length := by omega
  have hplain := slot.isPlain_lead hword
  rw [Declaration.ofAssignment, slot.head?_line hword]
  simp only [declaration, hend, hvalue, hname, Span.advance, Option.map_map, expressionOf,
    Declaration.mk.injEq, true_and]
  congr 1
  funext p
  rw [Function.comp_apply, line, LibraryCall.ofHead_append hplain,
    BoundCall.ofCall_append hplain]

theorem callsOfLine_line (bound : Option Nat) :
    callsOfLine index (slot.line word) (bound.map (· + (slot.lead word).length)) =
      (callsOfLine index slot.tail bound).map
        (LibraryCall.mapSpans (·.advance (slot.lead word).length)) := by
  rw [callsOfLine, callsOfLine, slot.callHeads_line hword, List.map_map, List.map_map]
  refine List.map_congr_left fun p _ => ?_
  have hbound : (bound.map (· + (slot.lead word).length) = some (p.1 + (slot.lead word).length)) =
      (bound = some p.1) := by
    cases bound <;> simp
  simp only [Function.comp_apply, hbound]
  exact LibraryCall.ofHead_append (slot.isPlain_lead hword) _ _ _ _ _

/-- The events of the line with a declaration keyword. -/
theorem eventsOfLine_line {kind : Kind} (hkind : Kind.ofKeyword? (String.ofList word) = some kind)
    {value : NamedValue} (hvalue : namedValue? (code slot.tail) = some value) :
    eventsOfLine index (slot.line word) = .declaration (slot.declaration index value word kind) ::
      ((callsOfLine index slot.tail ((value.head? (code slot.tail)).map (·.1))).map
        (LibraryCall.mapSpans (·.advance (slot.lead word).length))).map .call := by
  rw [eventsOfLine_eq, slot.assignment?_line hword, hkind, hvalue,
    ← slot.callsOfLine_line index hword]
  simp only [Option.bind_some, Option.map_some, slot.ofAssignment_line index hword,
    slot.head?_line hword, Option.map_map]
  rfl

end

/-- A line that begins with two words has a slot for the first one. The second word ends in no
carriage return. -/
theorem exists_of_wordPair? {line : List Char} {words : WordPair}
    (h : wordPair? (code line) = some words) : ∃ (slot : KeywordSlot) (anchor back : List Char)
      (c : Char), line = slot.line words.first ∧ slot.tail = anchor ++ back ∧
        anchor.getLast? = some c ∧ c ≠ '\r' ∧ isIdent words.first = true := by
  obtain ⟨indent, gap, back, hline, hindent, hgap, hne, hfirst, hsecond, -⟩ :=
    exists_line_of_wordPair? h
  obtain ⟨b, bs, rfl⟩ := List.exists_cons_of_ne_nil hne
  have hlast := List.getLast?_eq_some_getLast (ne_nil_of_isIdent hsecond)
  refine ⟨⟨indent, (b :: bs ++ words.second) ++ back, hindent, ?_⟩, b :: bs ++ words.second, back,
    words.second.getLast (ne_nil_of_isIdent hsecond), ?_, rfl, ?_, ?_, hfirst⟩
  · simpa using hgap b List.mem_cons_self
  · rw [hline, KeywordSlot.line, lead]
    simp
  · rw [List.getLast?_append, hlast]
    rfl
  · intro hreturn
    have hrest := isIdentRest_of_mem_isIdent hsecond (List.getLast_mem (ne_nil_of_isIdent hsecond))
    rw [hreturn] at hrest
    exact absurd hrest (by decide)

end KeywordSlot

/-! ## Declaration keywords -/

theorem mem_keywords_of_ofKeyword? {word : String} {kind : Kind}
    (h : Kind.ofKeyword? word = some kind) : word ∈ declarationKeywords.map (·.1) := by
  by_contra hnone
  have : declarationKeywords.lookup word = none := by
    rw [List.lookup_eq_none_iff]
    intro p hp
    rw [bne_iff_ne]
    rintro rfl
    exact hnone (List.mem_map_of_mem hp)
  rw [Kind.ofKeyword?, this] at h
  cases h

/-- A declaration keyword is an identifier. -/
theorem isIdent_of_ofKeyword? {word : String} {kind : Kind}
    (h : Kind.ofKeyword? word = some kind) : isIdent word.toList = true :=
  (show ∀ word ∈ declarationKeywords.map (·.1), isIdent word.toList = true by decide +kernel) word
    (mem_keywords_of_ofKeyword? h)

/-! ## The difference that a keyword makes -/

/-- The place of the keyword of a declaration. -/
def Declaration.keywordSpan (d : Declaration) : Span :=
  ⟨d.statementSpan.line, d.statementSpan.start, d.statementSpan.start + d.keyword.toList.length⟩

/-- The declaration with another keyword, in the same place. -/
def Declaration.withKeyword (d : Declaration) (keyword : String) (kind : Kind) : Declaration :=
  { d with keyword, kind }

/-- The column of a character when the keyword of its line has another length. -/
def Span.movedColumn (keyword : Span) (length column : Nat) : Nat :=
  if column ≤ keyword.start then column else column + length - keyword.length

/-- The same stretch when the keyword of its line has another length. -/
def Span.moved (s keyword : Span) (length : Nat) : Span :=
  if s.line = keyword.line then
    ⟨s.line, keyword.movedColumn length s.start, keyword.movedColumn length s.stop⟩
  else s

namespace KeywordSlot

variable (slot : KeywordSlot) {word : List Char} (index : Nat)

/-- A column behind a keyword moves with it. -/
theorem movedColumn_add (hword : word ≠ []) (word' : List Char) (column : Nat) :
    Span.movedColumn ⟨index, slot.indent.length, slot.indent.length + word.length⟩ word'.length
        (column + (slot.lead word).length) = column + (slot.lead word').length := by
  have hpos := List.length_pos_iff.2 hword
  have hlead : ∀ cs, (slot.lead cs).length = slot.indent.length + cs.length :=
    fun cs => List.length_append
  rw [Span.movedColumn, Span.length, hlead, hlead]
  dsimp only
  rw [if_neg (by omega)]
  omega

/-- What stands behind a keyword moves with it. -/
theorem moved_advance (hword : word ≠ []) (word' : List Char) {s : Span} (hs : s.line = index) :
    (s.advance (slot.lead word).length).moved
        ⟨index, slot.indent.length, slot.indent.length + word.length⟩ word'.length =
      s.advance (slot.lead word').length := by
  rw [Span.moved, if_pos (by exact hs)]
  simp only [Span.advance, slot.movedColumn_add index hword]

theorem keywordSpan_declaration (value : NamedValue) (word : List Char) (kind : Kind) :
    (slot.declaration index value word kind).keywordSpan =
      ⟨index, slot.indent.length, slot.indent.length + word.length⟩ := by
  rw [Declaration.keywordSpan, declaration, String.toList_ofList]

theorem declaration_withKeyword (hword : word ≠ []) (value : NamedValue) (kind : Kind)
    (word' : List Char) (kind' : Kind) :
    (((slot.declaration index value word kind).withKeyword (String.ofList word') kind').mapSpans
        (·.moved (slot.declaration index value word kind).keywordSpan word'.length)) =
      slot.declaration index value word' kind' := by
  have hname := slot.moved_advance index hword word'
    (s := ⟨index, value.nameColumn, value.nameColumn + value.name.length⟩) rfl
  have hstart : Span.movedColumn ⟨index, slot.indent.length, slot.indent.length + word.length⟩
      word'.length slot.indent.length = slot.indent.length := if_pos le_rfl
  rw [keywordSpan_declaration]
  simp only [Declaration.withKeyword, Declaration.mapSpans, declaration, hname]
  rw [Span.moved, if_pos rfl, hstart, slot.movedColumn_add index hword]

/-- With another keyword the line declares the same with another kind, and what stands behind
the keyword moves. -/
theorem exists_eventsOfLine (hword : isIdent word = true) {word' : List Char}
    (hword' : isIdent word' = true) {kind kind' : Kind}
    (hkind : Kind.ofKeyword? (String.ofList word) = some kind)
    (hkind' : Kind.ofKeyword? (String.ofList word') = some kind') {value : NamedValue}
    (hvalue : namedValue? (code slot.tail) = some value) : ∃ calls : List LibraryCall,
      eventsOfLine index (slot.line word) =
        .declaration (slot.declaration index value word kind) :: calls.map .call ∧
      eventsOfLine index (slot.line word') =
        (.declaration ((slot.declaration index value word kind).withKeyword (String.ofList word')
          kind') :: calls.map .call).map (Event.mapSpans
            (·.moved (slot.declaration index value word kind).keywordSpan word'.length)) := by
  have hne : word ≠ [] := by
    obtain ⟨c, cs, rfl, -⟩ := exists_cons_of_isIdent hword
    exact List.cons_ne_nil c cs
  refine ⟨_, slot.eventsOfLine_line index hword hkind hvalue, ?_⟩
  rw [slot.eventsOfLine_line index hword' hkind' hvalue, List.map_cons, Event.mapSpans,
    slot.declaration_withKeyword index hne, keywordSpan_declaration, List.map_map, List.map_map,
    List.map_map]
  congr 1
  refine List.map_congr_left fun c hc => ?_
  obtain ⟨p, -, rfl⟩ := List.mem_map.1 hc
  have hmoved := fun {s : Span} => slot.moved_advance index hne word' (s := s)
  simp only [Function.comp_apply, Event.mapSpans, LibraryCall.mapSpans, LibraryCall.ofHead]
  rw [hmoved rfl, hmoved rfl, hmoved rfl]

end KeywordSlot

end RazenLint
