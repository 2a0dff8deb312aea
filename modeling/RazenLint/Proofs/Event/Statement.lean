import RazenLint.Event.Reading
import RazenLint.Proofs.Event.CallHead

/-!
# What a line of code begins with

A declaration is read up to its equals sign, and what follows in a call head does not
change it (`assignment?_append`) : a declaration ends before the first head of its
line, and a line with a head is no import (`importWords?_eq_none`).
-/

namespace RazenLint

open Text

/-! ## Blanks in front of a head -/

theorem StartsHead.takeWhile_append {t : List Char} (ht : StartsHead t) (cs : List Char) :
    (cs ++ t).takeWhile isBlank = cs.takeWhile isBlank := by
  obtain ⟨d, ds, rfl, hd⟩ := ht.exists_cons
  induction cs with
  | nil => simp [isBlank_of_isIdentStart hd]
  | cons c cs ih =>
    rw [List.cons_append, List.takeWhile_cons, List.takeWhile_cons, ih]

theorem StartsHead.trimStart_append {t : List Char} (ht : StartsHead t) (cs : List Char) :
    trimStart (cs ++ t) = trimStart cs ++ t := by
  by_cases hblank : trimStart cs = []
  · rw [trimStart_append_of_blank (trimStart_eq_nil_iff.1 hblank), hblank, ht.trimStart_eq]
    rfl
  · exact Text.trimStart_append hblank t

/-! ## Text without parentheses -/

theorem paren_notMem_of_blank {blanks : List Char} (h : ∀ c ∈ blanks, isBlank c = true) :
    '(' ∉ blanks :=
  fun hmem => absurd (h _ hmem) (by decide)

theorem paren_notMem_of_isIdent {ident : List Char} (h : isIdent ident = true) : '(' ∉ ident :=
  fun hmem => absurd (isIdentRest_of_mem_isIdent h hmem) (by decide)

/-- A text without parentheses has no heads. -/
theorem callHeads_of_notMem {code : List Char} (h : '(' ∉ code) : callHeads code = [] := by
  rw [List.eq_nil_iff_forall_not_mem]
  rintro ⟨column, head⟩ hmem
  obtain ⟨front, blanks, rest, rfl, -, -, -⟩ := mem_callHeads_iff.1 hmem
  have hparen := List.mem_of_getLast? (head.getLast?_written blanks)
  exact h (List.mem_append_right _ (List.mem_append_left _ hparen))

/-! ## Two words -/

/-- A line of code that begins with two words is written this way. -/
theorem of_wordPair? {code : List Char} {words : WordPair} (h : wordPair? code = some words) :
    ∃ indent gap after,
      code = indent ++ (words.first ++ (gap ++ (words.second ++ (after ++ words.rest)))) ∧
      (∀ c ∈ indent, isBlank c = true) ∧ (∀ c ∈ gap, isBlank c = true) ∧
      (∀ c ∈ after, isBlank c = true) ∧ isIdent words.first = true ∧ isIdent words.second = true ∧
      words.firstColumn = indent.length ∧
      words.secondColumn = indent.length + words.first.length + gap.length ∧
      words.restColumn = words.secondColumn + words.second.length + after.length ∧ gap ≠ [] := by
  unfold wordPair? at h
  obtain ⟨⟨first, afterFirst⟩, hfirst, h⟩ := Option.bind_eq_some_iff.1 h
  obtain ⟨hcode, hfirst, -⟩ := takeIdent?_eq_some_iff.1 hfirst
  dsimp only at h
  split at h
  · exact absurd h (by simp)
  · rename_i hgap
    obtain ⟨⟨second, afterSecond⟩, hsecond, h⟩ := Option.bind_eq_some_iff.1 h
    obtain ⟨hafter, hsecond, -⟩ := takeIdent?_eq_some_iff.1 hsecond
    cases h
    refine ⟨code.takeWhile isBlank, afterFirst.takeWhile isBlank, afterSecond.takeWhile isBlank, ?_,
      fun c hc => isBlank_of_mem_takeWhile hc, fun c hc => isBlank_of_mem_takeWhile hc,
      fun c hc => isBlank_of_mem_takeWhile hc, hfirst, hsecond, rfl, rfl, rfl, ?_⟩
    · rw [takeWhile_append_trimStart, ← hafter, takeWhile_append_trimStart, ← hcode,
        takeWhile_append_trimStart]
    · intro hnil
      rw [hnil] at hgap
      exact hgap rfl

/-- What follows the two words and the blanks behind them. -/
theorem drop_restColumn {code : List Char} {words : WordPair} (h : wordPair? code = some words) :
    code.drop words.restColumn = words.rest := by
  obtain ⟨indent, gap, after, hcode, -, -, -, -, -, -, hsecond, hrest, -⟩ := of_wordPair? h
  have hlength : words.restColumn =
      (indent ++ (words.first ++ (gap ++ (words.second ++ after)))).length := by
    simp only [List.length_append]
    omega
  conv_lhs => rw [hcode, hlength]
  simp

/-- In front of a head the two words are the same, or the second one is the library of the
head and no equals sign follows it. -/
theorem wordPair?_append {pre t : List Char} (hseal : boundaryAfter pre.getLast? = true)
    (ht : StartsHead t) :
    wordPair? (pre ++ t) =
        (wordPair? pre).map (fun words => { words with rest := words.rest ++ t }) ∨
      wordPair? pre = none ∧
        ∀ words, wordPair? (pre ++ t) = some words → words.rest.head? ≠ some '=' := by
  obtain ⟨word, c, more, hword, hc⟩ := ht
  have ht : StartsHead t := ⟨word, c, more, hword, hc⟩
  have hnone : takeIdent? [] = none := rfl
  have hblank : isBlank c = false := by rcases hc with rfl | rfl <;> rfl
  have hequals : c ≠ '=' := by rcases hc with rfl | rfl <;> decide
  unfold wordPair?
  simp only [ht.trimStart_append, ht.takeWhile_append]
  by_cases hpre : trimStart pre = []
  · -- the first word would be that of the head, and no blank follows it
    exact Or.inl (by simp [hpre, hword, hnone, hblank])
  · have hseal : boundaryAfter (trimStart pre).getLast? = true := by rwa [getLast?_trimStart hpre]
    rw [takeIdent?_append hpre hseal]
    cases hfirst : takeIdent? (trimStart pre) with
    | none => exact Or.inl rfl
    | some split =>
      obtain ⟨first, afterFirst⟩ := split
      have hne := ne_nil_of_takeIdent? hseal hfirst
      have hseal' := boundaryAfter_suffix hseal (takeIdent?_eq_some_iff.1 hfirst).1 hne
      simp only [Option.map_some, Option.bind_eq_bind, Option.bind_some, ht.trimStart_append,
        ht.takeWhile_append]
      by_cases hgap : (afterFirst.takeWhile isBlank).length = 0
      · exact Or.inl (by simp [hgap])
      · simp only [if_neg hgap]
        by_cases hafter : trimStart afterFirst = []
        · refine Or.inr ⟨by simp [hafter, hnone], fun words hwords => ?_⟩
          simp only [hafter, List.nil_append, hword, Option.bind_some] at hwords
          cases hwords
          simp [trimStart_of_not_blank hblank, hequals]
        · have hseal : boundaryAfter (trimStart afterFirst).getLast? = true := by
            rwa [getLast?_trimStart hafter]
          refine Or.inl ?_
          rw [takeIdent?_append hafter hseal]
          cases takeIdent? (trimStart afterFirst) with
          | none => rfl
          | some split => simp [ht.trimStart_append, ht.takeWhile_append]

/-! ## Declarations -/

theorem of_assignment? {code : List Char} {a : Assignment} (h : assignment? code = some a) :
    ∃ words value, wordPair? code = some words ∧ words.rest = '=' :: value ∧
      value.head? ≠ some '=' ∧ a.keyword = words.first ∧ a.keywordColumn = words.firstColumn ∧
      Kind.ofKeyword? (String.ofList words.first) = some a.kind ∧ a.name = words.second ∧
      a.nameColumn = words.secondColumn ∧ a.valueColumn = words.restColumn + 1 := by
  unfold assignment? at h
  obtain ⟨words, hwords, h⟩ := Option.bind_eq_some_iff.1 h
  obtain ⟨kind, hkind, h⟩ := Option.bind_eq_some_iff.1 h
  split at h
  · rename_i value hrest
    split at h
    · exact absurd h (by simp)
    · rename_i hvalue
      cases h
      exact ⟨words, value, hwords, hrest, hvalue, rfl, rfl, hkind, rfl, rfl, rfl⟩
  · exact absurd h (by simp)

/-- A declaration is written this way up to its value. -/
theorem exists_of_assignment? {code : List Char} {a : Assignment} (h : assignment? code = some a) :
    ∃ front value, code = front ++ '=' :: value ∧ front.length + 1 = a.valueColumn ∧
      '(' ∉ front := by
  obtain ⟨words, value, hwords, hrest, -, -, -, -, -, -, hvalue⟩ := of_assignment? h
  obtain ⟨indent, gap, after, hcode, hindent, hgap, hafter, hfirst, hsecond, -, hsecondColumn,
    hrestColumn, -⟩ := of_wordPair? hwords
  refine ⟨indent ++ (words.first ++ (gap ++ (words.second ++ after))), value, ?_, ?_, ?_⟩
  · rw [hcode, hrest]
    simp
  · rw [hvalue, hrestColumn, hsecondColumn]
    simp only [List.length_append]
    omega
  · simp [paren_notMem_of_blank hindent, paren_notMem_of_blank hgap, paren_notMem_of_blank hafter,
      paren_notMem_of_isIdent hfirst, paren_notMem_of_isIdent hsecond]

/-- The keyword and the name of a declaration stand in front of its equals sign. -/
theorem columns_of_assignment? {code : List Char} {a : Assignment} (h : assignment? code = some a) :
    a.keywordColumn < a.nameColumn ∧ a.nameColumn + a.name.length < a.valueColumn ∧
      a.valueColumn ≤ code.length := by
  obtain ⟨words, value, hwords, hrest, -, hkeyword, hkeywordColumn, -, hname, hnameColumn,
    hvalue⟩ := of_assignment? h
  obtain ⟨indent, gap, after, hcode, -, -, -, hfirst, -, hfirstColumn, hsecondColumn,
    hrestColumn, -⟩ := of_wordPair? hwords
  obtain ⟨c, cs, hcs, -⟩ := exists_cons_of_isIdent hfirst
  have hpos : 0 < words.first.length := by simp [hcs]
  have hlength := congrArg List.length hcode
  simp only [List.length_append, hrest, List.length_cons] at hlength
  rw [hname]
  omega

/-- A declaration in front of a head does not depend on the head. -/
theorem assignment?_append {pre t : List Char} (hseal : boundaryAfter pre.getLast? = true)
    (ht : StartsHead t) : assignment? (pre ++ t) = assignment? pre := by
  unfold assignment?
  rcases wordPair?_append hseal ht with hwords | ⟨hnone, hrest⟩
  · obtain ⟨d, ds, rfl, hd⟩ := ht.exists_cons
    have hequals : d ≠ '=' := by
      rintro rfl
      exact absurd hd (by decide)
    rw [hwords]
    cases wordPair? pre with
    | none => rfl
    | some words =>
      cases hkind : Kind.ofKeyword? (String.ofList words.first) with
      | none => simp [hkind]
      | some kind =>
        cases hrest : words.rest with
        | nil => simp [hkind, hrest, hequals]
        | cons e rest =>
          by_cases he : e = '='
          · cases rest <;> simp [hkind, hrest, he, hequals]
          · simp [hkind, hrest, he]
  · rw [hnone]
    cases hwords : wordPair? (pre ++ t) with
    | none => rfl
    | some words =>
      have hequals := hrest words hwords
      cases hkind : Kind.ofKeyword? (String.ofList words.first) with
      | none => simp [hkind]
      | some kind =>
        cases hrest : words.rest with
        | nil => simp [hkind, hrest]
        | cons e rest =>
          have he : e ≠ '=' := by simpa [hrest] using hequals
          simp [hkind, hrest, he]

/-- The value of a declaration begins before every head of its line. -/
theorem valueColumn_le_of_mem_callHeads {code : List Char} {a : Assignment} {column : Nat}
    {head : CallHead} (h : assignment? code = some a) (hmem : (column, head) ∈ callHeads code) :
    a.valueColumn ≤ column := by
  obtain ⟨front, blanks, rest, rfl, rfl, hseal, hfits⟩ := mem_callHeads_iff.1 hmem
  rw [assignment?_append hseal (startsHead_written hfits rest)] at h
  exact (columns_of_assignment? h).2.2

/-! ## Imports -/

/-- An import is an import keyword and a name, and then nothing but blanks around at most
one semicolon. -/
theorem importWords?_eq_some_iff {code : List Char} {words : WordPair} :
    importWords? code = some words ↔ wordPair? code = some words ∧
      String.ofList words.first ∈ importKeywords ∧
        ((∀ c ∈ words.rest, isBlank c = true) ∨
          ∃ tail, words.rest = ';' :: tail ∧ ∀ c ∈ tail, isBlank c = true) := by
  have hsemicolon : ∀ {tail : List Char}, ¬∀ c ∈ ';' :: tail, isBlank c = true := fun h =>
    absurd (h ';' List.mem_cons_self) (by decide)
  unfold importWords?
  constructor
  · intro h
    obtain ⟨words, hwords, h⟩ := Option.bind_eq_some_iff.1 h
    dsimp only at h
    split at h
    · rename_i tail hrest
      obtain ⟨⟨hkeyword, htail⟩, h⟩ := Option.ite_none_right_eq_some.1 h
      obtain rfl := Option.some.inj h
      exact ⟨hwords, hkeyword, Or.inr ⟨tail, hrest, List.all_eq_true.1 htail⟩⟩
    · obtain ⟨⟨hkeyword, htail⟩, h⟩ := Option.ite_none_right_eq_some.1 h
      obtain rfl := Option.some.inj h
      exact ⟨hwords, hkeyword, Or.inl (List.all_eq_true.1 htail)⟩
  · rintro ⟨hwords, hkeyword, hrest | ⟨tail, hrest, htail⟩⟩
    · rw [hwords, Option.bind_eq_bind, Option.bind_some]
      dsimp only
      split
      · rename_i tail hsign
        rw [hsign] at hrest
        exact absurd hrest hsemicolon
      · rw [if_pos ⟨hkeyword, List.all_eq_true.2 hrest⟩]
        rfl
    · rw [hwords, Option.bind_eq_bind, Option.bind_some, hrest]
      exact if_pos ⟨hkeyword, List.all_eq_true.2 htail⟩

theorem assignment?_of_importWords? {code : List Char} {words : WordPair}
    (h : importWords? code = some words) : assignment? code = none := by
  have hkeywords : ∀ keyword ∈ importKeywords, Kind.ofKeyword? keyword = none := by decide
  obtain ⟨hwords, hkeyword, -⟩ := importWords?_eq_some_iff.1 h
  rw [assignment?, hwords, Option.bind_eq_bind, Option.bind_some, hkeywords _ hkeyword]
  rfl

/-- Words, blanks and semicolons are all that stands in an import. -/
theorem of_mem_importWords? {code : List Char} {words : WordPair}
    (h : importWords? code = some words) {c : Char} (hc : c ∈ code) :
    isIdentRest c = true ∨ isBlank c = true ∨ c = ';' := by
  obtain ⟨hwords, -, himport⟩ := importWords?_eq_some_iff.1 h
  obtain ⟨indent, gap, after, rfl, hindent, hgap, hafter, hfirst, hsecond, -⟩ := of_wordPair? hwords
  simp only [List.mem_append] at hc
  rcases hc with hc | hc | hc | hc | hc | hc
  · exact Or.inr (Or.inl (hindent c hc))
  · exact Or.inl (isIdentRest_of_mem_isIdent hfirst hc)
  · exact Or.inr (Or.inl (hgap c hc))
  · exact Or.inl (isIdentRest_of_mem_isIdent hsecond hc)
  · exact Or.inr (Or.inl (hafter c hc))
  · rcases himport with hblank | ⟨tail, hrest, htail⟩
    · exact Or.inr (Or.inl (hblank c hc))
    · rw [hrest, List.mem_cons] at hc
      exact Or.inr (hc.symm.imp_left (htail c))

/-- No parenthesis stands in an import. -/
theorem paren_notMem_of_importWords? {code : List Char} {words : WordPair}
    (h : importWords? code = some words) : '(' ∉ code := by
  intro hparen
  rcases of_mem_importWords? h hparen with h | h | h <;> exact absurd h (by decide)

/-- A line with a head is no import. -/
theorem importWords?_eq_none {pre rest : List Char} {head : CallHead} {blanks : List Char} :
    importWords? (pre ++ (head.written blanks ++ rest)) = none := by
  cases h : importWords? (pre ++ (head.written blanks ++ rest)) with
  | none => rfl
  | some words =>
    have hparen : '(' ∈ head.closer blanks := List.mem_of_getLast? (head.getLast?_closer blanks)
    exact absurd (by simp [CallHead.written, hparen]) (paren_notMem_of_importWords? h)

/-! ## The call that a value begins with -/

/-- A call in front of another head does not depend on it, and a value that is blank up to
a head begins with that head. -/
theorem Assignment.head?_append {a : Assignment} {pre rest : List Char} {head : CallHead}
    {blanks : List Char} (ha : a.valueColumn ≤ pre.length)
    (hseal : boundaryAfter pre.getLast? = true) (hfits : head.Fits blanks) :
    a.head? (pre ++ (head.written blanks ++ rest)) =
      if trimStart (pre.drop a.valueColumn) = [] then some (pre.length, head)
      else a.head? pre := by
  have ht := startsHead_written hfits rest
  unfold head?
  rw [List.drop_append_of_le_length ha]
  simp only [ht.trimStart_append, ht.takeWhile_append]
  split
  · rename_i hblank
    have hall : (pre.drop a.valueColumn).takeWhile isBlank = pre.drop a.valueColumn :=
      List.takeWhile_eq_self_iff.2 (trimStart_eq_nil_iff.1 hblank)
    rw [hblank, List.nil_append, headAt?_eq_some_iff.2 ⟨blanks, rest, rfl, hfits⟩, hall,
      List.length_drop, Option.map_some, Nat.add_sub_cancel' ha]
  · rename_i hblank
    have hne : pre.drop a.valueColumn ≠ [] := by
      intro h
      rw [h] at hblank
      exact hblank rfl
    rw [headAt?_append hblank _ ht]
    rw [getLast?_trimStart hblank]
    exact boundaryAfter_suffix hseal (List.take_append_drop _ _).symm hne

/-- The call that the value of a declaration begins with is the first one of the line. -/
theorem callHeads_of_head? {code : List Char} {a : Assignment} {p : Nat × CallHead}
    (h : assignment? code = some a) (hp : a.head? code = some p) :
    ∃ rest, callHeads code = p :: rest := by
  obtain ⟨front, value, hcode, hfront, hparen⟩ := exists_of_assignment? h
  have hdrop : code.drop a.valueColumn = value := by
    rw [hcode, ← hfront, ← List.drop_drop, List.drop_left]
    rfl
  obtain ⟨head, hhead, rfl⟩ := Option.map_eq_some_iff.1 hp
  rw [hdrop] at hhead ⊢
  obtain ⟨blanks, rest, hvalue, hfits⟩ := headAt?_eq_some_iff.1 hhead
  set pre := front ++ '=' :: value.takeWhile isBlank with hpre
  have hblank : ∀ c ∈ value.takeWhile isBlank, isBlank c = true :=
    fun c hc => isBlank_of_mem_takeWhile hc
  have hlength : pre.length = a.valueColumn + (value.takeWhile isBlank).length := by
    rw [hpre, List.length_append, List.length_cons, ← hfront]
    omega
  have hcode : code = pre ++ (head.written blanks ++ rest) := by
    rw [hcode, ← hvalue, hpre, List.append_assoc, List.cons_append, takeWhile_append_trimStart]
  have hseal : boundaryAfter pre.getLast? = true := by
    rw [hpre, List.getLast?_append_of_ne_nil _ (List.cons_ne_nil _ _), List.getLast?_cons]
    cases hlast : (value.takeWhile isBlank).getLast? with
    | none => decide
    | some c => simp [boundaryAfter, isWord_of_isBlank (hblank c (List.mem_of_getLast? hlast))]
  have hnone : callHeads pre = [] := by
    refine callHeads_of_notMem fun hmem => ?_
    rw [hpre, List.mem_append, List.mem_cons] at hmem
    rcases hmem with hmem | hmem | hmem
    · exact hparen hmem
    · exact absurd hmem (by decide)
    · exact paren_notMem_of_blank hblank hmem
  rw [hcode, callHeads_append hseal hfits, hnone, ← hlength]
  exact ⟨_, rfl⟩

end RazenLint
