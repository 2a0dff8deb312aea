import RazenLint.Proofs.Event.Matcher
import RazenLint.Proofs.Event.Placed
import RazenLint.Proofs.Text.MaskBytes

/-!
# Matchers on the masked copy

The matchers of a line can look at the copy that has its bytes (`codeBytes`) in place of
its code. A matcher that reads text without quotes reads the same in both
(`ReadsPlain.eq_codeBytesFrom`), so a declaration with its call, any other declaration and
an import are the same. The heads of the copy are those of the code, each in its place
(`callHeads_codeBytes`).
-/

namespace RazenLint

open Text

/-! ## Matchers on the copy -/

/-- A reader that has seen only text without quotes when it finds something, and finds the
same whatever follows. -/
def ReadsPlain {α : Type} (read : List Char → Option α) : Prop :=
  ∀ ⦃cs x⦄, read cs = some x → ∃ plain, plain <+: cs ∧ (∀ c ∈ plain, isQuote c = false) ∧
    ∀ cs', plain <+: cs' → read cs' = some x

/-- Such a reader finds the same in the copy of a line and in its code. -/
theorem ReadsPlain.eq_codeBytesFrom {α : Type} {read : List Char → Option α}
    (hread : ReadsPlain read) (cs : List Char) :
    read (codeBytesFrom .code cs) = read (codeFrom .code cs) := by
  ext x
  constructor
  · intro h
    obtain ⟨plain, hprefix, hplain, hfound⟩ := hread h
    exact hfound _ ((prefix_codeBytesFrom_iff hplain).1 hprefix)
  · intro h
    obtain ⟨plain, hprefix, hplain, hfound⟩ := hread h
    exact hfound _ ((prefix_codeBytesFrom_iff hplain).2 hprefix)

theorem readsPlain_headAt? : ReadsPlain headAt? := by
  intro cs head h
  obtain ⟨blanks, rest, rfl, hfits⟩ := headAt?_eq_some_iff.1 h
  refine ⟨head.written blanks, List.prefix_append _ _, fun c hc => hfits.isQuote_of_mem hc, ?_⟩
  rintro cs' ⟨rest', rfl⟩
  exact headAt?_eq_some_iff.2 ⟨blanks, rest', rfl, hfits⟩

/-- No head begins inside a literal, in the copy as in the code. -/
theorem headAt?_codeBytesFrom {reading : Reading} (hproper : reading.Proper) (cs : List Char) :
    headAt? (codeBytesFrom reading cs) = headAt? (codeFrom reading cs) := by
  by_cases hcode : reading = .code
  · subst hcode
    exact readsPlain_headAt?.eq_codeBytesFrom cs
  · have hnone : ∀ {text : List Char}, text.head? = (codeFrom reading cs).head? →
        headAt? text = none := by
      intro text htext
      rw [headAt?, takeIdent?_eq_none_iff.2]
      · rfl
      · rw [htext]
        cases cs with
        | nil => rfl
        | cons c cs =>
          rw [codeFrom_cons]
          split
          · rfl
          · rw [List.head?_cons, Option.any_some]
            rcases shown_of_ne_code hproper hcode c with hshown | hshown
            · rw [hshown]
              rfl
            · simp only [isQuote, Bool.or_eq_true, beq_iff_eq] at hshown
              rcases hshown with hshown | hshown <;> rw [hshown] <;> rfl
    rw [hnone (head?_codeBytesFrom reading cs), hnone rfl]

/-- The heads of the copy are those of the code, each in its place. -/
theorem callHeadsFrom_codeBytesFrom : ∀ {reading : Reading} (cs : List Char), reading.Proper →
    ∀ (column : Nat) (previous : Option Char),
      callHeadsFrom column previous (codeBytesFrom reading cs) =
        (callHeadsFrom 0 previous (codeFrom reading cs)).map fun p =>
          (column + (maskBytesFrom reading (cs.take p.1)).length, p.2)
  | _, [], _, _, _ => rfl
  | reading, c :: cs, hproper, column, previous => by
    have hlater : callHeadsFrom (column + (shownBytes reading c).length) (some (shown reading c))
        (codeBytesFrom (reading.next c) cs) =
        (callHeadsFrom (0 + 1) (some (shown reading c)) (codeFrom (reading.next c) cs)).map
          fun p => (column + (maskBytesFrom reading ((c :: cs).take p.1)).length, p.2) := by
      rw [callHeadsFrom_codeBytesFrom cs (hproper.next c), callHeadsFrom_add, List.map_map]
      congr 1
      ext1 p
      simp [maskBytesFrom_cons, Nat.add_assoc]
    have hhead := headAt?_codeBytesFrom hproper (c :: cs)
    rw [codeBytesFrom_cons, codeFrom_cons] at hhead ⊢
    by_cases hsign : shown reading c = commentSign
    · rw [if_pos hsign, if_pos hsign]
      rfl
    · rw [if_neg hsign, if_neg hsign] at hhead ⊢
      simp only [callHeadsFrom_eq_scanFrom] at hlater ⊢
      by_cases hstart : isIdentStart (shown reading c) = true
      · have hblank : shown reading c ≠ ' ' := fun h => absurd (h ▸ hstart) (by decide)
        rw [shownBytes_of_ne_blank hblank] at hhead hlater ⊢
        rw [List.singleton_append] at hhead ⊢
        rw [scanFrom_cons, scanFrom_cons, List.map_append, ← hlater, headFrom, headFrom, hhead]
        congr 1
        split
        · cases headAt? (shown reading c :: codeFrom (reading.next c) cs) <;> rfl
        · rfl
      · -- blanks and signs begin no head
        rw [Bool.not_eq_true] at hstart
        rw [readsWords_headFrom.scanFrom_plain fun d hd => by rwa [mem_shownBytes_iff.1 hd],
          scanFrom_cons, readsWords_headFrom.start _ _ _ _ hstart, getLast?_shownBytes]
        exact hlater

/-- The heads of the copy of a line. -/
theorem callHeads_codeBytes (line : List Char) : callHeads (codeBytes line) =
    (callHeads (code line)).map fun p => (spread line p.1, p.2) := by
  have hproper : Reading.code.Proper := trivial
  rw [callHeads, codeBytes, callHeadsFrom_codeBytesFrom line hproper]
  simp only [Nat.zero_add]
  rfl

/-! ## Statements in the copy -/

/-- Two words in front of a sign are read as they are written. -/
theorem wordPair?_written {indent first gap second after : List Char} (sign : Char)
    (rest : List Char) (hindent : ∀ c ∈ indent, isBlank c = true) (hfirst : isIdent first = true)
    (hgap : ∀ c ∈ gap, isBlank c = true) (hne : gap ≠ []) (hsecond : isIdent second = true)
    (hafter : ∀ c ∈ after, isBlank c = true) (hblank : isBlank sign = false)
    (hsign : isIdentRest sign = false) :
    wordPair? (indent ++ (first ++ (gap ++ (second ++ (after ++ sign :: rest))))) = some {
      first, firstColumn := indent.length, second
      secondColumn := indent.length + first.length + gap.length
      rest := sign :: rest
      restColumn := indent.length + first.length + gap.length + second.length + after.length } := by
  have hstart : ∀ {ident : List Char}, isIdent ident = true → ∀ more,
      trimStart (ident ++ more) = ident ++ more ∧ (ident ++ more).takeWhile isBlank = [] := by
    intro ident hident more
    obtain ⟨c, cs, rfl, hc⟩ := exists_cons_of_isIdent hident
    have hc := isBlank_of_isIdentStart hc
    exact ⟨trimStart_of_not_blank hc _, by simp [hc]⟩
  have hstop : ∀ {blanks : List Char}, (∀ c ∈ blanks, isBlank c = true) → ∀ more,
      (blanks ≠ [] ∨ more.head?.any isIdentRest = false) →
        (blanks ++ more).head?.any isIdentRest = false := by
    intro blanks hblanks more hor
    cases blanks with
    | nil => exact hor.resolve_left (by simp)
    | cons c cs =>
      have hc := hblanks c List.mem_cons_self
      by_contra hrest
      rw [isBlank_of_isIdentRest (by simpa using hrest)] at hc
      exact absurd hc (by simp)
  have htakeFirst := takeIdent?_eq_some_iff.2
    ⟨rfl, hfirst, hstop hgap (second ++ (after ++ sign :: rest)) (Or.inl hne)⟩
  have htakeSecond := takeIdent?_eq_some_iff.2
    ⟨rfl, hsecond, hstop hafter (sign :: rest) (Or.inr (by simpa using hsign))⟩
  unfold wordPair?
  rw [trimStart_append_of_blank hindent, (hstart hfirst _).1, htakeFirst,
    List.takeWhile_append_of_pos hindent, (hstart hfirst _).2]
  simp only [Option.bind_eq_bind, Option.bind_some]
  rw [List.takeWhile_append_of_pos hgap, (hstart hsecond _).2, trimStart_append_of_blank hgap,
    (hstart hsecond _).1, htakeSecond, if_neg (by simpa using hne)]
  simp only [Option.bind_some, trimStart_append_of_blank hafter, trimStart_of_not_blank hblank,
    List.takeWhile_append_of_pos hafter, List.takeWhile_cons, hblank]
  simp

/-- A declaration is written without quotes up to its equals sign, and read the same
whatever follows. -/
theorem exists_of_signedName? {code : List Char} {a : Assignment} (h : signedName? code = some a) :
    ∃ plain value, code = plain ++ value ∧ plain.length = a.valueColumn ∧
      (∀ c ∈ plain, isQuote c = false) ∧ ∀ value', signedName? (plain ++ value') = some a := by
  unfold signedName? at h
  obtain ⟨words, hwords, h⟩ := Option.bind_eq_some_iff.1 h
  obtain ⟨kind, hkind, h⟩ := Option.bind_eq_some_iff.1 h
  obtain ⟨hsign, h⟩ := Option.ite_none_right_eq_some.1 h
  obtain ⟨value, hrest⟩ := List.head?_eq_some_iff.1 hsign
  obtain ⟨indent, gap, after, hcode, hindent, hgap, hafter, hfirst, hsecond, hfirstColumn,
    hsecondColumn, hrestColumn, hne⟩ := of_wordPair? hwords
  have hblank : ∀ {cs : List Char}, (∀ c ∈ cs, isBlank c = true) → ∀ c ∈ cs, isQuote c = false :=
    fun hcs c hc => isQuote_of_isBlank (hcs c hc)
  have hident : ∀ {cs : List Char}, isIdent cs = true → ∀ c ∈ cs, isQuote c = false :=
    fun hcs c hc => isQuote_of_isIdentRest (isIdentRest_of_mem_isIdent hcs hc)
  refine ⟨indent ++ (words.first ++ (gap ++ (words.second ++ (after ++ ['='])))), value, ?_, ?_, ?_,
    fun value' => ?_⟩
  · rw [hcode, hrest]
    simp
  · cases h
    simp only [List.length_append, List.length_singleton]
    omega
  · simp only [List.mem_append, List.mem_singleton]
    rintro c (hc | hc | hc | hc | hc | rfl)
    · exact hblank hindent c hc
    · exact hident hfirst c hc
    · exact hblank hgap c hc
    · exact hident hsecond c hc
    · exact hblank hafter c hc
    · rfl
  · have hwritten := wordPair?_written '=' value' hindent hfirst hgap hne hsecond hafter
      (by decide) (by decide)
    have hcode :
        (indent ++ (words.first ++ (gap ++ (words.second ++ (after ++ ['=']))))) ++ value' =
          indent ++ (words.first ++ (gap ++ (words.second ++ (after ++ '=' :: value')))) := by simp
    rw [signedName?, hcode, hwritten]
    cases h
    simp [hkind, hfirstColumn, hsecondColumn, hrestColumn]

theorem readsPlain_declarationWithCall? (legacy : Bool) :
    ReadsPlain (declarationWithCall? legacy) := by
  intro cs found h
  obtain ⟨a, ha, h⟩ := Option.bind_eq_some_iff.1 h
  obtain ⟨head, hhead, h⟩ := Option.bind_eq_some_iff.1 h
  obtain ⟨plain, value, rfl, hlength, hplain, hread⟩ := exists_of_signedName? ha
  rw [← hlength, List.drop_left] at hhead h
  obtain ⟨hhead, hlegacy⟩ := headOfForm?_eq_some_iff.1 hhead
  obtain ⟨blanks, rest, hvalue, hfits⟩ := headAt?_eq_some_iff.1 hhead
  have hblank : ∀ c ∈ value.takeWhile isBlank, isBlank c = true :=
    fun c hc => isBlank_of_mem_takeWhile hc
  refine ⟨plain ++ (value.takeWhile isBlank ++ head.written blanks), ?_, ?_, ?_⟩
  · refine ⟨rest, ?_⟩
    rw [List.append_assoc, List.append_assoc, ← hvalue, takeWhile_append_trimStart]
  · simp only [List.mem_append]
    rintro c (hc | hc | hc)
    · exact hplain c hc
    · exact isQuote_of_isBlank (hblank c hc)
    · exact hfits.isQuote_of_mem hc
  · rintro _ ⟨rest', rfl⟩
    have hstarts := startsHead_written hfits rest'
    have hagain : headOfForm? legacy (head.written blanks ++ rest') = some head :=
      headOfForm?_eq_some_iff.2 ⟨headAt?_eq_some_iff.2 ⟨blanks, rest', rfl, hfits⟩, hlegacy⟩
    rw [List.append_assoc, List.append_assoc, declarationWithCall?, hread]
    simp only [Option.bind_eq_bind, Option.bind_some]
    rw [← hlength, List.drop_left, hstarts.trimStart_append, trimStart_eq_nil_iff.2 hblank,
      List.nil_append, hagain, hstarts.takeWhile_append, List.takeWhile_eq_self_iff.2 hblank]
    exact h

/-- A declaration is the same in the copy. -/
theorem otherDeclaration?_codeBytes (line : List Char) :
    otherDeclaration? (codeBytes line) = otherDeclaration? (code line) := by
  have hreads : ReadsPlain signedName? := by
    intro cs a h
    obtain ⟨plain, value, rfl, -, hplain, hread⟩ := exists_of_signedName? h
    exact ⟨plain, List.prefix_append _ _, hplain, by rintro _ ⟨value', rfl⟩; exact hread value'⟩
  have hsame : signedName? (codeBytes line) = signedName? (code line) :=
    hreads.eq_codeBytesFrom line
  rw [otherDeclaration?, otherDeclaration?, hsame]
  cases hname : signedName? (code line) with
  | none => rfl
  | some a =>
    obtain ⟨plain, value, hcode, hlength, hplain, -⟩ := exists_of_signedName? hname
    -- behind the name the line is read as code again
    obtain ⟨back, rfl, hvalue⟩ := exists_append_of_codeFrom_eq_plain hplain hcode
    obtain ⟨hafter, hmask⟩ := maskFrom_code_of_plain hplain
    have hsign : commentSign ∉ maskFrom .code plain := by
      rw [hmask]
      intro hmem
      refine commentSign_notMem_codeFrom .code (plain ++ back) ?_
      rw [← code_eq_codeFrom, hcode]
      exact List.mem_append_left _ hmem
    have hbytes : codeBytes (plain ++ back) = plain ++ codeBytesFrom .code back := by
      rw [codeBytes, codeBytesFrom_append hsign, hafter, maskBytesFrom_of_plain hplain]
    have hhead := head?_codeBytesFrom .code back
    rw [hvalue] at hhead
    rw [Option.filter_some, Option.filter_some, hcode, hbytes, ← hlength, List.drop_left,
      List.drop_left, hhead]

/-- An import is the same in the copy. -/
theorem importWords?_codeBytes (line : List Char) :
    importWords? (codeBytes line) = importWords? (code line) := by
  by_cases hplain : ∀ c ∈ code line, isQuote c = false
  · rw [codeBytes, codeBytesFrom_of_plain hplain]
    rfl
  · have hnone : ∀ {text : List Char}, (∀ c, c ∈ text ↔ c ∈ code line) →
        importWords? text = none := by
      intro text htext
      rw [Option.eq_none_iff_forall_ne_some]
      intro words hwords
      refine hplain fun c hc => ?_
      rcases of_mem_importWords? hwords ((htext c).2 hc) with h | h | rfl
      · exact isQuote_of_isIdentRest h
      · exact isQuote_of_isBlank h
      · rfl
    have hbytes : importWords? (codeBytes line) = none := hnone fun c => mem_codeBytesFrom_iff
    rw [hbytes, hnone fun c => Iff.rfl]

end RazenLint
