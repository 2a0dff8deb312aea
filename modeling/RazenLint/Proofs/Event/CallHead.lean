import RazenLint.Event.CallHead
import RazenLint.Proofs.Text.Ident
import RazenLint.Proofs.Text.Scan

/-!
# Where the heads of calls are

A text begins with a head exactly when the head is written there
(`headAt?_eq_some_iff`), and no other head begins inside it
(`callHeadsFrom_written_append`). In front of a text that begins with a head, the
heads of the text before it are as if that text stood alone
(`callHeadsFrom_append`), so a head can be exchanged for another one and the
others are found again.
-/

namespace RazenLint

open Text

/-! ## One head -/

/-- A number of blanks is found before a parenthesis when exactly those blanks stand
there. -/
theorem blanksBeforeParen?_eq_some_iff {cs : List Char} {n : Nat} :
    blanksBeforeParen? cs = some n ↔
      ∃ blanks rest, cs = blanks ++ '(' :: rest ∧ (∀ c ∈ blanks, isBlank c = true) ∧
        blanks.length = n := by
  unfold blanksBeforeParen?
  constructor
  · intro h
    split at h
    · rename_i hparen
      obtain ⟨rest, hrest⟩ := List.head?_eq_some_iff.1 hparen
      refine ⟨cs.takeWhile isBlank, rest, ?_, fun c hc => isBlank_of_mem_takeWhile hc, ?_⟩
      · rw [← hrest, takeWhile_append_trimStart]
      · simpa using h
    · simp at h
  · rintro ⟨blanks, rest, rfl, hblank, rfl⟩
    have hparen : isBlank '(' = false := by decide
    rw [trimStart_append_of_blank hblank, trimStart_of_not_blank hparen,
      List.takeWhile_append_of_pos hblank, List.takeWhile_cons, hparen]
    simp

namespace CallHead

/-- What stands between the library and the function of a head. -/
def opener (head : CallHead) : List Char :=
  if head.legacy then ['['] else [':', ':']

/-- What stands after the function of a head, with the given blanks. -/
def closer (head : CallHead) (blanks : List Char) : List Char :=
  if head.legacy then ']' :: (blanks ++ ['(']) else blanks ++ ['(']

/-- A head as it is written, with the given blanks before the parenthesis. -/
def written (head : CallHead) (blanks : List Char) : List Char :=
  head.library ++ (head.opener ++ (head.function ++ head.closer blanks))

theorem written_append (head : CallHead) (blanks rest : List Char) : head.written blanks ++ rest =
    head.library ++ (head.opener ++ (head.function ++ (head.closer blanks ++ rest))) := by
  simp [written]

theorem written_append_of_legacy {head : CallHead} (h : head.legacy = true)
    (blanks rest : List Char) : head.written blanks ++ rest =
      head.library ++ '[' :: (head.function ++ ']' :: (blanks ++ '(' :: rest)) := by
  simp [written, opener, closer, h]

theorem written_append_of_modern {head : CallHead} (h : head.legacy = false)
    (blanks rest : List Char) : head.written blanks ++ rest =
      head.library ++ ':' :: ':' :: (head.function ++ (blanks ++ '(' :: rest)) := by
  simp [written, opener, closer, h]

theorem length_opener (head : CallHead) :
    head.library.length + head.opener.length = head.functionOffset := by
  unfold opener functionOffset
  split <;> simp

/-- A head that can be written with the given blanks. -/
structure Fits (head : CallHead) (blanks : List Char) : Prop where
  library : isIdent head.library = true
  function : isIdent head.function = true
  blank : ∀ c ∈ blanks, isBlank c = true
  length : blanks.length = head.blanks

/-- A head up to its parenthesis. -/
def stem (head : CallHead) (blanks : List Char) : List Char :=
  head.library ++ (head.opener ++ (head.function ++
    ((if head.legacy then [']'] else []) ++ blanks)))

theorem written_eq (head : CallHead) (blanks : List Char) :
    head.written blanks = head.stem blanks ++ ['('] := by
  unfold written closer stem
  cases head.legacy <;> simp

/-- The opening parenthesis is the last character of a head. -/
theorem getLast?_written (head : CallHead) (blanks : List Char) :
    (head.written blanks).getLast? = some '(' := by
  rw [written_eq, List.getLast?_concat]

theorem Fits.of_mem_stem {head : CallHead} {blanks : List Char} (hfits : head.Fits blanks)
    {c : Char} (h : c ∈ head.stem blanks) :
    isIdentRest c = true ∨ isBlank c = true ∨ c = ':' ∨ c = '[' ∨ c = ']' := by
  simp only [stem, List.mem_append] at h
  rcases h with h | h | h | h | h
  · exact Or.inl (isIdentRest_of_mem_isIdent hfits.library h)
  · unfold opener at h
    split at h <;> simp at h <;> simp [h]
  · exact Or.inl (isIdentRest_of_mem_isIdent hfits.function h)
  · split at h <;> simp at h
    simp [h]
  · exact Or.inr (Or.inl (hfits.blank c h))

theorem length_stem {head : CallHead} {blanks : List Char} (h : blanks.length = head.blanks) :
    (head.stem blanks).length = head.openingOffset := by
  unfold stem opener openingOffset functionOffset
  cases head.legacy <;> simp [h] <;> omega

theorem length_written {head : CallHead} {blanks : List Char} (h : blanks.length = head.blanks) :
    (head.written blanks).length = head.openingOffset + 1 := by
  rw [written_eq, List.length_append, length_stem h]
  rfl

theorem isIdentStart_of_mem_opener {head : CallHead} {c : Char} (h : c ∈ head.opener) :
    isIdentStart c = false := by
  unfold opener at h
  split at h <;> simp at h <;> subst h <;> rfl

theorem Fits.of_mem_closer {head : CallHead} {blanks : List Char} (hfits : head.Fits blanks)
    {c : Char} (h : c ∈ head.closer blanks) : isBlank c = true ∨ c = '(' ∨ c = ']' := by
  unfold closer at h
  split at h
  · simp only [List.mem_cons, List.mem_append, List.not_mem_nil, or_false] at h
    rcases h with h | h | h
    · exact Or.inr (Or.inr h)
    · exact Or.inl (hfits.blank c h)
    · exact Or.inr (Or.inl h)
  · simp only [List.mem_cons, List.mem_append, List.not_mem_nil, or_false] at h
    rcases h with h | h
    · exact Or.inl (hfits.blank c h)
    · exact Or.inr (Or.inl h)

theorem Fits.isIdentRest_of_mem_closer {head : CallHead} {blanks : List Char}
    (hfits : head.Fits blanks) {c : Char} (h : c ∈ head.closer blanks) : isIdentRest c = false := by
  rcases hfits.of_mem_closer h with hblank | rfl | rfl
  · by_contra hrest
    rw [isBlank_of_isIdentRest (by simpa using hrest)] at hblank
    exact absurd hblank (by simp)
  · rfl
  · rfl

theorem getLast?_closer (head : CallHead) (blanks : List Char) :
    (head.closer blanks).getLast? = some '(' := by
  unfold closer
  split
  · rw [← List.cons_append, List.getLast?_concat]
  · rw [List.getLast?_concat]

theorem exists_cons_closer (head : CallHead) (blanks : List Char) :
    ∃ c cs, head.closer blanks = c :: cs := by
  cases h : head.closer blanks with
  | nil =>
    have := getLast?_closer head blanks
    rw [h] at this
    exact absurd this (by simp)
  | cons c cs => exact ⟨c, cs, rfl⟩

/-- What follows the function of a head does not go on with it. -/
theorem Fits.takeIdent?_function {head : CallHead} {blanks : List Char} (h : head.Fits blanks)
    (rest : List Char) : takeIdent? (head.function ++ (head.closer blanks ++ rest)) =
      some (head.function, head.closer blanks ++ rest) := by
  refine takeIdent?_eq_some_iff.2 ⟨rfl, h.function, ?_⟩
  obtain ⟨c, cs, hc⟩ := exists_cons_closer head blanks
  have hrest := h.isIdentRest_of_mem_closer (hc ▸ List.mem_cons_self)
  simpa [hc] using hrest

end CallHead

/-- A text begins with a head when the head is written there. -/
theorem headAt?_eq_some_iff {cs : List Char} {head : CallHead} : headAt? cs = some head ↔
    ∃ blanks rest, cs = head.written blanks ++ rest ∧ head.Fits blanks := by
  constructor
  · intro h
    unfold headAt? at h
    obtain ⟨⟨library, afterLibrary⟩, hlib, hrest⟩ := Option.bind_eq_some_iff.1 h
    obtain ⟨rfl, hlibrary, -⟩ := takeIdent?_eq_some_iff.1 hlib
    dsimp only at hrest
    split at hrest
    · obtain ⟨⟨function, afterFunction⟩, hfun, hblanks⟩ := Option.bind_eq_some_iff.1 hrest
      obtain ⟨rfl, hfunction, -⟩ := takeIdent?_eq_some_iff.1 hfun
      obtain ⟨n, hn, hhead⟩ := Option.bind_eq_some_iff.1 hblanks
      obtain ⟨blanks, rest, rfl, hblank, rfl⟩ := blanksBeforeParen?_eq_some_iff.1 hn
      cases hhead
      refine ⟨blanks, rest, ?_, hlibrary, hfunction, hblank, rfl⟩
      rw [CallHead.written_append_of_modern rfl]
    · obtain ⟨⟨function, afterFunction⟩, hfun, hblanks⟩ := Option.bind_eq_some_iff.1 hrest
      obtain ⟨rfl, hfunction, -⟩ := takeIdent?_eq_some_iff.1 hfun
      split at hblanks
      · rename_i heq
        cases heq
        obtain ⟨n, hn, hhead⟩ := Option.bind_eq_some_iff.1 hblanks
        obtain ⟨blanks, rest, rfl, hblank, rfl⟩ := blanksBeforeParen?_eq_some_iff.1 hn
        cases hhead
        refine ⟨blanks, rest, ?_, hlibrary, hfunction, hblank, rfl⟩
        rw [CallHead.written_append_of_legacy rfl]
      · simp at hblanks
    · simp at hrest
  · rintro ⟨blanks, rest, rfl, hfits⟩
    have hblanks : blanksBeforeParen? (blanks ++ '(' :: rest) = some head.blanks :=
      blanksBeforeParen?_eq_some_iff.2 ⟨blanks, rest, rfl, hfits.blank, hfits.length⟩
    cases hlegacy : head.legacy with
    | true =>
      have hlib : takeIdent?
          (head.library ++ '[' :: (head.function ++ ']' :: (blanks ++ '(' :: rest))) =
          some (head.library, '[' :: (head.function ++ ']' :: (blanks ++ '(' :: rest))) :=
        takeIdent?_eq_some_iff.2 ⟨rfl, hfits.library, rfl⟩
      have hfun := hfits.takeIdent?_function rest
      simp only [CallHead.closer, hlegacy, if_true, List.cons_append, List.append_assoc,
        List.nil_append] at hfun
      rw [CallHead.written_append_of_legacy hlegacy]
      simp [headAt?, hlib, hfun, hblanks, ← hlegacy]
    | false =>
      have hlib : takeIdent?
          (head.library ++ ':' :: ':' :: (head.function ++ (blanks ++ '(' :: rest))) =
          some (head.library, ':' :: ':' :: (head.function ++ (blanks ++ '(' :: rest))) :=
        takeIdent?_eq_some_iff.2 ⟨rfl, hfits.library, rfl⟩
      have hfun := hfits.takeIdent?_function rest
      simp only [CallHead.closer, hlegacy, Bool.false_eq_true, if_false, List.cons_append,
        List.append_assoc, List.nil_append] at hfun
      rw [CallHead.written_append_of_modern hlegacy]
      simp [headAt?, hlib, hfun, hblanks, ← hlegacy]

/-! ## The words of a head -/

theorem CallHead.getLast?_opener (head : CallHead) :
    head.opener.getLast? = some (if head.legacy then '[' else ':') := by
  unfold opener
  split <;> rfl

/-- A reader of words looks at a head twice : at its library and at its function. -/
theorem Text.ReadsWords.scanFrom_written {α : Type}
    {read : Nat → Option Char → List Char → Option α}
    (hread : ReadsWords read) {head : CallHead} {blanks : List Char} (hfits : head.Fits blanks)
    (column : Nat) (previous : Option Char) (rest : List Char) :
    scanFrom read column previous (head.written blanks ++ rest) =
      (read column previous (head.written blanks ++ rest)).toList ++
        ((read (column + head.functionOffset) (some (if head.legacy then '[' else ':'))
            (head.function ++ (head.closer blanks ++ rest))).toList ++
          scanFrom read (column + (head.openingOffset + 1)) (some '(') rest) := by
  have hlength := CallHead.length_written hfits.length
  simp only [CallHead.written, List.length_append] at hlength
  rw [CallHead.written_append, hread.scanFrom_ident hfits.library,
    hread.scanFrom_plain fun c => CallHead.isIdentStart_of_mem_opener,
    hread.scanFrom_ident hfits.function,
    hread.scanFrom_plain fun c hc =>
      isIdentStart_of_not_isIdentRest (hfits.isIdentRest_of_mem_closer hc),
    CallHead.getLast?_closer, CallHead.getLast?_opener]
  simp [← CallHead.length_opener, ← hlength, Nat.add_assoc]

/-- The column in which a word begins. -/
def wordStart (column : Nat) (previous : Option Char) (cs : List Char) : Option Nat :=
  if boundaryAfter previous ∧ cs.head?.any isIdentStart then some column else none

theorem readsWords_wordStart : ReadsWords wordStart where
  boundary column previous cs h := by simp [wordStart, h]
  start column previous c cs h := by simp [wordStart, h]

/-- A head that is cut inside where a word begins is cut before its function. -/
theorem CallHead.Fits.eq_of_cut {head : CallHead} {blanks front back : List Char} {c : Char}
    (hfits : head.Fits blanks) (hcut : head.written blanks = front ++ c :: back)
    (hfront : front ≠ []) (hseal : boundaryAfter front.getLast? = true)
    (hc : isIdentStart c = true) :
    front = head.library ++ head.opener ∧ c :: back = head.function ++ head.closer blanks := by
  have hmem : front.length ∈ scanFrom wordStart 0 none (head.written blanks ++ []) := by
    refine mem_scanFrom_iff.2 ⟨front, c :: back, ?_, List.cons_ne_nil c back, ?_⟩
    · rw [List.append_nil, hcut]
    · simp [wordStart, hseal, hc]
  have hlength : front.length = (head.library ++ head.opener).length := by
    rw [readsWords_wordStart.scanFrom_written hfits] at hmem
    have hpos : front.length ≠ 0 := fun h => hfront (List.length_eq_zero_iff.1 h)
    rw [List.length_append, length_opener]
    simp only [List.mem_append, Option.mem_toList, wordStart, Option.ite_none_right_eq_some,
      Option.some.injEq, scanFrom, List.not_mem_nil, or_false] at hmem
    omega
  refine List.append_inj ?_ hlength
  rw [← hcut, written, List.append_assoc]

/-! ## Text in front of a head -/

/-- A text that begins with a word and an opening bracket or a colon. -/
def StartsHead (t : List Char) : Prop :=
  ∃ word c rest, takeIdent? t = some (word, c :: rest) ∧ (c = '[' ∨ c = ':')

theorem startsHead_written {head : CallHead} {blanks : List Char} (h : head.Fits blanks)
    (rest : List Char) : StartsHead (head.written blanks ++ rest) := by
  cases hlegacy : head.legacy with
  | true =>
    rw [CallHead.written_append_of_legacy hlegacy]
    exact ⟨head.library, '[', _, takeIdent?_eq_some_iff.2 ⟨rfl, h.library, rfl⟩, Or.inl rfl⟩
  | false =>
    rw [CallHead.written_append_of_modern hlegacy]
    exact ⟨head.library, ':', _, takeIdent?_eq_some_iff.2 ⟨rfl, h.library, rfl⟩, Or.inr rfl⟩

namespace StartsHead

variable {t : List Char}

/-- The first character is a letter or an underscore. -/
theorem exists_cons (h : StartsHead t) : ∃ c cs, t = c :: cs ∧ isIdentStart c = true := by
  obtain ⟨word, c, rest, ht, -⟩ := h
  obtain ⟨rfl, hword, -⟩ := takeIdent?_eq_some_iff.1 ht
  obtain ⟨d, ds, rfl, hd⟩ := exists_cons_of_isIdent hword
  exact ⟨d, ds ++ c :: rest, rfl, hd⟩

theorem ne_nil (h : StartsHead t) : t ≠ [] := by
  obtain ⟨c, cs, rfl, -⟩ := h.exists_cons
  exact List.cons_ne_nil c cs

theorem trimStart_eq (h : StartsHead t) : trimStart t = t := by
  obtain ⟨c, cs, rfl, hc⟩ := h.exists_cons
  exact trimStart_of_not_blank (isBlank_of_isIdentStart hc) cs

end StartsHead

/-- What is left of a sealed text after its beginning ends in no word character. -/
theorem boundaryAfter_suffix {cs front back : List Char} (h : boundaryAfter cs.getLast? = true)
    (hcs : cs = front ++ back) (hback : back ≠ []) : boundaryAfter back.getLast? = true := by
  rwa [hcs, List.getLast?_append_of_ne_nil front hback] at h

/-- What follows the library of a head begins with no head. -/
theorem CallHead.Fits.not_startsHead {head : CallHead} {blanks : List Char}
    (h : head.Fits blanks) (rest : List Char) :
    ¬StartsHead (head.function ++ (head.closer blanks ++ rest)) := by
  rintro ⟨word, c, more, htake, hc⟩
  obtain ⟨d, ds, hd⟩ := exists_cons_closer head blanks
  rw [h.takeIdent?_function, hd, List.cons_append, Option.some.injEq, Prod.mk.injEq] at htake
  obtain ⟨rfl, -⟩ := List.cons.inj htake.2
  rcases h.of_mem_closer (hd ▸ List.mem_cons_self) with hblank | rfl | rfl
  · rcases hc with rfl | rfl <;> exact absurd hblank (by decide)
  · exact absurd hc (by decide)
  · exact absurd hc (by decide)

/-- No head begins in a sealed text and goes on in a text that begins with a head. -/
theorem headAt?_append {cs t : List Char} (hne : cs ≠ []) (hseal : boundaryAfter cs.getLast? = true)
    (ht : StartsHead t) : headAt? (cs ++ t) = headAt? cs := by
  ext head
  rw [headAt?_eq_some_iff, headAt?_eq_some_iff]
  constructor
  · rintro ⟨blanks, rest, heq, hfits⟩
    rcases List.append_eq_append_iff.1 heq with ⟨back, hcut, hback⟩ | ⟨back, hcs, -⟩
    · by_cases hnil : back = []
      · exact ⟨blanks, [], by rw [hcut, hnil, List.append_nil, List.append_nil], hfits⟩
      · -- the head is cut where a word begins, so `t` begins with its function
        obtain ⟨c, more, hc, hstart⟩ := ht.exists_cons
        obtain ⟨d, ds, rfl⟩ := List.exists_cons_of_ne_nil hnil
        have hd : isIdentStart d = true := by
          rw [hc, List.cons_append] at hback
          exact (List.cons.inj hback).1 ▸ hstart
        obtain ⟨-, hfunction⟩ := hfits.eq_of_cut hcut hne hseal hd
        rw [hback, hfunction, List.append_assoc] at ht
        exact absurd ht (hfits.not_startsHead rest)
    · exact ⟨blanks, back, hcs, hfits⟩
  · rintro ⟨blanks, rest, rfl, hfits⟩
    exact ⟨blanks, rest ++ t, List.append_assoc _ _ _, hfits⟩

/-! ## The heads of a line -/

/-- The head that begins in a column, after the given character. -/
def headFrom (column : Nat) (previous : Option Char) (cs : List Char) : Option (Nat × CallHead) :=
  if boundaryAfter previous then (headAt? cs).map fun head => (column, head) else none

theorem callHeadsFrom_eq_scanFrom : ∀ (column : Nat) (previous : Option Char) (cs : List Char),
    callHeadsFrom column previous cs = scanFrom headFrom column previous cs
  | _, _, [] => rfl
  | column, previous, c :: cs => by
    rw [callHeadsFrom, scanFrom_cons, callHeadsFrom_eq_scanFrom (column + 1) (some c) cs, headFrom]
    split
    · cases headAt? (c :: cs) <;> rfl
    · rfl

theorem headFrom_eq_some_iff {column place : Nat} {previous : Option Char} {cs : List Char}
    {head : CallHead} : headFrom column previous cs = some (place, head) ↔
      place = column ∧ boundaryAfter previous = true ∧ headAt? cs = some head := by
  unfold headFrom
  split
  · rename_i h
    rw [Option.map_eq_some_iff]
    constructor
    · rintro ⟨found, hfound, heq⟩
      cases heq
      exact ⟨rfl, h, hfound⟩
    · rintro ⟨rfl, -, hfound⟩
      exact ⟨head, hfound, rfl⟩
  · rename_i h
    simp [h]

/-- The heads of a line are where they are written, after a word boundary. -/
theorem mem_callHeads_iff {code : List Char} {column : Nat} {head : CallHead} :
    (column, head) ∈ callHeads code ↔ ∃ front blanks rest,
      code = front ++ (head.written blanks ++ rest) ∧ front.length = column ∧
        boundaryAfter front.getLast? = true ∧ head.Fits blanks := by
  rw [callHeads, callHeadsFrom_eq_scanFrom, mem_scanFrom_iff]
  constructor
  · rintro ⟨front, back, rfl, -, h⟩
    obtain ⟨hcolumn, hboundary, hhead⟩ := headFrom_eq_some_iff.1 h
    obtain ⟨blanks, rest, rfl, hfits⟩ := headAt?_eq_some_iff.1 hhead
    exact ⟨front, blanks, rest, rfl, by omega, by simpa using hboundary, hfits⟩
  · rintro ⟨front, blanks, rest, rfl, rfl, hboundary, hfits⟩
    refine ⟨front, _, rfl, (startsHead_written hfits rest).ne_nil,
      headFrom_eq_some_iff.2 ⟨by omega, ?_, ?_⟩⟩
    · simpa using hboundary
    · exact headAt?_eq_some_iff.2 ⟨blanks, rest, rfl, hfits⟩

/-- Heads come from left to right. -/
theorem pairwise_callHeads (code : List Char) :
    (callHeads code).Pairwise fun p q => p.1 < q.1 := by
  rw [callHeads, callHeadsFrom_eq_scanFrom]
  exact pairwise_scanFrom (fun h => (headFrom_eq_some_iff.1 h).1) 0 none code

/-- The heads of a sealed text are the same in front of another head. -/
theorem callHeadsFrom_append {pre t : List Char} (hseal : boundaryAfter pre.getLast? = true)
    (ht : StartsHead t) (column : Nat) (previous : Option Char) :
    callHeadsFrom column previous (pre ++ t) = callHeadsFrom column previous pre ++
      callHeadsFrom (column + pre.length) (pre.getLast?.or previous) t := by
  simp only [callHeadsFrom_eq_scanFrom]
  refine scanFrom_append column previous fun column previous s hs hsuffix => ?_
  obtain ⟨front, hfront⟩ := hsuffix
  rw [headFrom, headFrom, headAt?_append hs (boundaryAfter_suffix hseal hfront.symm hs) ht]

/-- The same text further to the right has its heads further to the right. -/
theorem callHeadsFrom_add (column distance : Nat) (previous : Option Char) (cs : List Char) :
    callHeadsFrom (column + distance) previous cs =
      (callHeadsFrom column previous cs).map fun p => (p.1 + distance, p.2) := by
  simp only [callHeadsFrom_eq_scanFrom]
  refine scanFrom_add (fun column previous cs => ?_) column previous cs
  unfold headFrom
  split
  · cases headAt? cs <;> rfl
  · rfl

theorem readsWords_headFrom : ReadsWords headFrom where
  boundary column previous cs h := by simp [headFrom, h]
  start column previous c cs h := by
    have hnone : headAt? (c :: cs) = none := by
      rw [headAt?, takeIdent?_eq_none_iff.2 (by simpa using h)]
      rfl
    simp [headFrom, hnone]

/-- A head is found where it is written, and no other one begins inside it. -/
theorem callHeadsFrom_written_append {head : CallHead} {blanks : List Char}
    (hfits : head.Fits blanks) {previous : Option Char}
    (hboundary : boundaryAfter previous = true) (column : Nat) (rest : List Char) :
    callHeadsFrom column previous (head.written blanks ++ rest) =
      (column, head) :: callHeadsFrom (column + (head.openingOffset + 1)) (some '(') rest := by
  have hlibrary : headFrom column previous (head.written blanks ++ rest) = some (column, head) :=
    headFrom_eq_some_iff.2 ⟨rfl, hboundary, headAt?_eq_some_iff.2 ⟨blanks, rest, rfl, hfits⟩⟩
  have hfunction : headAt? (head.function ++ (head.closer blanks ++ rest)) = none := by
    rw [Option.eq_none_iff_forall_ne_some]
    intro other hother
    obtain ⟨blanks', rest', heq, hfits'⟩ := headAt?_eq_some_iff.1 hother
    exact hfits.not_startsHead rest (heq ▸ startsHead_written hfits' rest')
  rw [callHeadsFrom_eq_scanFrom, readsWords_headFrom.scanFrom_written hfits, hlibrary, headFrom,
    hfunction, callHeadsFrom_eq_scanFrom]
  simp

/-- The heads of a line around one of them. -/
theorem callHeads_append {pre : List Char} {head : CallHead} {blanks : List Char}
    (hseal : boundaryAfter pre.getLast? = true) (hfits : head.Fits blanks) (rest : List Char) :
    callHeads (pre ++ (head.written blanks ++ rest)) = callHeads pre ++ (pre.length, head) ::
      callHeadsFrom (pre.length + (head.openingOffset + 1)) (some '(') rest := by
  have hprevious : pre.getLast?.or none = pre.getLast? := by cases pre.getLast? <;> rfl
  rw [callHeads, callHeadsFrom_append hseal (startsHead_written hfits rest), hprevious,
    Nat.zero_add, callHeadsFrom_written_append hfits hseal]
  rfl

/-- A head lies inside the text in which it is found. -/
theorem le_of_mem_callHeadsFrom {column place : Nat} {previous : Option Char} {cs : List Char}
    {head : CallHead} (h : (place, head) ∈ callHeadsFrom column previous cs) :
    column ≤ place ∧ place + head.openingOffset < column + cs.length := by
  rw [callHeadsFrom_eq_scanFrom] at h
  obtain ⟨front, back, rfl, -, hread⟩ := mem_scanFrom_iff.1 h
  obtain ⟨rfl, -, hhead⟩ := headFrom_eq_some_iff.1 hread
  obtain ⟨blanks, rest, rfl, hfits⟩ := headAt?_eq_some_iff.1 hhead
  have := CallHead.length_written hfits.length
  simp only [List.length_append]
  omega

/-- A head ends before the next one begins. -/
theorem pairwise_callHeads_apart (code : List Char) :
    (callHeads code).Pairwise fun p q => p.1 + p.2.openingOffset < q.1 := by
  refine (List.pairwise_iff_forall_sublist.2 fun {p q} hsub => ?_)
  have hlt : p.1 < q.1 := by
    have := (pairwise_callHeads code).sublist hsub
    simpa using this
  have hp : p ∈ callHeads code := hsub.subset List.mem_cons_self
  have hq : q ∈ callHeads code := hsub.subset (List.mem_cons_of_mem _ List.mem_cons_self)
  obtain ⟨pre, blanks, rest, rfl, hpre, hseal, hfits⟩ := mem_callHeads_iff.1 hp
  rw [callHeads_append hseal hfits] at hq
  rcases List.mem_append.1 hq with hq | hq
  · have := le_of_mem_callHeadsFrom hq
    omega
  · rcases List.mem_cons.1 hq with rfl | hq
    · omega
    · have := le_of_mem_callHeadsFrom hq
      omega

end RazenLint
