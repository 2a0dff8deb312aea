import RazenLint.Proofs.Text.Ident

/-!
# Scanning a text

The heads of calls and the words of a line are both found by a scan : at every
column a reader looks at the character before and at the rest of the text. `scanFrom`
is such a scan for any reader. What is found is told by where it is found
(`mem_scanFrom_iff`), comes in the order of its columns (`pairwise_scanFrom`), and is
found in each of two parts by itself when nothing that begins in the first part
depends on the second one (`scanFrom_append`). A reader of words finds something only
where a word begins (`ReadsWords`), so it looks once at every identifier
(`ReadsWords.scanFrom_ident`) and passes over the text between identifiers.
-/

namespace RazenLint.Text

variable {α : Type} {read : Nat → Option Char → List Char → Option α}

/-- What a reader finds in a text that follows the given character and begins in the
given column. -/
def scanFrom (read : Nat → Option Char → List Char → Option α) (column : Nat)
    (previous : Option Char) : List Char → List α
  | [] => []
  | c :: cs => (read column previous (c :: cs)).toList ++ scanFrom read (column + 1) (some c) cs

theorem scanFrom_cons (column : Nat) (previous : Option Char) (c : Char) (cs : List Char) :
    scanFrom read column previous (c :: cs) =
      (read column previous (c :: cs)).toList ++ scanFrom read (column + 1) (some c) cs :=
  rfl

/-- The character before what follows a text. -/
theorem getLast?_cons_or (c : Char) (cs : List Char) (previous : Option Char) :
    (c :: cs).getLast?.or previous = cs.getLast?.or (some c) := by
  cases h : cs.getLast? with
  | none =>
    rw [List.getLast?_eq_none_iff] at h
    subst h
    rfl
  | some d => rw [List.getLast?_cons, h]; rfl

/-- Two parts are scanned one after the other. -/
theorem scanFrom_append {t : List Char} : ∀ {pre : List Char} (column : Nat)
    (previous : Option Char), (∀ column previous s, s ≠ [] → s <:+ pre →
      read column previous (s ++ t) = read column previous s) →
      scanFrom read column previous (pre ++ t) = scanFrom read column previous pre ++
        scanFrom read (column + pre.length) (pre.getLast?.or previous) t
  | [], column, previous, _ => rfl
  | c :: cs, column, previous, h => by
    have hrest : scanFrom read (column + 1) (some c) (cs ++ t) =
        scanFrom read (column + 1) (some c) cs ++
          scanFrom read (column + 1 + cs.length) (cs.getLast?.or (some c)) t :=
      scanFrom_append (column + 1) (some c) fun column previous s hs hsuffix =>
        h column previous s hs (hsuffix.trans (List.suffix_cons c cs))
    have hhead := h column previous (c :: cs) (List.cons_ne_nil c cs) (List.suffix_refl _)
    rw [List.cons_append] at hhead ⊢
    rw [scanFrom_cons, scanFrom_cons, hhead, hrest, getLast?_cons_or, List.append_assoc,
      List.length_cons, show column + 1 + cs.length = column + (cs.length + 1) by omega]

/-- A part in which nothing begins is passed over. -/
theorem scanFrom_append_of_none {t : List Char} : ∀ {pre : List Char} (column : Nat)
    (previous : Option Char),
    (∀ front back column, pre = front ++ back → back ≠ [] →
      read column (front.getLast?.or previous) (back ++ t) = none) →
      scanFrom read column previous (pre ++ t) =
        scanFrom read (column + pre.length) (pre.getLast?.or previous) t
  | [], column, previous, _ => rfl
  | c :: cs, column, previous, h => by
    have hnone : ∀ front back column, cs = front ++ back → back ≠ [] →
        read column (front.getLast?.or (some c)) (back ++ t) = none := by
      intro front back column hcs hback
      have := h (c :: front) back column (by rw [hcs]; rfl) hback
      rwa [getLast?_cons_or] at this
    have hrest := scanFrom_append_of_none (column + 1) (some c) hnone
    have hhead : read column previous (c :: cs ++ t) = none :=
      h [] (c :: cs) column rfl (List.cons_ne_nil c cs)
    rw [List.cons_append] at hhead ⊢
    rw [scanFrom_cons, hhead, hrest, getLast?_cons_or, List.length_cons,
      show column + 1 + cs.length = column + (cs.length + 1) by omega]
    rfl

/-- What is found is read somewhere in the text. -/
theorem mem_scanFrom_iff {x : α} : ∀ {cs : List Char} {column : Nat} {previous : Option Char},
    x ∈ scanFrom read column previous cs ↔ ∃ front back, cs = front ++ back ∧ back ≠ [] ∧
      read (column + front.length) (front.getLast?.or previous) back = some x
  | [], column, previous => by
    constructor
    · intro h
      simp [scanFrom] at h
    · rintro ⟨front, back, hcs, hback, -⟩
      exact absurd (List.append_eq_nil_iff.1 hcs.symm).2 hback
  | c :: cs, column, previous => by
    rw [scanFrom_cons, List.mem_append, Option.mem_toList, mem_scanFrom_iff]
    constructor
    · rintro (h | ⟨front, back, rfl, hback, h⟩)
      · exact ⟨[], c :: cs, rfl, List.cons_ne_nil c cs, h⟩
      · refine ⟨c :: front, back, rfl, hback, ?_⟩
        rwa [getLast?_cons_or, List.length_cons,
          show column + (front.length + 1) = column + 1 + front.length by omega]
    · rintro ⟨front, back, hcs, hback, h⟩
      cases front with
      | nil =>
        rw [List.nil_append] at hcs
        subst hcs
        exact Or.inl h
      | cons d front =>
        rw [List.cons_append, List.cons.injEq] at hcs
        obtain ⟨rfl, rfl⟩ := hcs
        refine Or.inr ⟨front, back, rfl, hback, ?_⟩
        rwa [getLast?_cons_or, List.length_cons,
          show column + (front.length + 1) = column + 1 + front.length by omega] at h

/-- What is found comes in the order of the columns in which it begins. -/
theorem pairwise_scanFrom {place : α → Nat}
    (hplace : ∀ {column previous cs x}, read column previous cs = some x → place x = column) :
    ∀ (column : Nat) (previous : Option Char) (cs : List Char),
      (scanFrom read column previous cs).Pairwise fun x y => place x < place y
  | _, _, [] => List.Pairwise.nil
  | column, previous, c :: cs => by
    rw [scanFrom_cons, List.pairwise_append]
    refine ⟨?_, pairwise_scanFrom hplace (column + 1) (some c) cs, ?_⟩
    · cases read column previous (c :: cs) <;> simp
    · intro x hx y hy
      obtain ⟨front, back, -, -, hy⟩ := mem_scanFrom_iff.1 hy
      rw [hplace (Option.mem_toList.1 hx), hplace hy]
      omega

/-- The same text further to the right. -/
theorem scanFrom_add {move : α → α} {distance : Nat}
    (hmove : ∀ column previous cs,
      read (column + distance) previous cs = (read column previous cs).map move) :
    ∀ (column : Nat) (previous : Option Char) (cs : List Char),
      scanFrom read (column + distance) previous cs = (scanFrom read column previous cs).map move
  | _, _, [] => rfl
  | column, previous, c :: cs => by
    rw [scanFrom_cons, scanFrom_cons, List.map_append, hmove,
      ← scanFrom_add hmove (column + 1) (some c) cs,
      show column + distance + 1 = column + 1 + distance by omega]
    cases read column previous (c :: cs) <;> rfl

/-! ## Readers of words -/

/-- A reader that finds something only where a word can begin. -/
structure ReadsWords (read : Nat → Option Char → List Char → Option α) : Prop where
  boundary : ∀ column previous cs, boundaryAfter previous = false → read column previous cs = none
  start : ∀ column previous c cs, isIdentStart c = false → read column previous (c :: cs) = none

namespace ReadsWords

/-- Text without letters is passed over. -/
theorem scanFrom_plain (hread : ReadsWords read) {plain : List Char}
    (hplain : ∀ c ∈ plain, isIdentStart c = false) (column : Nat) (previous : Option Char)
    (t : List Char) : scanFrom read column previous (plain ++ t) =
      scanFrom read (column + plain.length) (plain.getLast?.or previous) t := by
  refine scanFrom_append_of_none column previous fun front back column hcs hback => ?_
  obtain ⟨c, cs, rfl⟩ := List.exists_cons_of_ne_nil hback
  exact hread.start _ _ c _ (hplain c (by rw [hcs]; simp))

/-- An identifier is looked at once, where it begins. -/
theorem scanFrom_ident (hread : ReadsWords read) {ident : List Char} (hident : isIdent ident = true)
    (column : Nat) (previous : Option Char) (t : List Char) :
    scanFrom read column previous (ident ++ t) = (read column previous (ident ++ t)).toList ++
      scanFrom read (column + ident.length) ident.getLast? t := by
  obtain ⟨c, cs, rfl, -⟩ := exists_cons_of_isIdent hident
  rw [List.cons_append, scanFrom_cons]
  congr 1
  rw [scanFrom_append_of_none (column + 1) (some c), List.length_cons, List.getLast?_cons,
    show column + 1 + cs.length = column + (cs.length + 1) by omega]
  · cases cs.getLast? <;> rfl
  · intro front back column hcs hback
    refine hread.boundary _ _ _ ?_
    -- the character before is one of the identifier
    obtain ⟨d, hd⟩ : ∃ d, front.getLast?.or (some c) = some d := by
      cases front.getLast? <;> simp
    have hmem : d ∈ c :: cs := by
      cases hlast : front.getLast? with
      | none =>
        rw [hlast] at hd
        simp_all
      | some e =>
        rw [hlast] at hd
        have := List.mem_of_getLast? hlast
        simp_all
    rw [hd]
    simp [boundaryAfter, isWord_of_isIdentRest (isIdentRest_of_mem_isIdent hident hmem)]

end ReadsWords

end RazenLint.Text
