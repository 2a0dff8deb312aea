import Mathlib.Data.List.Nodup
import Mathlib.Data.List.TakeWhile
import Mathlib.Order.Nat
import RazenLint.Text.Ascii
import RazenLint.Text.Blank
import RazenLint.Text.WordChar

/-!
# Identifiers and blanks

An identifier is read to its end : `takeIdent?_eq_some_iff` says which splits of a
text `takeIdent?` gives. Its characters are word characters and no blanks, and
small letters make an identifier of an identifier.

A text that does not end in a word character is sealed : no identifier that begins
inside it runs into what follows (`takeIdent?_append`).
-/

namespace RazenLint.Text

/-! ## Characters -/

theorem isIdentStart_iff (c : Char) : isIdentStart c = true ↔
    (65 ≤ c.toNat ∧ c.toNat ≤ 90) ∨ c.toNat = 95 ∨ (97 ≤ c.toNat ∧ c.toNat ≤ 122) := by
  have hunderscore : c = '_' ↔ c.toNat = 95 := Char.toNat_inj.symm
  have halpha : c.isAlpha = (decide ('A'.val ≤ c.val ∧ c.val ≤ 'Z'.val) ||
      (decide ('a'.val ≤ c.val) && decide (c.val ≤ 'z'.val))) := rfl
  simp [isIdentStart, halpha, UInt32.le_iff_toNat_le, hunderscore]
  omega

theorem isIdentRest_iff (c : Char) : isIdentRest c = true ↔
    isIdentStart c = true ∨ (48 ≤ c.toNat ∧ c.toNat ≤ 57) := by
  simp [isIdentRest, isIdentStart, Char.isAlphanum, Char.isDigit, UInt32.le_iff_toNat_le,
    or_right_comm]

theorem isIdentRest_of_isIdentStart {c : Char} (h : isIdentStart c = true) :
    isIdentRest c = true :=
  (isIdentRest_iff c).2 (Or.inl h)

theorem isIdentStart_of_not_isIdentRest {c : Char} (h : isIdentRest c = false) :
    isIdentStart c = false := by
  by_contra hstart
  rw [isIdentRest_of_isIdentStart (by simpa using hstart)] at h
  exact absurd h (by simp)

theorem CodePoints.hasNat_cons (low high : Nat) (rest : CodePoints) (n : Nat) :
    hasNat ((low, high) :: rest) n = true ↔ low ≤ n ∧ (n ≤ high ∨ rest.hasNat n = true) := by
  rw [hasNat]
  split <;> simp <;> omega

/-- The word characters begin with the ASCII ones. -/
theorem wordCodePoints_eq : wordCodePoints =
    (0x0030, 0x0039) :: (0x0041, 0x005A) :: (0x005F, 0x005F) :: (0x0061, 0x007A) ::
      wordCodePoints.drop 4 :=
  rfl

theorem isWord_of_isIdentRest {c : Char} (h : isIdentRest c = true) : isWord c = true := by
  rw [isIdentRest_iff, isIdentStart_iff] at h
  rw [isWord, CodePoints.has, wordCodePoints_eq]
  simp only [CodePoints.hasNat_cons]
  omega

theorem isBlank_of_isIdentRest {c : Char} (h : isIdentRest c = true) : isBlank c = false := by
  rw [isIdentRest_iff, isIdentStart_iff] at h
  rw [isBlank, CodePoints.has, blankCodePoints, Bool.eq_false_iff]
  simp only [ne_eq, CodePoints.hasNat_cons]
  simp only [CodePoints.hasNat]
  omega

theorem isBlank_of_isIdentStart {c : Char} (h : isIdentStart c = true) : isBlank c = false :=
  isBlank_of_isIdentRest (isIdentRest_of_isIdentStart h)

theorem CodePoints.exists_of_hasNat {n : Nat} : ∀ {set : CodePoints}, set.hasNat n = true →
    ∃ range ∈ set, n ∈ List.range' range.1 (range.2 + 1 - range.1)
  | (low, high) :: rest, h => by
    obtain ⟨hlow, hhigh | hrest⟩ := (hasNat_cons low high rest n).1 h
    · exact ⟨(low, high), List.mem_cons_self, List.mem_range'_1.2 (by omega)⟩
    · obtain ⟨range, hrange, hn⟩ := exists_of_hasNat hrest
      exact ⟨range, List.mem_cons_of_mem _ hrange, hn⟩

/-- A word may begin after a blank. -/
theorem isWord_of_isBlank {c : Char} (h : isBlank c = true) : isWord c = false := by
  have hall : ∀ range ∈ blankCodePoints, ∀ n ∈ List.range' range.1 (range.2 + 1 - range.1),
      wordCodePoints.hasNat n = false := by decide +kernel
  obtain ⟨range, hrange, hn⟩ := CodePoints.exists_of_hasNat h
  exact hall range hrange c.toNat hn

theorem toNat_toLower (c : Char) : c.toLower.toNat =
    if 65 ≤ c.toNat ∧ c.toNat ≤ 90 then c.toNat + 32 else c.toNat := by
  have hiff : (c.val ≥ 'A'.val ∧ c.val ≤ 'Z'.val) ↔ (65 ≤ c.toNat ∧ c.toNat ≤ 90) := by
    simp [UInt32.le_iff_toNat_le]
  unfold Char.toLower
  split
  · rename_i h
    rw [hiff] at h
    rw [if_pos h, Char.toNat, UInt32.toNat_add]
    simp
    omega
  · rename_i h
    rw [hiff] at h
    rw [if_neg h]

theorem toLower_toLower (c : Char) : c.toLower.toLower = c.toLower := by
  rw [← Char.toNat_inj, toNat_toLower, toNat_toLower]
  split_ifs <;> omega

/-- A name in lower case stays as it is. -/
@[simp] theorem asciiLower_asciiLower (text : String) :
    asciiLower (asciiLower text) = asciiLower text := by
  have hlower : Char.toLower ∘ Char.toLower = Char.toLower := funext toLower_toLower
  simp [asciiLower, hlower]

theorem isIdentStart_toLower {c : Char} (h : isIdentStart c = true) :
    isIdentStart c.toLower = true := by
  rw [isIdentStart_iff] at *
  rw [toNat_toLower]
  split <;> omega

theorem isIdentRest_toLower {c : Char} (h : isIdentRest c = true) :
    isIdentRest c.toLower = true := by
  rw [isIdentRest_iff] at *
  rcases h with h | h
  · exact Or.inl (isIdentStart_toLower h)
  · rw [toNat_toLower, if_neg (by omega)]
    exact Or.inr h

/-! ## Identifiers -/

theorem isIdentRest_of_mem_isIdent {ident : List Char} (h : isIdent ident = true) {c : Char}
    (hc : c ∈ ident) : isIdentRest c = true := by
  cases ident with
  | nil => simp [isIdent] at h
  | cons d ds =>
    simp only [isIdent, Bool.and_eq_true, List.all_eq_true] at h
    rcases List.mem_cons.1 hc with rfl | hc
    · exact isIdentRest_of_isIdentStart h.1
    · exact h.2 c hc

theorem exists_cons_of_isIdent {ident : List Char} (h : isIdent ident = true) :
    ∃ c cs, ident = c :: cs ∧ isIdentStart c = true := by
  cases ident with
  | nil => simp [isIdent] at h
  | cons c cs =>
    simp only [isIdent, Bool.and_eq_true] at h
    exact ⟨c, cs, rfl, h.1⟩

theorem ne_nil_of_isIdent {ident : List Char} (h : isIdent ident = true) : ident ≠ [] := by
  obtain ⟨c, cs, rfl, -⟩ := exists_cons_of_isIdent h
  exact List.cons_ne_nil c cs

theorem isIdent_map_toLower {ident : List Char} (h : isIdent ident = true) :
    isIdent (ident.map Char.toLower) = true := by
  cases ident with
  | nil => simp [isIdent] at h
  | cons c cs =>
    simp only [isIdent, Bool.and_eq_true, List.all_eq_true, List.map_cons, List.mem_map] at h ⊢
    refine ⟨isIdentStart_toLower h.1, ?_⟩
    rintro d ⟨e, he, rfl⟩
    exact isIdentRest_toLower (h.2 e he)

/-- `takeIdent?` splits off an identifier that what follows does not go on with. -/
theorem takeIdent?_eq_some_iff {cs ident rest : List Char} : takeIdent? cs = some (ident, rest) ↔
    cs = ident ++ rest ∧ isIdent ident = true ∧ rest.head?.any isIdentRest = false := by
  constructor
  · intro h
    cases cs with
    | nil => simp [takeIdent?] at h
    | cons c cs =>
      rw [takeIdent?] at h
      split at h
      · rename_i hc
        simp only [Option.some.injEq, Prod.mk.injEq] at h
        obtain ⟨rfl, rfl⟩ := h
        refine ⟨by simp, ?_, ?_⟩
        · simp only [isIdent, hc, Bool.true_and, List.all_eq_true]
          exact fun d hd => List.all_eq_true.1 List.all_takeWhile d hd
        · have := List.head?_dropWhile_not isIdentRest cs
          cases hd : (cs.dropWhile isIdentRest).head? <;> simp_all
      · simp at h
  · rintro ⟨rfl, hident, hrest⟩
    obtain ⟨c, ds, rfl, hc⟩ := exists_cons_of_isIdent hident
    have hds : ∀ d ∈ ds, isIdentRest d = true :=
      fun d hd => isIdentRest_of_mem_isIdent hident (List.mem_cons_of_mem _ hd)
    rw [List.cons_append, takeIdent?, if_pos hc, List.takeWhile_append_of_pos hds,
      List.dropWhile_append_of_pos hds]
    cases rest with
    | nil => simp
    | cons e es =>
      have he : isIdentRest e = false := by simpa using hrest
      simp [he]

theorem takeIdent?_eq_none_iff {cs : List Char} : takeIdent? cs = none ↔
    cs.head?.any isIdentStart = false := by
  cases cs with
  | nil => simp [takeIdent?]
  | cons c cs => simp [takeIdent?]

/-- A text that ends in no word character ends in no character of an identifier. -/
theorem notIdentRest_of_boundaryAfter {cs : List Char} (h : boundaryAfter cs.getLast? = true)
    {c : Char} (hc : cs.getLast? = some c) : isIdentRest c = false := by
  rw [hc] at h
  by_contra hrest
  rw [Bool.not_eq_false] at hrest
  simp [boundaryAfter, isWord_of_isIdentRest hrest] at h

/-- What follows an identifier in a sealed text is not empty. -/
theorem ne_nil_of_takeIdent? {cs ident rest : List Char} (hseal : boundaryAfter cs.getLast? = true)
    (h : takeIdent? cs = some (ident, rest)) : rest ≠ [] := by
  obtain ⟨rfl, hident, -⟩ := takeIdent?_eq_some_iff.1 h
  rintro rfl
  rw [List.append_nil] at hseal
  have hne : ident ≠ [] := by
    rintro rfl
    simp [isIdent] at hident
  have hlast := List.getLast?_eq_some_getLast hne
  have hrest := isIdentRest_of_mem_isIdent hident (List.getLast_mem hne)
  rw [notIdentRest_of_boundaryAfter hseal hlast] at hrest
  exact absurd hrest (by simp)

/-- No identifier runs out of a sealed text. -/
theorem takeIdent?_append {cs : List Char} (hne : cs ≠ [])
    (hseal : boundaryAfter cs.getLast? = true) (more : List Char) :
    takeIdent? (cs ++ more) = (takeIdent? cs).map fun (ident, rest) => (ident, rest ++ more) := by
  cases h : takeIdent? cs with
  | none =>
    rw [takeIdent?_eq_none_iff] at h
    rw [Option.map_none, takeIdent?_eq_none_iff, List.head?_append_of_ne_nil cs hne, h]
  | some split =>
    obtain ⟨ident, rest⟩ := split
    have hrest := ne_nil_of_takeIdent? hseal h
    obtain ⟨rfl, hident, hhead⟩ := takeIdent?_eq_some_iff.1 h
    rw [Option.map_some, takeIdent?_eq_some_iff]
    refine ⟨by simp, hident, ?_⟩
    rw [List.head?_append_of_ne_nil rest hrest, hhead]

/-! ## Blanks -/

theorem trimStart_append_of_blank {cs : List Char} (h : ∀ c ∈ cs, isBlank c = true)
    (more : List Char) : trimStart (cs ++ more) = trimStart more :=
  List.dropWhile_append_of_pos h

theorem trimStart_eq_nil_iff {cs : List Char} :
    trimStart cs = [] ↔ ∀ c ∈ cs, isBlank c = true :=
  List.dropWhile_eq_nil_iff

theorem trimStart_append {cs : List Char} (h : trimStart cs ≠ []) (more : List Char) :
    trimStart (cs ++ more) = trimStart cs ++ more := by
  have hne : (cs.dropWhile isBlank).isEmpty = false := by
    rw [List.isEmpty_eq_false_iff]
    exact h
  rw [trimStart, List.dropWhile_append, hne]
  rfl

theorem trimStart_of_not_blank {c : Char} (h : isBlank c = false) (cs : List Char) :
    trimStart (c :: cs) = c :: cs := by
  rw [trimStart, List.dropWhile_cons, h]
  rfl

theorem takeWhile_append_trimStart (cs : List Char) :
    cs.takeWhile isBlank ++ trimStart cs = cs :=
  List.takeWhile_append_dropWhile

theorem isBlank_of_mem_takeWhile {cs : List Char} {c : Char} (h : c ∈ cs.takeWhile isBlank) :
    isBlank c = true :=
  List.all_eq_true.1 List.all_takeWhile c h

/-- What is left of a sealed text after its blanks ends as the text does. -/
theorem getLast?_trimStart {cs : List Char} (h : trimStart cs ≠ []) :
    (trimStart cs).getLast? = cs.getLast? := by
  conv_rhs => rw [← takeWhile_append_trimStart cs]
  rw [List.getLast?_append_of_ne_nil _ h]

end RazenLint.Text
