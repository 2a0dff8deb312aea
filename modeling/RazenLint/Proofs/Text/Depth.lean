import Mathlib.Order.Bounds.Basic

/-!
# Depths

Brackets are counted from left to right. A text that is read behind some open brackets is
balanced in the places up to which it closes what it opens and those brackets (`BalancedBy`). The
first such place is where the depth, which changes from sign to sign, is zero for the first time
(`isLeast_balancedBy_cons_iff`). Where this is the last place of the text, the text closes its
brackets there and not before (`ClosesLast`).

A text is a list of characters here, or of bytes. The two say the same when every bracket has one
byte and no other character has the byte of a bracket (`StandsFor.closesLast_append_iff`).
-/

namespace RazenLint.Text

section

variable {α : Type*} [DecidableEq α] {opening closing : α}

/-- The depth behind a sign of a text. -/
def depthBehind (opening closing : α) (depth : Nat) (c : α) : Nat :=
  if c = opening then depth + 1 else if c = closing then depth - 1 else depth

theorem depthBehind_of_plain {c : α} (hopen : c ≠ opening) (hclose : c ≠ closing) (depth : Nat) :
    depthBehind opening closing depth c = depth := by
  rw [depthBehind, if_neg hopen, if_neg hclose]

/-! ## Balanced places -/

/-- Up to a place, a text closes what it opens and `depth` brackets more. -/
def BalancedBy (opening closing : α) (depth : Nat) (text : List α) (place : Nat) : Prop :=
  place < text.length ∧
    depth + (text.take (place + 1)).count opening = (text.take (place + 1)).count closing

theorem not_balancedBy_nil (depth place : Nat) : ¬BalancedBy opening closing depth [] place :=
  fun h => Nat.not_lt_zero place h.1

variable {depth : Nat} {c : α}

/-- A sign counts as much as it changes the depth. -/
theorem depthBehind_add_count (hne : opening ≠ closing) (h : c = closing → 1 ≤ depth)
    (text : List α) :
    depthBehind opening closing depth c + text.count opening = text.count closing ↔
      depth + (c :: text).count opening = (c :: text).count closing := by
  unfold depthBehind
  by_cases hopen : c = opening
  · rw [if_pos hopen, hopen, List.count_cons_self, List.count_cons_of_ne hne]
    omega
  · rw [if_neg hopen, List.count_cons_of_ne hopen]
    by_cases hclose : c = closing
    · have hdepth := h hclose
      rw [if_pos hclose, hclose, List.count_cons_self]
      omega
    · rw [if_neg hclose, List.count_cons_of_ne hclose]

theorem balancedBy_cons_zero (hne : opening ≠ closing) (h : c = closing → 1 ≤ depth)
    (text : List α) : BalancedBy opening closing depth (c :: text) 0 ↔
      depthBehind opening closing depth c = 0 := by
  have hcount := depthBehind_add_count hne h []
  simp only [List.count_nil, Nat.add_zero] at hcount
  rw [BalancedBy, hcount]
  simp

theorem balancedBy_cons_succ (hne : opening ≠ closing) (h : c = closing → 1 ≤ depth)
    (text : List α) (place : Nat) :
    BalancedBy opening closing depth (c :: text) (place + 1) ↔
      BalancedBy opening closing (depthBehind opening closing depth c) text place := by
  rw [BalancedBy, BalancedBy, List.take_succ_cons, depthBehind_add_count hne h]
  simp

/-- The least number with a property that zero does not have. -/
theorem isLeast_iff_succ {p : Nat → Prop} (h : ¬p 0) {n : Nat} :
    IsLeast {m | p m} n ↔ ∃ m, IsLeast {m | p (m + 1)} m ∧ m + 1 = n := by
  constructor
  · rintro ⟨hn, hleast⟩
    obtain ⟨m, rfl⟩ : ∃ m, n = m + 1 :=
      Nat.exists_eq_succ_of_ne_zero fun hzero => h (hzero ▸ hn)
    exact ⟨m, ⟨hn, fun k hk => Nat.le_of_succ_le_succ (hleast hk)⟩, rfl⟩
  · rintro ⟨m, ⟨hm, hleast⟩, rfl⟩
    refine ⟨hm, fun k hk => ?_⟩
    cases k with
    | zero => exact absurd hk h
    | succ k => exact Nat.succ_le_succ (hleast hk)

/-- The first balanced place is the first sign, or it is found behind the first sign at the depth
that this sign leaves. -/
theorem isLeast_balancedBy_cons_iff (hne : opening ≠ closing) (h : c = closing → 1 ≤ depth)
    {text : List α} {place : Nat} :
    IsLeast {n | BalancedBy opening closing depth (c :: text) n} place ↔
      if depthBehind opening closing depth c = 0 then place = 0
      else ∃ n, IsLeast {n | BalancedBy opening closing (depthBehind opening closing depth c)
        text n} n ∧ n + 1 = place := by
  split
  · rename_i hzero
    have hfirst := (balancedBy_cons_zero hne h text).2 hzero
    constructor
    · exact fun hleast => Nat.le_zero.1 (hleast.2 hfirst)
    · rintro rfl
      exact ⟨hfirst, fun _ _ => Nat.zero_le _⟩
  · rename_i hdeep
    rw [isLeast_iff_succ ((balancedBy_cons_zero hne h text).not.2 hdeep)]
    simp only [balancedBy_cons_succ hne h]

/-! ## Closing at the end -/

/-- The first place up to which a text closes what it opens and `depth` brackets more is its last
place. -/
def ClosesLast (opening closing : α) (depth : Nat) (text : List α) : Prop :=
  IsLeast {place | BalancedBy opening closing depth text place} (text.length - 1)

theorem not_closesLast_nil (depth : Nat) : ¬ClosesLast opening closing depth [] :=
  fun h => not_balancedBy_nil depth _ h.1

theorem closesLast_cons_iff (hne : opening ≠ closing) (h : c = closing → 1 ≤ depth)
    {text : List α} : ClosesLast opening closing depth (c :: text) ↔
      if depthBehind opening closing depth c = 0 then text = []
      else ClosesLast opening closing (depthBehind opening closing depth c) text := by
  rw [ClosesLast, isLeast_balancedBy_cons_iff hne h, List.length_cons, Nat.add_sub_cancel]
  split
  · exact List.length_eq_zero_iff
  · constructor
    · rintro ⟨n, hn, hplace⟩
      rwa [ClosesLast, ← hplace, Nat.add_sub_cancel]
    · intro hlast
      have hpos : text.length - 1 < text.length := hlast.1.1
      exact ⟨text.length - 1, hlast, by omega⟩

/-- Signs that are no brackets are passed over. -/
theorem closesLast_append_of_plain (hne : opening ≠ closing) (hdepth : 1 ≤ depth) {rest : List α} :
    ∀ {plain : List α}, (∀ c ∈ plain, c ≠ opening ∧ c ≠ closing) →
      (ClosesLast opening closing depth (plain ++ rest) ↔ ClosesLast opening closing depth rest)
  | [], _ => Iff.rfl
  | c :: plain, h => by
    have hc := h c List.mem_cons_self
    rw [List.cons_append, closesLast_cons_iff hne fun _ => hdepth,
      depthBehind_of_plain hc.1 hc.2, if_neg (Nat.ne_of_gt hdepth),
      closesLast_append_of_plain hne hdepth fun d hd => h d (List.mem_cons_of_mem c hd)]

/-- From the first bracket of a text on, the depth is counted as behind it. -/
theorem closesLast_zero_iff (hne : opening ≠ closing) {text : List α} :
    2 ≤ text.length ∧ text.head? = some opening ∧ ClosesLast opening closing 0 text ↔
      ∃ rest, text = opening :: rest ∧ ClosesLast opening closing 1 rest := by
  have hcons : ∀ rest, ClosesLast opening closing 0 (opening :: rest) ↔
      ClosesLast opening closing 1 rest := by
    intro rest
    rw [closesLast_cons_iff hne fun h => absurd h hne, depthBehind, if_pos rfl,
      if_neg Nat.one_ne_zero]
  constructor
  · rintro ⟨-, hhead, hlast⟩
    obtain ⟨rest, rfl⟩ := List.head?_eq_some_iff.1 hhead
    exact ⟨rest, rfl, (hcons rest).1 hlast⟩
  · rintro ⟨rest, rfl, hlast⟩
    have hpos : rest.length - 1 < rest.length := hlast.1.1
    exact ⟨by rw [List.length_cons]; omega, rfl, (hcons rest).2 hlast⟩

end

/-! ## Signs in other signs -/

section

variable {α β : Type*} [DecidableEq α] [DecidableEq β] {opening closing : α}
  {opening' closing' : β}

/-- A piece of a text stands for one sign : for a bracket it is the bracket alone, and for any
other sign it holds no bracket. -/
structure StandsFor (opening closing : α) (opening' closing' : β) (c : α) (piece : List β) :
    Prop where
  opens : c = opening → piece = [opening']
  closes : c = closing → piece = [closing']
  plain : c ≠ opening → c ≠ closing → ∀ d ∈ piece, d ≠ opening' ∧ d ≠ closing'

/-- The step from one text to another in which each sign is written as the piece that stands
for it. -/
theorem StandsFor.closesLast_append_iff (hne : opening ≠ closing) (hne' : opening' ≠ closing')
    {c : α} {piece : List β} (h : StandsFor opening closing opening' closing' c piece)
    {depth : Nat} (hdepth : 1 ≤ depth) {text : List α} {text' : List β}
    (hnil : text' = [] ↔ text = []) (htext : ∀ deep, 1 ≤ deep →
      (ClosesLast opening' closing' deep text' ↔ ClosesLast opening closing deep text)) :
    ClosesLast opening' closing' depth (piece ++ text') ↔
      ClosesLast opening closing depth (c :: text) := by
  rw [closesLast_cons_iff hne fun _ => hdepth]
  by_cases hopen : c = opening
  · rw [h.opens hopen, List.singleton_append, closesLast_cons_iff hne' fun _ => hdepth,
      depthBehind, depthBehind, if_pos rfl, if_pos hopen, if_neg (Nat.succ_ne_zero depth),
      if_neg (Nat.succ_ne_zero depth), htext _ (Nat.succ_pos depth)]
  · by_cases hclose : c = closing
    · rw [h.closes hclose, List.singleton_append, closesLast_cons_iff hne' fun _ => hdepth,
        depthBehind, depthBehind, if_neg hne'.symm, if_pos rfl, if_neg hopen, if_pos hclose]
      split
      · exact hnil
      · rename_i hdeep
        exact htext _ (Nat.one_le_iff_ne_zero.2 hdeep)
    · rw [closesLast_append_of_plain hne' hdepth (h.plain hopen hclose),
        depthBehind_of_plain hopen hclose, if_neg (Nat.ne_of_gt hdepth), htext _ hdepth]

end

end RazenLint.Text
