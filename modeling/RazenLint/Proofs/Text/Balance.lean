import RazenLint.Proofs.Text.Bracket
import RazenLint.Proofs.Text.Depth

/-!
# Balanced parentheses

A search for the parenthesis that closes an open one counts the depth as it goes. What it finds is
told by counts alone : the first column up to which there are as many closing parentheses as
opening ones (`closingParen_eq_some_iff`). A search that begins deeper takes longer
(`exists_closingDistance_lt`), so between an opening parenthesis and the one that closes it every
opening parenthesis is closed (`exists_closingParen_lt`).
-/

namespace RazenLint.Text

/-! ## Steps -/

/-- The depth behind a character. -/
def depthAfter (depth : Nat) (c : Char) : Nat :=
  if c = '(' then depth + 1 else if c = ')' then depth - 1 else depth

/-- A search is over where the depth is back to zero. -/
theorem closingDistance_cons {depth : Nat} (h : 1 ≤ depth) (c : Char) (cs : List Char) :
    closingDistance depth (c :: cs) =
      if depthAfter depth c = 0 then some 0
      else (closingDistance (depthAfter depth c) cs).map (· + 1) := by
  unfold depthAfter
  rw [closingDistance]
  by_cases hopen : c = '('
  · rw [if_pos hopen, if_pos hopen, if_neg (Nat.succ_ne_zero depth)]
  · rw [if_neg hopen, if_neg hopen]
    by_cases hclose : c = ')'
    · rw [if_pos hclose, if_pos hclose]
      exact if_congr (by omega) rfl rfl
    · rw [if_neg hclose, if_neg hclose, if_neg (by omega)]

theorem depthAfter_lt {depth deep : Nat} (hdepth : 1 ≤ depth) (h : depth < deep) (c : Char) :
    depthAfter depth c < depthAfter deep c := by
  unfold depthAfter
  split
  · omega
  · split <;> omega

/-! ## Counts -/

/-- Up to a character, a text closes what it opens and `depth` parentheses more. -/
def ClosesBy (depth : Nat) (cs : List Char) (n : Nat) : Prop :=
  n < cs.length ∧ depth + (cs.take (n + 1)).count '(' = (cs.take (n + 1)).count ')'

/-- Parentheses are counted like all brackets. -/
theorem isLeast_closesBy_cons_iff {depth : Nat} (h : 1 ≤ depth) {c : Char} {cs : List Char}
    {n : Nat} : IsLeast {m | ClosesBy depth (c :: cs) m} n ↔
      if depthAfter depth c = 0 then n = 0
      else ∃ m, IsLeast {m | ClosesBy (depthAfter depth c) cs m} m ∧ m + 1 = n :=
  isLeast_balancedBy_cons_iff (by decide) fun _ => h

/-- The search finds the first character up to which everything is closed. -/
theorem closingDistance_eq_some_iff_isLeast : ∀ {cs : List Char} {depth n : Nat}, 1 ≤ depth →
    (closingDistance depth cs = some n ↔ IsLeast {m | ClosesBy depth cs m} n)
  | [], depth, n, _ => by
    rw [closingDistance]
    exact ⟨fun h => absurd h (by simp), fun h => absurd h.1 (not_balancedBy_nil depth n)⟩
  | c :: cs, depth, n, hdepth => by
    rw [closingDistance_cons hdepth, isLeast_closesBy_cons_iff hdepth]
    split
    · rw [Option.some.injEq, eq_comm]
    · rename_i hdeep
      rw [Option.map_eq_some_iff]
      simp only [closingDistance_eq_some_iff_isLeast (Nat.one_le_iff_ne_zero.2 hdeep)]

/-! ## The column of the closing parenthesis -/

/-- From an opening parenthesis up to a later column there are as many closing parentheses as
opening ones. -/
structure ClosesAt (masked : List Char) (opening column : Nat) : Prop where
  later : opening < column
  inside : column < masked.length
  balanced : ((masked.take (column + 1)).drop opening).count '(' =
    ((masked.take (column + 1)).drop opening).count ')'

instance (masked : List Char) (opening column : Nat) :
    Decidable (ClosesAt masked opening column) :=
  decidable_of_iff (opening < column ∧ column < masked.length ∧
      ((masked.take (column + 1)).drop opening).count '(' =
        ((masked.take (column + 1)).drop opening).count ')')
    ⟨fun h => ⟨h.1, h.2.1, h.2.2⟩, fun h => ⟨h.later, h.inside, h.balanced⟩⟩

section

variable {masked : List Char} {opening : Nat}

theorem drop_of_getElem? (h : masked[opening]? = some '(') :
    masked.drop opening = '(' :: masked.drop (opening + 1) := by
  obtain ⟨hlt, hget⟩ := List.getElem?_eq_some_iff.1 h
  rw [List.drop_eq_getElem_cons hlt, hget]

theorem closingParen_of_getElem? (h : masked[opening]? = some '(') :
    closingParen masked opening =
      (closingDistance 1 (masked.drop (opening + 1))).map (· + (opening + 1)) := by
  rw [closingParen, drop_of_getElem? h, closingDistance_open, Option.map_map]
  congr 1
  ext n
  simp only [Function.comp_apply]
  omega

theorem closesAt_iff (h : masked[opening]? = some '(') {n : Nat} :
    ClosesAt masked opening (n + (opening + 1)) ↔
      ClosesBy 1 (masked.drop (opening + 1)) n := by
  have hpart : (masked.take (n + (opening + 1) + 1)).drop opening =
      '(' :: (masked.drop (opening + 1)).take (n + 1) := by
    rw [List.drop_take, drop_of_getElem? h,
      show n + (opening + 1) + 1 - opening = (n + 1) + 1 by omega, List.take_succ_cons]
  have hcount : 1 + ((masked.drop (opening + 1)).take (n + 1)).count '(' =
      ((masked.drop (opening + 1)).take (n + 1)).count ')' ↔
        ((masked.take (n + (opening + 1) + 1)).drop opening).count '(' =
          ((masked.take (n + (opening + 1) + 1)).drop opening).count ')' := by
    rw [hpart, List.count_cons_self, List.count_cons_of_ne (by decide), Nat.add_comm]
  rw [ClosesBy, hcount, List.length_drop]
  exact ⟨fun hcloses => ⟨by have := hcloses.inside; omega, hcloses.balanced⟩,
    fun hcloses => ⟨by omega, by have := hcloses.1; omega, hcloses.2⟩⟩

/-- The closing parenthesis stands in the first column up to which the parentheses are
balanced. -/
theorem closingParen_eq_some_iff (h : masked[opening]? = some '(') {n : Nat} :
    closingParen masked opening = some n ↔ IsLeast {column | ClosesAt masked opening column} n := by
  rw [closingParen_of_getElem? h, Option.map_eq_some_iff]
  simp only [closingDistance_eq_some_iff_isLeast le_rfl, ← closesAt_iff h]
  constructor
  · rintro ⟨m, ⟨hm, hleast⟩, rfl⟩
    refine ⟨hm, fun column hcolumn => ?_⟩
    obtain ⟨k, rfl⟩ := Nat.exists_eq_add_of_le' (show opening + 1 ≤ column from hcolumn.later)
    exact Nat.add_le_add_right (hleast hcolumn) _
  · rintro ⟨hn, hleast⟩
    obtain ⟨m, rfl⟩ := Nat.exists_eq_add_of_le' (show opening + 1 ≤ n from hn.later)
    exact ⟨m, ⟨hn, fun k hk => Nat.le_of_add_le_add_right (hleast hk)⟩, rfl⟩

theorem closingParen_eq_none_iff (h : masked[opening]? = some '(') :
    closingParen masked opening = none ↔ ∀ column, ¬ClosesAt masked opening column := by
  classical
  rw [Option.eq_none_iff_forall_ne_some]
  simp only [ne_eq, closingParen_eq_some_iff h]
  constructor
  · intro hno column hcolumn
    exact hno _ (Nat.isLeast_find ⟨column, hcolumn⟩)
  · exact fun hno n hn => hno n hn.1

end

/-! ## Parentheses in parentheses -/

/-- A search that begins deeper takes longer. -/
theorem exists_closingDistance_lt : ∀ {cs : List Char} {depth deep n : Nat}, 1 ≤ depth →
    depth < deep → closingDistance deep cs = some n →
      ∃ m < n, closingDistance depth cs = some m
  | [], _, _, _, _, _, h => by simp [closingDistance] at h
  | c :: cs, depth, deep, n, hdepth, hlt, h => by
    have hstep := depthAfter_lt hdepth hlt c
    rw [closingDistance_cons (by omega), if_neg (by omega)] at h
    obtain ⟨k, hk, rfl⟩ := Option.map_eq_some_iff.1 h
    rw [closingDistance_cons hdepth]
    split
    · exact ⟨0, Nat.succ_pos k, rfl⟩
    · rename_i hdeep
      obtain ⟨m, hm, hfound⟩ :=
        exists_closingDistance_lt (Nat.one_le_iff_ne_zero.2 hdeep) hstep hk
      exact ⟨m + 1, Nat.succ_lt_succ hm, by rw [hfound]; rfl⟩

/-- A parenthesis that is opened on the way to the closing one is closed on the way. -/
theorem exists_closingDistance_inner {back : List Char} :
    ∀ {front : List Char} {depth n : Nat}, 1 ≤ depth →
      closingDistance depth (front ++ '(' :: back) = some n → front.length < n →
        ∃ m, m + (front.length + 1) < n ∧ closingDistance 1 back = some m
  | [], depth, n, hdepth, h, _ => by
    rw [List.nil_append, closingDistance_open] at h
    obtain ⟨k, hk, rfl⟩ := Option.map_eq_some_iff.1 h
    obtain ⟨m, hm, hfound⟩ := exists_closingDistance_lt le_rfl (Nat.lt_succ_of_le hdepth) hk
    exact ⟨m, Nat.succ_lt_succ hm, hfound⟩
  | c :: front, depth, n, hdepth, h, hn => by
    rw [List.cons_append, closingDistance_cons hdepth] at h
    split at h
    · obtain rfl := Option.some.inj h
      exact absurd hn (Nat.not_lt_zero _)
    · rename_i hdeep
      obtain ⟨k, hk, rfl⟩ := Option.map_eq_some_iff.1 h
      obtain ⟨m, hm, hfound⟩ := exists_closingDistance_inner (Nat.one_le_iff_ne_zero.2 hdeep) hk
        (Nat.lt_of_succ_lt_succ hn)
      exact ⟨m, by rw [List.length_cons]; omega, hfound⟩

/-- Between an opening parenthesis and the one that closes it, every opening parenthesis is
closed. -/
theorem exists_closingParen_lt {masked : List Char} {outer inner n : Nat}
    (houter : masked[outer]? = some '(') (hinner : masked[inner]? = some '(')
    (hlt : outer < inner) (hclosing : closingParen masked outer = some n) (hn : inner < n) :
    ∃ m < n, closingParen masked inner = some m := by
  rw [closingParen_of_getElem? houter] at hclosing
  obtain ⟨k, hk, rfl⟩ := Option.map_eq_some_iff.1 hclosing
  have hsplit : masked.drop (outer + 1) = (masked.drop (outer + 1)).take (inner - (outer + 1)) ++
      '(' :: masked.drop (inner + 1) := by
    rw [← drop_of_getElem? hinner]
    conv_lhs => rw [← List.take_append_drop (inner - (outer + 1)) (masked.drop (outer + 1))]
    rw [List.drop_drop, Nat.add_sub_cancel' hlt]
  have hlength : ((masked.drop (outer + 1)).take (inner - (outer + 1))).length =
      inner - (outer + 1) := by
    obtain ⟨hinside, -⟩ := List.getElem?_eq_some_iff.1 hinner
    rw [List.length_take, List.length_drop]
    omega
  rw [hsplit] at hk
  obtain ⟨m, hm, hfound⟩ := exists_closingDistance_inner le_rfl hk (by omega)
  refine ⟨m + (inner + 1), by omega, ?_⟩
  rw [closingParen_of_getElem? hinner, hfound]
  rfl

end RazenLint.Text
