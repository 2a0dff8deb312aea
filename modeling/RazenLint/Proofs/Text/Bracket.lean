import Mathlib.Data.List.Nodup
import Mathlib.Order.Nat
import RazenLint.Text.Bracket

/-!
# Matching brackets in parts

The parenthesis that closes an open one stands in a beginning of the text that does
not depend on the rest (`closingDistance_eq_some_iff`). In a text of two parts it is
found in the first part, or the second part is searched at some depth
(`closingDistance_append`).

Whether a text is one bracketed group does not change when a part inside it is
exchanged for one that leaves every depth as it does (`encloses_append_congr`).
-/

namespace RazenLint.Text

/-! ## The closing parenthesis -/

/-- Text without parentheses is passed over. -/
theorem closingDistance_append_of_plain : ∀ {plain : List Char},
    (∀ c ∈ plain, c ≠ '(' ∧ c ≠ ')') → ∀ (depth : Nat) (rest : List Char),
      closingDistance depth (plain ++ rest) =
        (closingDistance depth rest).map (· + plain.length)
  | [], _, depth, rest => by simp
  | c :: plain, h, depth, rest => by
    have hc := h c List.mem_cons_self
    rw [List.cons_append, closingDistance, if_neg hc.1, if_neg hc.2,
      closingDistance_append_of_plain (fun d hd => h d (List.mem_cons_of_mem c hd)), Option.map_map]
    congr 1

theorem closingDistance_open (depth : Nat) (rest : List Char) :
    closingDistance depth ('(' :: rest) = (closingDistance (depth + 1) rest).map (· + 1) := by
  rw [closingDistance, if_pos rfl]

/-- The closing parenthesis stands after what is closed. -/
theorem of_closingDistance : ∀ {depth n : Nat} {cs : List Char}, closingDistance depth cs = some n →
    ∃ inner rest, cs = inner ++ ')' :: rest ∧ inner.length = n
  | _, _, [], h => by simp [closingDistance] at h
  | depth, n, c :: cs, h => by
    rw [closingDistance] at h
    split at h
    · obtain ⟨m, hm, rfl⟩ := Option.map_eq_some_iff.1 h
      obtain ⟨inner, rest, rfl, rfl⟩ := of_closingDistance hm
      exact ⟨c :: inner, rest, rfl, rfl⟩
    · split at h
      · rename_i hc
        split at h
        · cases h
          exact ⟨[], cs, by rw [hc]; rfl, rfl⟩
        · obtain ⟨m, hm, rfl⟩ := Option.map_eq_some_iff.1 h
          obtain ⟨inner, rest, rfl, rfl⟩ := of_closingDistance hm
          exact ⟨c :: inner, rest, rfl, rfl⟩
      · obtain ⟨m, hm, rfl⟩ := Option.map_eq_some_iff.1 h
        obtain ⟨inner, rest, rfl, rfl⟩ := of_closingDistance hm
        exact ⟨c :: inner, rest, rfl, rfl⟩

/-- In two parts the closing parenthesis is in the first one, whatever follows, or it is
that of some depth in the second one. -/
theorem closingDistance_append (depth : Nat) : ∀ front : List Char,
    (∃ n < front.length, ∀ back, closingDistance depth (front ++ back) = some n) ∨
      ∃ depth', ∀ back, closingDistance depth (front ++ back) =
        (closingDistance depth' back).map (· + front.length)
  | [] => Or.inr ⟨depth, fun back => by simp⟩
  | c :: front => by
    have hstep : ∀ depth', (∀ back, closingDistance depth (c :: (front ++ back)) =
        (closingDistance depth' (front ++ back)).map (· + 1)) →
        (∃ n < (c :: front).length, ∀ back, closingDistance depth (c :: front ++ back) = some n) ∨
          ∃ depth', ∀ back, closingDistance depth (c :: front ++ back) =
            (closingDistance depth' back).map (· + (c :: front).length) := by
      intro depth' hc
      rcases closingDistance_append depth' front with ⟨n, hn, hfound⟩ | ⟨depth'', hlater⟩
      · refine Or.inl ⟨n + 1, by simpa using hn, fun back => ?_⟩
        rw [List.cons_append, hc, hfound]
        rfl
      · refine Or.inr ⟨depth'', fun back => ?_⟩
        rw [List.cons_append, hc, hlater, Option.map_map]
        congr 1
    by_cases hopen : c = '('
    · exact hstep (depth + 1) fun back => by rw [closingDistance, if_pos hopen]
    · by_cases hclose : c = ')'
      · by_cases hdepth : depth ≤ 1
        · refine Or.inl ⟨0, by simp, fun back => ?_⟩
          rw [List.cons_append, closingDistance, if_neg hopen, if_pos hclose, if_pos hdepth]
        · exact hstep (depth - 1) fun back => by
            rw [closingDistance, if_neg hopen, if_pos hclose, if_neg hdepth]
      · exact hstep depth fun back => by rw [closingDistance, if_neg hopen, if_neg hclose]

/-- What follows the closing parenthesis does not matter. -/
theorem closingDistance_eq_some_iff {depth : Nat} {inner rest : List Char} :
    closingDistance depth (inner ++ ')' :: rest) = some inner.length ↔
      closingDistance depth (inner ++ [')']) = some inner.length := by
  have hsplit : ∀ rest, inner ++ ')' :: rest = (inner ++ [')']) ++ rest := fun rest => by simp
  rcases closingDistance_append depth (inner ++ [')']) with ⟨n, -, hfound⟩ | ⟨depth', hlater⟩
  · have hnil := hfound []
    rw [List.append_nil] at hnil
    rw [hsplit rest, hfound, hnil]
  · -- a parenthesis of the second part would be too far away
    have hno : ∀ rest, closingDistance depth (inner ++ ')' :: rest) ≠ some inner.length := by
      intro rest h
      rw [hsplit, hlater] at h
      obtain ⟨n, -, hn⟩ := Option.map_eq_some_iff.1 h
      rw [List.length_append, List.length_singleton] at hn
      omega
    exact ⟨fun h => absurd h (hno rest), fun h => absurd h (hno [])⟩

theorem le_of_closingParen {masked : List Char} {opening n : Nat}
    (h : closingParen masked opening = some n) : opening ≤ n := by
  obtain ⟨m, -, rfl⟩ := Option.map_eq_some_iff.1 h
  exact Nat.le_add_left opening m

/-- A parenthesis stands in the column that is found. -/
theorem getElem?_closingParen {masked : List Char} {opening n : Nat}
    (h : closingParen masked opening = some n) : masked[n]? = some ')' := by
  obtain ⟨m, hm, rfl⟩ := Option.map_eq_some_iff.1 h
  obtain ⟨inner, rest, hdrop, rfl⟩ := of_closingDistance hm
  rw [Nat.add_comm, ← List.getElem?_drop, hdrop]
  simp

/-- The closing parenthesis of one that is open in front of a text, or in it. -/
theorem closingParen_append {front : List Char} {opening : Nat} (h : opening ≤ front.length) :
    (∃ n < front.length, ∀ back, closingParen (front ++ back) opening = some n) ∨
      ∃ depth, ∀ back, closingParen (front ++ back) opening =
        (closingDistance depth back).map (· + front.length) := by
  have hdrop : ∀ back, (front ++ back).drop opening = front.drop opening ++ back :=
    fun back => List.drop_append_of_le_length h
  rcases closingDistance_append 0 (front.drop opening) with ⟨n, hn, hfound⟩ | ⟨depth, hlater⟩
  · refine Or.inl ⟨n + opening, by rw [List.length_drop] at hn; omega, fun back => ?_⟩
    rw [closingParen, hdrop, hfound]
    rfl
  · refine Or.inr ⟨depth, fun back => ?_⟩
    rw [closingParen, hdrop, hlater, Option.map_map, List.length_drop]
    congr 1
    ext n
    simp only [Function.comp_apply]
    omega

/-! ## One group -/

variable {opening closing : Char}

theorem closesAtEnd_append_of_plain : ∀ {plain : List Char},
    (∀ c ∈ plain, c ≠ opening ∧ c ≠ closing) → ∀ (depth : Nat) (rest : List Char),
      closesAtEnd opening closing depth (plain ++ rest) = closesAtEnd opening closing depth rest
  | [], _, _, _ => rfl
  | c :: plain, h, depth, rest => by
    have hc := h c List.mem_cons_self
    rw [List.cons_append, closesAtEnd, if_neg hc.1, if_neg hc.2,
      closesAtEnd_append_of_plain fun d hd => h d (List.mem_cons_of_mem c hd)]

/-- A group inside an open one leaves the depth as it was. -/
theorem closesAtEnd_group {plain rest : List Char} (hne : opening ≠ closing)
    (hplain : ∀ c ∈ plain, c ≠ opening ∧ c ≠ closing) {depth : Nat} (hdepth : 1 ≤ depth) :
    closesAtEnd opening closing depth (opening :: (plain ++ closing :: rest)) =
      closesAtEnd opening closing depth rest := by
  rw [closesAtEnd, if_pos rfl, closesAtEnd_append_of_plain hplain, closesAtEnd, if_neg hne.symm,
    if_pos rfl, if_neg (by omega), Nat.add_sub_cancel]

theorem closesAtEnd_append_congr {back back' : List Char} (hback : back ≠ []) (hback' : back' ≠ [])
    (h : ∀ depth, 1 ≤ depth →
      closesAtEnd opening closing depth back = closesAtEnd opening closing depth back') :
    ∀ (front : List Char) (depth : Nat), 1 ≤ depth →
      closesAtEnd opening closing depth (front ++ back) =
        closesAtEnd opening closing depth (front ++ back')
  | [], depth, hdepth => h depth hdepth
  | c :: front, depth, hdepth => by
    have hne : front ++ back ≠ [] := by simp [hback]
    have hne' : front ++ back' ≠ [] := by simp [hback']
    simp only [List.cons_append, closesAtEnd]
    split
    · exact closesAtEnd_append_congr hback hback' h front (depth + 1) (by omega)
    · split
      · by_cases hend : depth ≤ 1
        · simp [hend, hne, hne']
        · rw [if_neg (by omega), if_neg (by omega)]
          exact closesAtEnd_append_congr hback hback' h front (depth - 1) (by omega)
      · exact closesAtEnd_append_congr hback hback' h front depth hdepth

theorem encloses_append_congr {front back back' : List Char} (hfront : front ≠ [])
    (hback : back ≠ []) (hback' : back' ≠ []) (hlast : back.getLast? = back'.getLast?)
    (h : ∀ depth, 1 ≤ depth →
      closesAtEnd opening closing depth back = closesAtEnd opening closing depth back') :
    encloses opening closing (front ++ back) = encloses opening closing (front ++ back') := by
  obtain ⟨c, front, rfl⟩ := List.exists_cons_of_ne_nil hfront
  unfold encloses
  rw [List.getLast?_append_of_ne_nil _ hback, List.getLast?_append_of_ne_nil _ hback', hlast]
  by_cases hc : c = opening
  · have hclose := closesAtEnd_append_congr hback hback' h front 1 le_rfl
    simp only [List.cons_append, closesAtEnd, if_pos hc, Nat.zero_add, hclose]
    simp [hback, hback', Nat.one_le_iff_ne_zero]
  · simp [hc]

end RazenLint.Text
