import Mathlib.Data.List.DropRight
import RazenLint.Proofs.Text.Literal

/-!
# Trimming the end of a text

What `trimEnd` leaves ends in a character that is no blank, and the text is what is
left with blanks after it (`exists_trimEnd_append`). Text in front of something that is
kept is kept (`trimEnd_append`), and blanks at the end do not matter
(`trimEnd_append_of_blank`).
-/

namespace RazenLint.Text

theorem trimEnd_eq_rdropWhile (cs : List Char) : trimEnd cs = cs.rdropWhile isBlank :=
  rfl

theorem trimEnd_append_of_blank {back : List Char} (h : ∀ c ∈ back, isBlank c = true)
    (front : List Char) : trimEnd (front ++ back) = trimEnd front := by
  rw [trimEnd, List.reverse_append, List.dropWhile_append_of_pos]
  · rfl
  · exact fun c hc => h c (List.mem_reverse.1 hc)

/-- A text is what trimming leaves, and blanks after it. -/
theorem exists_trimEnd_append (cs : List Char) :
    ∃ blanks, cs = trimEnd cs ++ blanks ∧ ∀ c ∈ blanks, isBlank c = true :=
  ⟨cs.rtakeWhile isBlank, List.rdropWhile_append_rtakeWhile.symm,
    fun _ hc => List.mem_rtakeWhile_imp hc⟩

theorem trimEnd_concat_of_not_blank {c : Char} (h : isBlank c = false) (cs : List Char) :
    trimEnd (cs ++ [c]) = cs ++ [c] :=
  List.rdropWhile_concat_neg isBlank cs c (by simp [h])

/-- What trimming leaves ends in no blank. -/
theorem isBlank_of_getLast?_trimEnd {cs : List Char} {c : Char}
    (h : (trimEnd cs).getLast? = some c) : isBlank c = false := by
  have hne : cs.rdropWhile isBlank ≠ [] := by
    intro hnil
    rw [trimEnd_eq_rdropWhile, hnil] at h
    simp at h
  have hlast := List.rdropWhile_last_not isBlank cs hne
  rw [trimEnd_eq_rdropWhile, List.getLast?_eq_some_getLast hne, Option.some.injEq] at h
  rw [h] at hlast
  simpa using hlast

theorem trimEnd_of_getLast? {cs : List Char} (h : ∀ c, cs.getLast? = some c → isBlank c = false) :
    trimEnd cs = cs := by
  refine List.rdropWhile_eq_self_iff.2 fun hne => ?_
  simpa using h _ (List.getLast?_eq_some_getLast hne)

@[simp] theorem trimEnd_trimEnd (cs : List Char) : trimEnd (trimEnd cs) = trimEnd cs :=
  List.rdropWhile_idempotent isBlank cs

/-- Text in front of something that is kept is kept. -/
theorem trimEnd_append {front : List Char} {c : Char} (h : front.getLast? = some c)
    (hc : isBlank c = false) (back : List Char) :
    trimEnd (front ++ back) = front ++ trimEnd back := by
  obtain ⟨blanks, hback, hblank⟩ := exists_trimEnd_append back
  conv_lhs => rw [hback, ← List.append_assoc, trimEnd_append_of_blank hblank]
  refine trimEnd_of_getLast? fun d hd => ?_
  by_cases hnil : trimEnd back = []
  · rw [hnil, List.append_nil, h, Option.some.injEq] at hd
    rwa [← hd]
  · rw [List.getLast?_append_of_ne_nil front hnil] at hd
    exact isBlank_of_getLast?_trimEnd hd

/-- A character that is no blank stands in front of the blanks at the end. -/
theorem lt_length_trimEnd {cs : List Char} {i : Nat} {c : Char} (h : cs[i]? = some c)
    (hc : isBlank c = false) : i < (trimEnd cs).length := by
  obtain ⟨blanks, hcs, hblank⟩ := exists_trimEnd_append cs
  by_contra hge
  rw [hcs, List.getElem?_append_right (Nat.le_of_not_lt hge)] at h
  rw [hblank c (List.mem_of_getElem? h)] at hc
  exact absurd hc (by simp)

/-- Blanks at the end do not matter to trimming at both ends. -/
theorem trimEnd_trimStart (cs : List Char) :
    trimEnd (trimStart cs) = trimEnd (trimStart (trimEnd cs)) := by
  obtain ⟨blanks, hcs, hblank⟩ := exists_trimEnd_append cs
  by_cases hnil : trimStart (trimEnd cs) = []
  · rw [hnil]
    conv_lhs => rw [hcs, trimStart_append_of_blank (trimStart_eq_nil_iff.1 hnil),
      trimStart_eq_nil_iff.2 hblank]
  · conv_lhs => rw [hcs, trimStart_append hnil, trimEnd_append_of_blank hblank]

/-- Trimming at both ends keeps what is no blank. -/
theorem mem_trim {cs : List Char} {c : Char} (h : c ∈ cs) (hc : isBlank c = false) :
    c ∈ trim cs := by
  have hno : ∀ {blanks : List Char}, (∀ d ∈ blanks, isBlank d = true) → c ∉ blanks := by
    intro blanks hblank hmem
    rw [hblank c hmem] at hc
    exact absurd hc (by simp)
  rw [← takeWhile_append_trimStart cs, List.mem_append] at h
  have hstart := h.resolve_left (hno fun d => isBlank_of_mem_takeWhile)
  obtain ⟨blanks, htrim, hblank⟩ := exists_trimEnd_append (trimStart cs)
  rw [htrim, List.mem_append] at hstart
  exact hstart.resolve_right (hno hblank)

theorem trim_eq_nil_iff {line : List Char} : trim line = [] ↔ ∀ c ∈ line, isBlank c = true := by
  constructor
  · intro h c hc
    by_contra hblank
    have hmem := mem_trim hc (Bool.eq_false_iff.2 hblank)
    simp [h] at hmem
  · intro h
    rw [trim, trimStart_eq_nil_iff.2 h]
    rfl

/-- What is left of a text without its blanks is left of the trimmed text. -/
theorem filter_trim (cs : List Char) :
    (trim cs).filter (!isBlank ·) = cs.filter (!isBlank ·) := by
  have hno : ∀ {blanks : List Char}, (∀ c ∈ blanks, isBlank c = true) →
      blanks.filter (!isBlank ·) = [] := by
    intro blanks hblank
    exact List.filter_eq_nil_iff.2 fun c hc => by simp [hblank c hc]
  obtain ⟨blanks, htrim, hblank⟩ := exists_trimEnd_append (trimStart cs)
  conv_rhs => rw [← takeWhile_append_trimStart cs, htrim, List.filter_append, List.filter_append,
    hno hblank, hno fun c => isBlank_of_mem_takeWhile, List.append_nil, List.nil_append]
  rfl

/-- A trimmed text begins with no blank. -/
theorem isBlank_of_head?_trim {cs : List Char} {c : Char} (h : (trim cs).head? = some c) :
    isBlank c = false := by
  obtain ⟨blanks, htrim, -⟩ := exists_trimEnd_append (trimStart cs)
  have hhead : (trimStart cs).head? = some c := by
    rw [htrim, List.head?_append, ← trim, h]
    rfl
  have := List.head?_dropWhile_not isBlank cs
  rw [← trimStart, hhead] at this
  simpa using this

/-- A trimmed text is one character when all others are blanks. -/
theorem trim_eq_singleton_iff {cs : List Char} {c : Char} (hc : isBlank c = false) :
    trim cs = [c] ↔ cs.filter (!isBlank ·) = [c] := by
  rw [← filter_trim]
  constructor
  · intro h
    simp [h, hc]
  · intro h
    have hlast := @isBlank_of_getLast?_trimEnd (trimStart cs)
    have hhead := @isBlank_of_head?_trim cs
    change ∀ {d}, (trim cs).getLast? = some d → isBlank d = false at hlast
    -- a character at each end would be left twice
    match htrim : trim cs with
    | [] => simp [htrim] at h
    | [d] =>
      rw [htrim] at h hhead
      simpa [hhead rfl] using h
    | d :: e :: rest =>
      rw [htrim] at h hhead hlast
      obtain ⟨front, last, hfront⟩ := List.eq_nil_or_concat (e :: rest) |>.resolve_left (by simp)
      rw [hfront, List.concat_eq_append, ← List.cons_append] at h hlast
      have hd := hhead rfl
      have hend := hlast List.getLast?_concat
      simp [hd, hend] at h

/-! ## One semicolon -/

theorem dropSemicolon_append {back : List Char} (h : back ≠ []) (front : List Char) :
    dropSemicolon (front ++ back) = front ++ dropSemicolon back := by
  unfold dropSemicolon
  rw [List.getLast?_append_of_ne_nil front h, List.dropLast_append_of_ne_nil h]
  split <;> rfl

theorem dropSemicolon_sublist (cs : List Char) : (dropSemicolon cs).Sublist cs := by
  unfold dropSemicolon
  split
  · exact List.dropLast_sublist cs
  · exact List.Sublist.refl cs

theorem trimEnd_sublist (cs : List Char) : (trimEnd cs).Sublist cs := by
  rw [trimEnd_eq_rdropWhile]
  exact (List.rdropWhile_prefix isBlank cs).sublist

end RazenLint.Text
