import RazenLint.Proofs.Text.Depth
import RazenLint.Proofs.Text.MaskBytes
import RazenLint.Proofs.Text.Utf8

/-!
# One bracketed group

A text is one bracketed group when the bracket that it begins with is closed by its last character
(`encloses_iff_exists_closesLast`). The depth that `encloses` counts stops at zero and its reading
stops early, but up to the end of a group neither can happen, so counts say the same
(`closesAtEnd_iff_closesLast`).

Whether the text is read as characters or as bytes makes no difference
(`closesLast_encodeUtf8_iff`), nor does it matter how many blanks stand for what literals hold
(`closesLast_maskBytesFrom_iff`). A pair of brackets inside a group, with no bracket between its
two, can be left out (`encloses_without_pair`).
-/

namespace RazenLint.Text

open String (utf8EncodeChar)

variable {opening closing : Char}

/-! ## Groups and depths -/

theorem closesAtEnd_cons_iff {depth : Nat} (h : 1 ≤ depth) (c : Char) (cs : List Char) :
    closesAtEnd opening closing depth (c :: cs) = true ↔
      if depthBehind opening closing depth c = 0 then cs = []
      else closesAtEnd opening closing (depthBehind opening closing depth c) cs = true := by
  unfold depthBehind
  rw [closesAtEnd]
  by_cases hopen : c = opening
  · rw [if_pos hopen, if_pos hopen, if_neg (Nat.succ_ne_zero depth)]
  · rw [if_neg hopen, if_neg hopen]
    by_cases hclose : c = closing
    · rw [if_pos hclose, if_pos hclose]
      by_cases hone : depth ≤ 1
      · obtain rfl : depth = 1 := Nat.le_antisymm hone h
        cases cs <;> simp [closesAtEnd]
      · rw [if_neg fun hand => hone hand.1, if_neg (by omega)]
    · rw [if_neg hclose, if_neg hclose, if_neg (Nat.ne_of_gt h)]

/-- Reading on to the end finds what counting finds. -/
theorem closesAtEnd_iff_closesLast (hne : opening ≠ closing) : ∀ {cs : List Char} {depth : Nat},
    1 ≤ depth → (closesAtEnd opening closing depth cs = true ↔ ClosesLast opening closing depth cs)
  | [], depth, hdepth => by
    rw [closesAtEnd, decide_eq_true_iff]
    exact iff_of_false (Nat.ne_of_gt hdepth) (not_closesLast_nil depth)
  | c :: cs, depth, hdepth => by
    rw [closesAtEnd_cons_iff hdepth, closesLast_cons_iff hne fun _ => hdepth]
    split
    · rfl
    · rename_i hdeep
      exact closesAtEnd_iff_closesLast hne (Nat.one_le_iff_ne_zero.2 hdeep)

/-- What closes at the end closes with a closing bracket. -/
theorem getLast?_of_closesAtEnd : ∀ {cs : List Char} {depth : Nat}, 1 ≤ depth →
    closesAtEnd opening closing depth cs = true → cs.getLast? = some closing
  | [], depth, hdepth, h => by
    rw [closesAtEnd, decide_eq_true_iff] at h
    omega
  | c :: cs, depth, hdepth, h => by
    rw [closesAtEnd_cons_iff hdepth] at h
    split at h
    · rename_i hzero
      have hclose : c = closing := by
        by_contra hclose
        unfold depthBehind at hzero
        split at hzero <;> simp_all
      rw [h, hclose]
      rfl
    · rename_i hdeep
      have hlast := getLast?_of_closesAtEnd (Nat.one_le_iff_ne_zero.2 hdeep) h
      rw [List.getLast?_cons, hlast]
      rfl

/-- A group is an opening bracket and a text that closes it with its last character. -/
theorem encloses_iff_exists_closesLast (hne : opening ≠ closing) {masked : List Char} :
    encloses opening closing masked = true ↔
      ∃ rest, masked = opening :: rest ∧ ClosesLast opening closing 1 rest := by
  simp only [encloses, Bool.and_eq_true, decide_eq_true_iff]
  constructor
  · rintro ⟨⟨⟨-, hhead⟩, -⟩, hends⟩
    obtain ⟨rest, rfl⟩ := List.head?_eq_some_iff.1 hhead
    rw [closesAtEnd, if_pos rfl] at hends
    exact ⟨rest, rfl, (closesAtEnd_iff_closesLast hne le_rfl).1 hends⟩
  · rintro ⟨rest, rfl, hcloses⟩
    have hends := (closesAtEnd_iff_closesLast hne le_rfl).2 hcloses
    have hlast := getLast?_of_closesAtEnd le_rfl hends
    have hpos : 0 < rest.length := List.length_pos_of_mem (List.mem_of_getLast? hlast)
    refine ⟨⟨⟨by rw [List.length_cons]; omega, rfl⟩, ?_⟩, ?_⟩
    · rw [List.getLast?_cons, hlast]
      rfl
    · rwa [closesAtEnd, if_pos rfl]

/-! ## Bytes and blanks -/

/-- The bytes of a character stand for it. -/
theorem standsFor_utf8EncodeChar (hopening : opening.toNat < 0x80)
    (hclosing : closing.toNat < 0x80) (c : Char) :
    StandsFor opening closing opening.toUInt8 closing.toUInt8 c (utf8EncodeChar c) where
  opens := fun h => by rw [h, utf8EncodeChar_of_lt hopening]
  closes := fun h => by rw [h, utf8EncodeChar_of_lt hclosing]
  plain := fun hopen hclose d hd =>
    ⟨fun h => hopen ((toUInt8_mem_utf8EncodeChar hopening).1 (h ▸ hd)),
      fun h => hclose ((toUInt8_mem_utf8EncodeChar hclosing).1 (h ▸ hd))⟩

theorem toUInt8_ne (hopening : opening.toNat < 0x80) (hne : opening ≠ closing)
    (hclosing : closing.toNat < 0x80) : opening.toUInt8 ≠ closing.toUInt8 := by
  intro h
  have hmem : opening.toUInt8 ∈ utf8EncodeChar closing := by
    rw [utf8EncodeChar_of_lt hclosing, h]
    exact List.mem_singleton_self _
  exact hne ((toUInt8_mem_utf8EncodeChar hopening).1 hmem).symm

/-- The bytes of a text close their brackets where the text does. -/
theorem closesLast_encodeUtf8_iff (hne : opening ≠ closing) (hopening : opening.toNat < 0x80)
    (hclosing : closing.toNat < 0x80) : ∀ {cs : List Char} {depth : Nat}, 1 ≤ depth →
      (ClosesLast opening.toUInt8 closing.toUInt8 depth (encodeUtf8 cs) ↔
        ClosesLast opening closing depth cs)
  | [], depth, _ => iff_of_false (not_closesLast_nil depth) (not_closesLast_nil depth)
  | c :: cs, depth, hdepth => by
    rw [encodeUtf8, List.flatMap_cons]
    exact (standsFor_utf8EncodeChar hopening hclosing c).closesLast_append_iff hne
      (toUInt8_ne hopening hne hclosing) hdepth encodeUtf8_eq_nil_iff
        fun deep hdeep => closesLast_encodeUtf8_iff hne hopening hclosing hdeep

/-- The bytes of a text begin with a bracket that they close at their end when the text does. -/
theorem exists_cons_encodeUtf8_iff (hne : opening ≠ closing) (hopening : opening.toNat < 0x80)
    (hclosing : closing.toNat < 0x80) {cs : List Char} :
    (∃ rest, cs = opening :: rest ∧ ClosesLast opening closing 1 rest) ↔
      ∃ rest, encodeUtf8 cs = opening.toUInt8 :: rest ∧
        ClosesLast opening.toUInt8 closing.toUInt8 1 rest := by
  have hcons : ∀ rest, encodeUtf8 (opening :: rest) = opening.toUInt8 :: encodeUtf8 rest := by
    intro rest
    rw [encodeUtf8, List.flatMap_cons, utf8EncodeChar_of_lt hopening]
    rfl
  constructor
  · rintro ⟨rest, rfl, hcloses⟩
    exact ⟨encodeUtf8 rest, hcons rest,
      (closesLast_encodeUtf8_iff hne hopening hclosing le_rfl).2 hcloses⟩
  · rintro ⟨bytes, hbytes, hcloses⟩
    cases cs with
    | nil => exact absurd hbytes (by simp [encodeUtf8])
    | cons c rest =>
      -- the first byte is part of the first character
      obtain ⟨first, tail, hfirst⟩ := List.exists_cons_of_ne_nil (utf8EncodeChar_ne_nil c)
      have hc : c = opening := by
        rw [encodeUtf8, List.flatMap_cons, hfirst, List.cons_append, List.cons.injEq] at hbytes
        rw [← toUInt8_mem_utf8EncodeChar hopening, hfirst, hbytes.1]
        exact List.mem_cons_self
      rw [hc, hcons, List.cons.injEq] at hbytes
      rw [← hbytes.2] at hcloses
      exact ⟨rest, by rw [hc], (closesLast_encodeUtf8_iff hne hopening hclosing le_rfl).1 hcloses⟩

/-- What stands for a character in the copy of a line stands for what the masked line shows. -/
theorem standsFor_shownBytes (hopening : opening ≠ ' ') (hclosing : closing ≠ ' ')
    (reading : Reading) (c : Char) :
    StandsFor opening closing opening closing (shown reading c) (shownBytes reading c) where
  opens := fun h => by rw [shownBytes_of_ne_blank (by rwa [h]), h]
  closes := fun h => by rw [shownBytes_of_ne_blank (by rwa [h]), h]
  plain := fun hopen hclose d hd => by
    rw [mem_shownBytes_iff.1 hd]
    exact ⟨hopen, hclose⟩

theorem maskBytesFrom_eq_nil_iff {reading : Reading} {cs : List Char} :
    maskBytesFrom reading cs = [] ↔ maskFrom reading cs = [] := by
  cases cs with
  | nil => exact Iff.rfl
  | cons c cs =>
    rw [maskBytesFrom_cons, maskFrom_cons]
    exact iff_of_false (List.append_ne_nil_of_left_ne_nil (shownBytes_ne_nil reading c) _)
      (List.cons_ne_nil _ _)

/-- The copy of a line closes its brackets where the masked line does. -/
theorem closesLast_maskBytesFrom_iff (hne : opening ≠ closing) (hopening : opening ≠ ' ')
    (hclosing : closing ≠ ' ') : ∀ {reading : Reading} {cs : List Char} {depth : Nat}, 1 ≤ depth →
      (ClosesLast opening closing depth (maskBytesFrom reading cs) ↔
        ClosesLast opening closing depth (maskFrom reading cs))
  | _, [], _, _ => Iff.rfl
  | reading, c :: cs, depth, hdepth => by
    rw [maskBytesFrom_cons, maskFrom_cons]
    exact (standsFor_shownBytes hopening hclosing reading c).closesLast_append_iff hne hne hdepth
      maskBytesFrom_eq_nil_iff fun deep hdeep =>
        closesLast_maskBytesFrom_iff hne hopening hclosing hdeep

theorem encloses_maskBytes (hne : opening ≠ closing) (hopening : opening ≠ ' ')
    (hclosing : closing ≠ ' ') (line : List Char) :
    encloses opening closing (maskBytes line) = encloses opening closing (mask line) := by
  rw [Bool.eq_iff_iff, encloses_iff_exists_closesLast hne, encloses_iff_exists_closesLast hne,
    maskBytes, mask]
  cases line with
  | nil => exact Iff.rfl
  | cons c cs =>
    -- outside literals the first character is shown as it is
    change (∃ rest, c :: maskBytesFrom _ cs = _ ∧ _) ↔ ∃ rest, c :: maskFrom _ cs = _ ∧ _
    simp only [List.cons.injEq, and_assoc, exists_and_left, exists_eq_left',
      closesLast_maskBytesFrom_iff hne hopening hclosing le_rfl]

/-! ## A pair inside a group -/

/-- A pair of brackets that is neither in front nor at the end makes no difference, and nor does
what stands between its brackets, as long as this holds none. -/
theorem encloses_without_pair (hne : opening ≠ closing) {front inner other back : List Char}
    (hfront : front ≠ []) (hback : back ≠ []) (hinner : ∀ c ∈ inner, c ≠ opening ∧ c ≠ closing)
    (hother : ∀ c ∈ other, c ≠ opening ∧ c ≠ closing) :
    encloses opening closing (front ++ opening :: (inner ++ closing :: back)) =
      encloses opening closing (front ++ (other ++ back)) := by
  refine encloses_append_congr hfront (by simp) (by simp [hback]) ?_ fun depth hdepth => ?_
  · have hsplit : opening :: (inner ++ closing :: back) = opening :: (inner ++ [closing]) ++ back :=
      by simp
    rw [hsplit, List.getLast?_append_of_ne_nil _ hback, List.getLast?_append_of_ne_nil _ hback]
  · rw [closesAtEnd_group hne hinner hdepth, closesAtEnd_append_of_plain hother]

/-- A text is one bracketed group when it has at least two bytes, begins with an opening bracket,
and the first place in its bytes up to which it closes what it opens is the last one. A pair of
brackets with no bracket between them that is neither in front nor at the end can be left out, and
the copy of a line that keeps byte offsets is a group when the masked line is one. -/
theorem encloses_iff_isLeast_and_withoutPair (masked : List Char) :
    (encloses '[' ']' masked = true ↔
      2 ≤ (encodeUtf8 masked).length ∧ (encodeUtf8 masked).head? = some '['.toUInt8 ∧
        IsLeast {place | BalancedBy '['.toUInt8 ']'.toUInt8 0 (encodeUtf8 masked) place}
          ((encodeUtf8 masked).length - 1)) ∧
    (∀ front inner back, masked = front ++ '[' :: (inner ++ ']' :: back) → front ≠ [] → back ≠ [] →
      (∀ c ∈ inner, c ≠ '[' ∧ c ≠ ']') →
        encloses '[' ']' (front ++ (inner ++ back)) = encloses '[' ']' masked) ∧
    ∀ line, masked = maskBytes line → encloses '[' ']' masked = encloses '[' ']' (mask line) := by
  refine ⟨?_, fun front inner back hsplit hfront hback hinner => ?_, fun line hmasked => ?_⟩
  · rw [encloses_iff_exists_closesLast (by decide)]
    exact Iff.trans (exists_cons_encodeUtf8_iff (by decide) (by decide) (by decide))
      (closesLast_zero_iff (by decide)).symm
  · rw [hsplit]
    exact (encloses_without_pair (by decide) hfront hback hinner hinner).symm
  · rw [hmasked]
    exact encloses_maskBytes (by decide) (by decide) (by decide) line

/-- An array in whose copy a character has two bytes, with a pair of brackets and a literal that
holds a bracket. -/
theorem encloses_iff_isLeast_and_withoutPair_indexed :
    IsLeast {place | BalancedBy '['.toUInt8 ']'.toUInt8 0 (encodeUtf8 "[x[1], é]".toList) place} 9 ∧
      encloses '[' ']' ("[x".toList ++ (['1'] ++ ", é]".toList)) =
        encloses '[' ']' "[x[1], é]".toList ∧
      encloses '[' ']' (maskBytes "[\"é]\"]".toList) = encloses '[' ']' (mask "[\"é]\"]".toList) := by
  have hlast := ((encloses_iff_isLeast_and_withoutPair "[x[1], é]".toList).1.1
    (by decide +kernel)).2.2
  have hlength : (encodeUtf8 "[x[1], é]".toList).length - 1 = 9 := by decide +kernel
  rw [hlength] at hlast
  have hplain : ∀ c ∈ ['1'], c ≠ '[' ∧ c ≠ ']' := List.forall_mem_singleton.2 (by decide)
  exact ⟨hlast, (encloses_iff_isLeast_and_withoutPair _).2.1 _ _ _ (by decide +kernel)
    (by decide +kernel) (by decide +kernel) hplain,
    (encloses_iff_isLeast_and_withoutPair _).2.2 _ rfl⟩

end RazenLint.Text
