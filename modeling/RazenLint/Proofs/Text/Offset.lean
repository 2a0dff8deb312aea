import Mathlib.Order.Monotone.Defs
import RazenLint.Proofs.Text.MaskBytes
import RazenLint.Proofs.Text.Utf8

/-!
# Columns and byte offsets

The byte offsets of the columns of a line are the places where its bytes can be cut into text
(`isBoundary_iff`). Between these places and the columns the two ways of counting are inverse
to each other (`byteOffset?_columnAt`, `columnAt_of_byteOffset?`), and both grow strictly.

In the masked copy of a line every byte has the offset that it has in the line. A byte of a
character inside a literal is a blank there, and any other byte is the same
(`getElem?_encodeUtf8_maskBytes`).
-/

namespace RazenLint.Text

open String (utf8EncodeChar)

variable {line : List Char} {offset : Nat}

/-! ## Bytes of texts -/

theorem length_encodeUtf8 : ∀ cs : List Char, (encodeUtf8 cs).length = byteLength cs
  | [] => rfl
  | c :: cs => by
    rw [encodeUtf8, List.flatMap_cons, List.length_append, String.length_utf8EncodeChar, byteLength]
    exact congrArg _ (length_encodeUtf8 cs)

theorem utf8ByteSize_ofList : ∀ cs : List Char, (String.ofList cs).utf8ByteSize = byteLength cs
  | [] => rfl
  | c :: cs => by
    have hsplit : String.ofList (c :: cs) = String.singleton c ++ String.ofList cs := by
      rw [String.singleton_eq_ofList, ← String.ofList_append]
      rfl
    rw [hsplit, String.utf8ByteSize_append, String.utf8ByteSize_singleton, utf8ByteSize_ofList,
      byteLength]

/-! ## Boundaries -/

/-- An offset that is inside no character and not behind the line : the bytes in front of it are
the bytes of a text. -/
def IsBoundary (line : List Char) (offset : Nat) : Prop :=
  String.Pos.Raw.IsValid (String.ofList line) ⟨offset⟩

theorem isBoundary_iff :
    IsBoundary line offset ↔ ∃ n ≤ line.length, byteLength (line.take n) = offset := by
  rw [IsBoundary, String.Pos.Raw.isValid_ofList]
  simp only [utf8ByteSize_ofList]
  constructor
  · rintro ⟨n, rfl⟩
    refine ⟨min n line.length, Nat.min_le_right n _, ?_⟩
    rw [← List.take_eq_take_min]
  · rintro ⟨n, -, rfl⟩
    exact ⟨n, rfl⟩

/-- A line can be cut where a part of it ends. -/
theorem isBoundary_append (front back : List Char) : IsBoundary (front ++ back) (byteLength front) :=
  isBoundary_iff.2 ⟨front.length, by simp, by rw [List.take_left]⟩

/-! ## From columns to offsets and back -/

theorem columnAt_take {n : Nat} (h : n ≤ line.length) :
    columnAt line (byteLength (line.take n)) = n := by
  have hcolumn := columnAt_byteLength (line.take n) (line.drop n)
  rwa [List.take_append_drop, List.length_take_of_le h] at hcolumn

theorem columnAt_of_byteOffset? {column : Nat} (h : byteOffset? line column = some offset) :
    columnAt line offset = column := by
  rw [byteOffset?_eq] at h
  split at h
  · rename_i hcolumn
    rw [← Option.some.inj h, columnAt_take hcolumn]
  · simp at h

theorem byteOffset?_columnAt (h : IsBoundary line offset) :
    byteOffset? line (columnAt line offset) = some offset := by
  obtain ⟨n, hn, rfl⟩ := isBoundary_iff.1 h
  rw [columnAt_take hn, byteOffset?_eq, if_pos hn]

theorem isBoundary_of_byteOffset? {column : Nat} (h : byteOffset? line column = some offset) :
    IsBoundary line offset := by
  rw [byteOffset?_eq] at h
  split at h
  · rename_i hcolumn
    exact isBoundary_iff.2 ⟨column, hcolumn, Option.some.inj h⟩
  · simp at h

theorem byteOffset?_lt {column column' offset' : Nat} (h : byteOffset? line column = some offset)
    (h' : byteOffset? line column' = some offset') (hlt : column < column') : offset < offset' := by
  rw [byteOffset?_eq] at h h'
  split at h'
  · rename_i hcolumn
    rw [if_pos (hlt.le.trans hcolumn)] at h
    rw [← Option.some.inj h, ← Option.some.inj h']
    exact byteLength_take_lt hlt hcolumn
  · simp at h'

theorem strictMonoOn_columnAt (line : List Char) :
    StrictMonoOn (columnAt line) {offset | IsBoundary line offset} := by
  intro offset hoffset offset' hoffset' hlt
  obtain ⟨m, hm, rfl⟩ := isBoundary_iff.1 hoffset
  obtain ⟨n, hn, rfl⟩ := isBoundary_iff.1 hoffset'
  rw [columnAt_take hm, columnAt_take hn]
  by_contra hle
  exact absurd ((byteLength_take_le_iff hn hm).2 (Nat.le_of_not_lt hle)) (Nat.not_le.2 hlt)

theorem columnAt_le_length : ∀ (line : List Char) (offset : Nat), columnAt line offset ≤ line.length
  | [], _ => Nat.le_refl 0
  | c :: cs, offset => by
    rw [columnAt, List.length_cons]
    split
    · exact Nat.zero_le _
    · exact Nat.succ_le_succ (columnAt_le_length cs _)

/-! ## The masked copy -/

theorem encodeUtf8_shownBytes (reading : Reading) (c : Char) : encodeUtf8 (shownBytes reading c) =
    if reading.hides c then List.replicate c.utf8Size 0x20 else utf8EncodeChar c := by
  have hblanks : ∀ n, encodeUtf8 (List.replicate n ' ') = List.replicate n 0x20 := by
    intro n
    rw [encodeUtf8, List.flatMap_replicate, utf8EncodeChar_of_lt (by decide)]
    exact List.flatten_replicate_singleton
  unfold shownBytes
  split
  · exact hblanks _
  · exact List.flatMap_singleton _ _

/-- The bytes of one character between the bytes in front of it and those behind it. -/
theorem getElem?_append_middle {α : Type*} {front middle : List α} {n i : Nat}
    (hfront : front.length = n) (hi : i < middle.length) (back : List α) :
    (front ++ (middle ++ back))[n + i]? = middle[i]? := by
  rw [← hfront, List.getElem?_append_right (Nat.le_add_right _ _), Nat.add_sub_cancel_left,
    List.getElem?_append_left hi]

/-- A byte of a masked line is a blank inside literals and the byte of the line elsewhere. -/
theorem getElem?_encodeUtf8_maskBytes (front : List Char) (c : Char) (back : List Char) {i : Nat}
    (hi : i < c.utf8Size) :
    (encodeUtf8 (maskBytes (front ++ c :: back)))[byteLength front + i]? =
      if (Reading.code.after front).hides c then some 0x20
      else (encodeUtf8 (front ++ c :: back))[byteLength front + i]? := by
  have hline : (encodeUtf8 (front ++ c :: back))[byteLength front + i]? = (utf8EncodeChar c)[i]? := by
    rw [encodeUtf8_append, encodeUtf8, encodeUtf8, List.flatMap_cons]
    exact getElem?_append_middle (length_encodeUtf8 front)
      (by rwa [String.length_utf8EncodeChar]) _
  have hshown : (encodeUtf8 (shownBytes (Reading.code.after front) c)).length = c.utf8Size := by
    rw [encodeUtf8_shownBytes]
    split
    · exact List.length_replicate
    · exact String.length_utf8EncodeChar c
  rw [hline, maskBytes, maskBytesFrom_append, maskBytesFrom_cons, encodeUtf8_append,
    encodeUtf8_append, getElem?_append_middle
      ((length_encodeUtf8 _).trans (byteLength_maskBytesFrom .code front)) (by rwa [hshown]),
    encodeUtf8_shownBytes]
  split
  · exact List.getElem?_replicate_of_lt hi
  · rfl

theorem isBoundary_maskBytes (h : IsBoundary line offset) : IsBoundary (maskBytes line) offset := by
  obtain ⟨n, -, rfl⟩ := isBoundary_iff.1 h
  have hcut := isBoundary_append (maskBytes (line.take n))
    (maskBytesFrom (Reading.code.after (line.take n)) (line.drop n))
  rwa [maskBytes, ← maskBytesFrom_append, List.take_append_drop, byteLength_maskBytesFrom] at hcut

/-! ## Both ways of counting -/

/-- Every column up to the end of a line has an offset that is inside no character and leads back
to the column, and every offset inside no character is that of its column. Both ways keep the
strict order, no larger column has an offset, and in a line of fewer than `UInt32.size` characters
no column is cut off by 32 bits.

The masked copy has as many bytes as the line and can be cut wherever the line can. Its bytes are
blanks for what literals hold, and those of the line elsewhere. -/
theorem byteOffset?_columnAt_inverse_and_maskBytes_aligned (line : List Char) :
    (∀ column ≤ line.length, ∃ offset, byteOffset? line column = some offset ∧
      IsBoundary line offset ∧ columnAt line offset = column) ∧
    (∀ offset, IsBoundary line offset → byteOffset? line (columnAt line offset) = some offset) ∧
    (∀ column column' offset offset', byteOffset? line column = some offset →
      byteOffset? line column' = some offset' → column < column' → offset < offset') ∧
    StrictMonoOn (columnAt line) {offset | IsBoundary line offset} ∧
    (∀ column, line.length < column → byteOffset? line column = none) ∧
    (line.length < UInt32.size →
      ∀ offset, (UInt32.ofNat (columnAt line offset)).toNat = columnAt line offset) ∧
    (encodeUtf8 (maskBytes line)).length = (encodeUtf8 line).length ∧
    (∀ offset, IsBoundary line offset → IsBoundary (maskBytes line) offset) ∧
    ∀ front c back, line = front ++ c :: back → ∀ i < c.utf8Size,
      (encodeUtf8 (maskBytes line))[byteLength front + i]? =
        if (Reading.code.after front).hides c then some 0x20
        else (encodeUtf8 line)[byteLength front + i]? := by
  refine ⟨fun column hcolumn => ?_, fun offset => byteOffset?_columnAt,
    fun column column' offset offset' => byteOffset?_lt, strictMonoOn_columnAt line,
    fun column hcolumn => ?_, fun hlength offset => ?_, ?_, fun offset => isBoundary_maskBytes,
    fun front c back hsplit i hi => ?_⟩
  · have hoffset : byteOffset? line column = some (byteLength (line.take column)) := by
      rw [byteOffset?_eq, if_pos hcolumn]
    exact ⟨_, hoffset, isBoundary_of_byteOffset? hoffset, columnAt_of_byteOffset? hoffset⟩
  · rw [byteOffset?_eq, if_neg (Nat.not_le.2 hcolumn)]
  · exact UInt32.toNat_ofNat_of_lt' ((columnAt_le_length line offset).trans_lt hlength)
  · rw [length_encodeUtf8, length_encodeUtf8]
    exact byteLength_maskBytesFrom .code line
  · rw [hsplit]
    exact getElem?_encodeUtf8_maskBytes front c back hi

/-- A letter of two bytes in front of a literal and in it. The offset of the closing quote is the
same in the copy, and the second letter is two blanks there. -/
theorem byteOffset?_columnAt_inverse_and_maskBytes_aligned_accents :
    (∃ offset, byteOffset? "é = \"é\"".toList 7 = some offset ∧
      IsBoundary "é = \"é\"".toList offset ∧ columnAt "é = \"é\"".toList offset = 7) ∧
    byteOffset? "é = \"é\"".toList 8 = none ∧
    byteOffset? "é = \"é\"".toList (columnAt "é = \"é\"".toList 8) = some 8 ∧
    columnAt "é = \"é\"".toList 2 < columnAt "é = \"é\"".toList 8 ∧
    IsBoundary (maskBytes "é = \"é\"".toList) 8 ∧
    (encodeUtf8 (maskBytes "é = \"é\"".toList))[7]? = some 0x20 := by
  have hfirst : IsBoundary "é = \"é\"".toList 2 :=
    isBoundary_iff.2 ⟨1, by decide +kernel, by decide +kernel⟩
  have hclosing : IsBoundary "é = \"é\"".toList 8 :=
    isBoundary_iff.2 ⟨6, by decide +kernel, by decide +kernel⟩
  obtain ⟨hcolumns, hoffsets, -, hmono, hlarger, -, -, hcopy, hbytes⟩ :=
    byteOffset?_columnAt_inverse_and_maskBytes_aligned "é = \"é\"".toList
  refine ⟨hcolumns 7 (by decide +kernel), hlarger 8 (by decide +kernel), hoffsets 8 hclosing,
    hmono hfirst hclosing (by decide), hcopy 8 hclosing, ?_⟩
  have hletter := hbytes "é = \"".toList 'é' ['"'] (by decide +kernel) 1 (by decide)
  rw [if_pos (by decide +kernel)] at hletter
  have hoffset : byteLength "é = \"".toList + 1 = 7 := by decide +kernel
  rwa [hoffset] at hletter

end RazenLint.Text
