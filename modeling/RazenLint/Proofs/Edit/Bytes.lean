import RazenLint.Proofs.Edit.Replacement
import RazenLint.Proofs.Text.Line
import RazenLint.Text.Offset

/-!
# Edits in byte offsets

An editor that keeps its text in UTF-8 resolves a position to a byte offset and
replaces a range of bytes in place. Such a replacement has no result when the
range leaves the text, ends before it starts, or begins or ends inside a
character (`splitAtByte?`, `Replacement.applyBytes?`). `applyEditsInBytes?` is the
application of edits with byte offsets throughout. It always has a result, which
is that of `applyEdits` (`applyEditsInBytes?_eq`) : every offset it uses is the
length in bytes of some beginning of the text.
-/

namespace RazenLint

open Text

/-! ## Byte lengths -/

theorem Text.byteLength_append : ∀ front back : List Char,
    byteLength (front ++ back) = byteLength front + byteLength back
  | [], back => by simp [byteLength]
  | c :: front, back => by
    rw [List.cons_append, byteLength, byteLength, byteLength_append front back, Nat.add_assoc]

theorem Text.byteLength_pos {cs : List Char} (h : cs ≠ []) : 0 < byteLength cs := by
  cases cs with
  | nil => exact absurd rfl h
  | cons c cs =>
    have := c.utf8Size_pos
    rw [byteLength]
    omega

/-- A longer beginning of a text has more bytes. -/
theorem Text.byteLength_take_lt {text : List Char} {m n : Nat} (hmn : m < n)
    (hn : n ≤ text.length) : byteLength (text.take m) < byteLength (text.take n) := by
  have hsplit : text.take n = text.take m ++ (text.drop m).take (n - m) := by
    rw [← List.take_add, Nat.add_sub_cancel' hmn.le]
  have hne : (text.drop m).take (n - m) ≠ [] := by
    intro h
    have := congrArg List.length h
    simp at this
    omega
  rw [hsplit, byteLength_append]
  exact Nat.lt_add_of_pos_right (byteLength_pos hne)

theorem Text.byteLength_take_le_iff {text : List Char} {m n : Nat} (hm : m ≤ text.length)
    (hn : n ≤ text.length) :
    byteLength (text.take m) ≤ byteLength (text.take n) ↔ m ≤ n := by
  constructor
  · intro h
    by_contra hlt
    have := byteLength_take_lt (Nat.lt_of_not_le hlt) hm
    omega
  · intro h
    rcases Nat.eq_or_lt_of_le h with rfl | hlt
    · exact le_rfl
    · exact (byteLength_take_lt hlt hn).le

/-- The byte offset of a column is the length in bytes of what stands before it. -/
theorem Text.byteOffset?_eq : ∀ (line : List Char) (column : Nat), byteOffset? line column =
    if column ≤ line.length then some (byteLength (line.take column)) else none
  | _, 0 => by simp [byteOffset?, byteLength]
  | [], column + 1 => by simp [byteOffset?]
  | c :: cs, column + 1 => by
    rw [byteOffset?, byteOffset?_eq cs column]
    by_cases h : column ≤ cs.length
    · simp [h, byteLength, Nat.add_comm]
    · simp [h]

/-! ## Positions -/

/-- Byte offset of a position in a text that is given by its segments. -/
def byteOffsetInSegments? : List (List Char) → Nat → Nat → Option Nat
  | [], _, _ => none
  | piece :: _, 0, character => byteOffset? (dropReturn piece) character
  | piece :: rest, line + 1, character =>
    (byteOffsetInSegments? rest line character).map (· + (byteLength piece + 1))

theorem dropReturn_eq_take (line : List Char) :
    dropReturn line = line.take (dropReturn line).length := by
  unfold dropReturn
  split
  · rw [List.length_dropLast, List.dropLast_eq_take]
  · rw [List.take_length]

theorem offsetInSegments?_le : ∀ {pieces : List (List Char)} {line character offset : Nat},
    offsetInSegments? pieces line character = some offset → offset ≤ (joinSegments pieces).length
  | [], line, character, offset, h => by simp [offsetInSegments?] at h
  | piece :: rest, 0, character, offset, h => by
    rw [offsetInSegments?] at h
    split at h
    · rename_i hle
      have hlen := length_dropReturn_le piece
      cases rest with
      | nil =>
        rw [joinSegments]
        simp only [Option.some.injEq] at h
        omega
      | cons next rest =>
        rw [joinSegments_cons _ (by simp), List.length_append]
        simp only [Option.some.injEq] at h
        omega
    · simp at h
  | piece :: rest, line + 1, character, offset, h => by
    rw [offsetInSegments?] at h
    obtain ⟨n, hn, rfl⟩ := Option.map_eq_some_iff.1 h
    have hle := offsetInSegments?_le hn
    have hrest : rest ≠ [] := by
      rintro rfl
      simp [offsetInSegments?] at hn
    rw [joinSegments_cons _ hrest, List.length_append, List.length_cons]
    omega

/-- The offset of a position on the line of a piece. -/
theorem offsetInSegments?_append {piece : List Char} {more : List (List Char)} {character : Nat}
    (h : character ≤ (dropReturn piece).length) : ∀ before : List (List Char),
      offsetInSegments? (before ++ piece :: more) before.length character =
        some ((before.flatMap (· ++ ['\n'])).length + character)
  | [] => by
    rw [List.nil_append, List.length_nil, offsetInSegments?, if_pos h]
    simp
  | first :: before => by
    rw [List.cons_append, List.length_cons, offsetInSegments?, offsetInSegments?_append h before,
      Option.map_some, List.flatMap_cons, List.length_append, List.length_append,
      List.length_singleton]
    congr 1
    omega

theorem take_joinSegments_of_le {piece : List Char} {n : Nat} (h : n ≤ piece.length)
    (rest : List (List Char)) : (joinSegments (piece :: rest)).take n = piece.take n := by
  cases rest with
  | nil => rfl
  | cons next rest => rw [joinSegments_cons _ (by simp), List.take_append_of_le_length h]

/-- A position has a byte offset when it has an offset in characters, and then it
is the length in bytes of the text before the position. -/
theorem byteOffsetInSegments?_eq : ∀ (pieces : List (List Char)) (line character : Nat),
    byteOffsetInSegments? pieces line character = (offsetInSegments? pieces line character).map
      fun offset => byteLength ((joinSegments pieces).take offset)
  | [], line, character => rfl
  | piece :: rest, 0, character => by
    rw [byteOffsetInSegments?, offsetInSegments?, byteOffset?_eq]
    by_cases h : character ≤ (dropReturn piece).length
    · have hlen := length_dropReturn_le piece
      rw [if_pos h, if_pos h, Option.map_some, take_joinSegments_of_le (h.trans hlen),
        dropReturn_eq_take, List.take_take, Nat.min_eq_left h]
    · rw [if_neg h, if_neg h]
      rfl
  | piece :: rest, line + 1, character => by
    rw [byteOffsetInSegments?, offsetInSegments?, byteOffsetInSegments?_eq rest line character,
      Option.map_map, Option.map_map]
    cases hn : offsetInSegments? rest line character with
    | none => rfl
    | some n =>
      have hrest : rest ≠ [] := by
        rintro rfl
        simp [offsetInSegments?] at hn
      simp only [Option.map_some, Function.comp_apply, Option.some.injEq]
      rw [joinSegments_cons _ hrest, show n + (piece.length + 1) = piece.length + (n + 1) by omega,
        List.take_length_add_append, List.take_succ_cons, byteLength_append, byteLength]
      have hsize : '\n'.utf8Size = 1 := by decide
      omega

/-- The same replacement in byte offsets. -/
def Replacement.toBytes (text : List Char) (r : Replacement) : Replacement :=
  ⟨byteLength (text.take r.start), byteLength (text.take r.stop), r.newText⟩

/-- The replacement in bytes that an edit makes in a text. -/
def TextEdit.resolveBytes? (text : List Char) (edit : TextEdit) : Option Replacement := do
  let start ← byteOffsetInSegments? (segments text) edit.range.start.line edit.range.start.character
  let stop ← byteOffsetInSegments? (segments text) edit.range.stop.line edit.range.stop.character
  if start ≤ stop then return ⟨start, stop, edit.newText.toList⟩ else none

/-- A resolved edit has both its ends in the text. -/
theorem TextEdit.of_resolve? {text : List Char} {edit : TextEdit} {r : Replacement}
    (h : edit.resolve? text = some r) :
    offset? text edit.range.start = some r.start ∧ offset? text edit.range.stop = some r.stop ∧
      r.start ≤ r.stop ∧ r.stop ≤ text.length ∧ r.newText = edit.newText.toList := by
  unfold TextEdit.resolve? at h
  obtain ⟨start, hstart, h⟩ := Option.bind_eq_some_iff.1 h
  obtain ⟨stop, hstop, h⟩ := Option.bind_eq_some_iff.1 h
  split at h
  · rename_i hle
    have hlen := offsetInSegments?_le hstop
    rw [joinSegments_segments] at hlen
    cases h
    exact ⟨hstart, hstop, hle, hlen, rfl⟩
  · simp at h

/-- An edit resolves to bytes when it resolves to characters, and to the same place. -/
theorem TextEdit.resolveBytes?_eq (text : List Char) (edit : TextEdit) :
    edit.resolveBytes? text = (edit.resolve? text).map (Replacement.toBytes text) := by
  unfold TextEdit.resolveBytes? TextEdit.resolve? offset?
  simp only [byteOffsetInSegments?_eq, joinSegments_segments]
  cases hstart : offsetInSegments? (segments text) edit.range.start.line
      edit.range.start.character with
  | none => rfl
  | some start =>
    cases hstop : offsetInSegments? (segments text) edit.range.stop.line
        edit.range.stop.character with
    | none => rfl
    | some stop =>
      have hs := offsetInSegments?_le hstart
      have ht := offsetInSegments?_le hstop
      rw [joinSegments_segments] at hs ht
      have hiff := byteLength_take_le_iff hs ht
      by_cases hle : start ≤ stop
      · simp [hle, hiff.2 hle, Replacement.toBytes]
      · simp [hle, hiff]

/-! ## Replacing bytes -/

/-- A text cut in two at a byte offset. There is no result past the end of the text
and none inside a character. -/
def splitAtByte? : List Char → Nat → Option (List Char × List Char)
  | cs, 0 => some ([], cs)
  | [], _ + 1 => none
  | c :: cs, offset + 1 =>
    if offset + 1 < c.utf8Size then none
    else (splitAtByte? cs (offset + 1 - c.utf8Size)).map fun (front, back) => (c :: front, back)

theorem splitAtByte?_byteLength : ∀ front back : List Char,
    splitAtByte? (front ++ back) (byteLength front) = some (front, back)
  | [], back => by rw [byteLength, List.nil_append, splitAtByte?]
  | c :: front, back => by
    have hpos := c.utf8Size_pos
    obtain ⟨n, hn⟩ : ∃ n, c.utf8Size + byteLength front = n + 1 :=
      ⟨_, (Nat.succ_pred (by omega)).symm⟩
    rw [byteLength, hn, List.cons_append, splitAtByte?, if_neg (by omega), ← hn,
      Nat.add_sub_cancel_left, splitAtByte?_byteLength front back]
    rfl

/-- A text can be cut in front of each of its characters. -/
theorem splitAtByte?_take (text : List Char) (n : Nat) :
    splitAtByte? text (byteLength (text.take n)) = some (text.take n, text.drop n) := by
  have hsplit := splitAtByte?_byteLength (text.take n) (text.drop n)
  rwa [List.take_append_drop] at hsplit

namespace Replacement

/-- A text with one range of bytes replaced. There is no result when the range is
not in the text, is upside down, or cuts a character. -/
def applyBytes? (text : List Char) (r : Replacement) : Option (List Char) := do
  if r.stop < r.start then none
  else
    let (front, _) ← splitAtByte? text r.start
    let (_, back) ← splitAtByte? text r.stop
    return front ++ r.newText ++ back

theorem applyBytes?_toBytes {text : List Char} {r : Replacement} (hle : r.start ≤ r.stop)
    (hlen : r.stop ≤ text.length) : (r.toBytes text).applyBytes? text = some (r.apply text) := by
  have hbytes := (byteLength_take_le_iff (hle.trans hlen) hlen).2 hle
  unfold applyBytes? toBytes
  simp [splitAtByte?_take, apply, Nat.not_lt.2 hbytes]

/-- A replacement in bytes does not see what comes after it. -/
theorem toBytes_congr {text other : List Char} {r : Replacement} {limit : Nat}
    (h : other.take limit = text.take limit) (hstart : r.start ≤ limit) (hstop : r.stop ≤ limit) :
    r.toBytes other = r.toBytes text := by
  have htake : ∀ n, n ≤ limit → other.take n = text.take n := by
    intro n hn
    rw [← Nat.min_eq_left hn, ← List.take_take, h, List.take_take]
  rw [toBytes, toBytes, htake _ hstart, htake _ hstop]

theorem comesFirst_toBytes {text : List Char} {a b : Replacement}
    (ha : a.start ≤ a.stop ∧ a.stop ≤ text.length) (hb : b.start ≤ b.stop ∧ b.stop ≤ text.length) :
    (a.toBytes text).comesFirst (b.toBytes text) = a.comesFirst b := by
  have hstarts := byteLength_take_le_iff (ha.1.trans ha.2) (hb.1.trans hb.2)
  have hstarts' := byteLength_take_le_iff (hb.1.trans hb.2) (ha.1.trans ha.2)
  have hstops := byteLength_take_le_iff hb.2 ha.2
  rw [Bool.eq_iff_iff, comesFirst_iff, comesFirst_iff]
  simp only [toBytes]
  omega

/-- Applies replacements in bytes one after the other and counts them. One that ends
past the start of the last one applied is passed over. -/
def applyBytesFrom? (floor : Option Nat) : List Char × Nat → List Replacement →
    Option (List Char × Nat)
  | done, [] => some done
  | (out, applied), r :: rest =>
    if floor.any (· < r.stop) then applyBytesFrom? floor (out, applied) rest
    else do
      let out ← r.applyBytes? out
      applyBytesFrom? (some r.start) (out, applied + 1) rest

/-- Every replacement that the loop makes has a result, because the text is unchanged
up to the start of the last one made. -/
theorem applyBytesFrom?_eq {text : List Char} : ∀ {rs : List Replacement} {limit : Nat}
    {out : List Char} (applied : Nat), (∀ r ∈ rs, r.start ≤ r.stop ∧ r.stop ≤ text.length) →
      limit ≤ text.length → limit ≤ out.length → out.take limit = text.take limit →
      applyBytesFrom? (some (byteLength (text.take limit))) (out, applied) (rs.map (toBytes text)) =
        some ((choose limit rs).foldl apply out, applied + (choose limit rs).length)
  | [], _, _, _, _, _, _, _ => rfl
  | r :: rest, limit, out, applied, hle, hlimit, hout, hsame => by
    have hr := hle r List.mem_cons_self
    have hrest : ∀ q ∈ rest, q.start ≤ q.stop ∧ q.stop ≤ text.length :=
      fun q hq => hle q (List.mem_cons_of_mem _ hq)
    have hiff := byteLength_take_le_iff hr.2 hlimit
    have hany : (some (byteLength (text.take limit))).any (· < (r.toBytes text).stop) =
        !decide (r.stop ≤ limit) := by
      have hlt : byteLength (text.take limit) < byteLength (text.take r.stop) ↔
          ¬r.stop ≤ limit := by
        rw [← hiff, Nat.not_le]
      rw [Option.any_some, toBytes, decide_eq_decide.2 hlt, decide_not]
    rw [List.map_cons, applyBytesFrom?, hany, choose]
    by_cases hstop : r.stop ≤ limit
    · have hstart : r.start ≤ limit := hr.1.trans hstop
      have happly : (r.toBytes text).applyBytes? out = some (r.apply out) := by
        rw [← toBytes_congr hsame hstart hstop]
        exact applyBytes?_toBytes hr.1 (hstop.trans hout)
      have hsame' : (r.apply out).take r.start = text.take r.start := by
        rw [apply, List.append_assoc, List.take_append_of_le_length (by simp; omega),
          List.take_take, Nat.min_self, ← Nat.min_eq_left hstart, ← List.take_take, hsame,
          List.take_take]
      have ih := applyBytesFrom?_eq (applied + 1) hrest (hr.1.trans hr.2)
        (by simp [apply]; omega) hsame'
      simp only [hstop, decide_true, Bool.not_true, Bool.false_eq_true, if_false, if_true, happly,
        List.foldl_cons, List.length_cons]
      exact ih.trans (by rw [Nat.add_right_comm, Nat.add_assoc])
    · have ih := applyBytesFrom?_eq applied hrest hlimit hout hsame
      simpa [hstop] using ih

end Replacement

/-- The edited text and the number of edits applied, with byte offsets throughout. -/
def applyEditsInBytes? (text : List Char) (edits : List TextEdit) : Option (List Char × Nat) :=
  Replacement.applyBytesFrom? none (text, 0)
    ((edits.filterMap (·.resolveBytes? text)).mergeSort Replacement.comesFirst)

/-- Applying edits in bytes never cuts a character and never leaves the text, and it
gives what `applyEdits` gives. -/
theorem applyEditsInBytes?_eq (text : List Char) (edits : List TextEdit) :
    applyEditsInBytes? text edits = some (applyEdits text edits) := by
  have hle : ∀ r ∈ edits.filterMap (·.resolve? text), r.start ≤ r.stop ∧ r.stop ≤ text.length := by
    intro r hr
    obtain ⟨e, -, he⟩ := List.mem_filterMap.1 hr
    exact ⟨(TextEdit.of_resolve? he).2.2.1, (TextEdit.of_resolve? he).2.2.2.1⟩
  have hbytes : edits.filterMap (·.resolveBytes? text) =
      (edits.filterMap (·.resolve? text)).map (Replacement.toBytes text) := by
    rw [List.map_filterMap]
    exact congrArg (edits.filterMap ·) (funext fun e => e.resolveBytes?_eq text)
  have hsorted : (edits.filterMap (·.resolveBytes? text)).mergeSort Replacement.comesFirst =
      ((edits.filterMap (·.resolve? text)).mergeSort Replacement.comesFirst).map
        (Replacement.toBytes text) := by
    rw [hbytes]
    exact (List.map_mergeSort fun a ha b hb =>
      (Replacement.comesFirst_toBytes (hle a ha) (hle b hb)).symm).symm
  have hle' : ∀ r ∈ (edits.filterMap (·.resolve? text)).mergeSort Replacement.comesFirst,
      r.start ≤ r.stop ∧ r.stop ≤ text.length :=
    fun r hr => hle r (List.mem_mergeSort.1 hr)
  have hloop := Replacement.applyBytesFrom?_eq 0 hle' le_rfl le_rfl
    (show text.take text.length = text.take text.length from rfl)
  rw [Nat.zero_add] at hloop
  rw [applyEditsInBytes?, hsorted]
  refine Eq.trans ?_ hloop
  -- the first replacement is made whatever the floor, since it lies in the text
  cases hrs : (edits.filterMap (·.resolve? text)).mergeSort Replacement.comesFirst with
  | nil => rfl
  | cons r rest =>
    have hr := hle' r (hrs ▸ List.mem_cons_self)
    have hfloor : ¬byteLength text < byteLength (text.take r.stop) := by
      have := (byteLength_take_le_iff hr.2 le_rfl).2 hr.2
      rw [List.take_length] at this
      omega
    rw [List.map_cons, Replacement.applyBytesFrom?, Replacement.applyBytesFrom?]
    simp [Replacement.toBytes, hfloor]

end RazenLint
