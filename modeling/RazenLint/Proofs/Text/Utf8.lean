import Mathlib.Data.List.Basic
import RazenLint.Text.Utf8

/-!
# Decoding what was encoded

The bytes that can be decoded are the ones that encode some text, and they are decoded
to this text (`decodeUtf8_eq_ok_iff`). A byte below `0x80` is never a part of a longer
character (`toUInt8_mem_utf8EncodeChar`), so a newline is among the bytes only where it is in
the text (`newline_mem_encodeUtf8`).
-/

namespace RazenLint.Text

open String (utf8EncodeChar)

/-! ## One character -/

theorem takeTail_zero_eq_ok_iff {low high : UInt8} {value result : Nat}
    {bytes rest : List UInt8} :
    takeTail 0 low high value bytes = .ok (result, rest) ↔ value = result ∧ bytes = rest := by
  simp [takeTail]

/-- A tail is taken byte by byte, and only the first byte lies in the given range. -/
theorem takeTail_succ_eq_ok_iff {n : Nat} {low high : UInt8} {value : Nat} {bytes : List UInt8}
    {result : Nat × List UInt8} :
    takeTail (n + 1) low high value bytes = .ok result ↔ ∃ b rest, bytes = b :: rest ∧
      (low.toNat ≤ b.toNat ∧ b.toNat ≤ high.toNat) ∧
        takeTail n 0x80 0xBF (value * 64 + (b.toNat - 0x80)) rest = .ok result := by
  cases bytes with
  | nil => simp [takeTail]
  | cons b rest =>
    simp only [takeTail, List.cons.injEq, UInt8.le_iff_toNat_le]
    constructor
    · intro h
      split at h
      · rename_i hb
        refine ⟨b, rest, ⟨rfl, rfl⟩, hb, ?_⟩
        split at h
        · rename_i htail
          rw [htail, h]
        · simp at h
      · simp at h
    · rintro ⟨b', rest', ⟨rfl, rfl⟩, hb, htail⟩
      rw [if_pos hb, htail]

/-- A byte of a tail gives six bits. -/
theorem takeTail_succ_ofNat {n bits value : Nat} {low high : UInt8} {rest : List UInt8}
    {result : Nat × List UInt8} (hbits : bits < 64)
    (hrange : low.toNat ≤ bits + 0x80 ∧ bits + 0x80 ≤ high.toNat)
    (htail : takeTail n 0x80 0xBF (value * 64 + bits) rest = .ok result) :
    takeTail (n + 1) low high value (UInt8.ofNat (bits + 0x80) :: rest) = .ok result := by
  have hbyte : (UInt8.ofNat (bits + 0x80)).toNat = bits + 0x80 := by
    rw [UInt8.toNat_ofNat', Nat.mod_eq_of_lt (by omega)]
  refine takeTail_succ_eq_ok_iff.2 ⟨_, rest, rfl, by rwa [hbyte], ?_⟩
  rw [hbyte, Nat.add_sub_cancel, htail]

/-- The smallest second byte after a first one. A smaller one would give a character that
takes fewer bytes. -/
def leastSecond (first : UInt8) : UInt8 :=
  if first = 0xE0 then 0xA0 else if first = 0xF0 then 0x90 else 0x80

/-- The largest second byte after a first one. A larger one would give a surrogate, or no
character at all. -/
def largestSecond (first : UInt8) : UInt8 :=
  if first = 0xED then 0x9F else if first = 0xF4 then 0x8F else 0xBF

theorem toNat_eq_iff {b : UInt8} {n : Nat} (hn : n < 256) : b = UInt8.ofNat n ↔ b.toNat = n := by
  rw [← UInt8.toNat_inj, UInt8.toNat_ofNat', Nat.mod_eq_of_lt hn]

theorem leastSecond_le_iff {first : UInt8} {n : Nat} : (leastSecond first).toNat ≤ n ↔
    0x80 ≤ n ∧ (first.toNat = 0xE0 → 0xA0 ≤ n) ∧ (first.toNat = 0xF0 → 0x90 ≤ n) := by
  have hE0 : first = 0xE0 ↔ first.toNat = 0xE0 := toNat_eq_iff (by decide)
  have hF0 : first = 0xF0 ↔ first.toNat = 0xF0 := toNat_eq_iff (by decide)
  simp only [leastSecond, hE0, hF0, apply_ite UInt8.toNat, UInt8.reduceToNat]
  split_ifs <;> omega

theorem le_largestSecond_iff {first : UInt8} {n : Nat} : n ≤ (largestSecond first).toNat ↔
    n ≤ 0xBF ∧ (first.toNat = 0xED → n ≤ 0x9F) ∧ (first.toNat = 0xF4 → n ≤ 0x8F) := by
  have hED : first = 0xED ↔ first.toNat = 0xED := toNat_eq_iff (by decide)
  have hF4 : first = 0xF4 ↔ first.toNat = 0xF4 := toNat_eq_iff (by decide)
  simp only [largestSecond, hED, hF4, apply_ite UInt8.toNat, UInt8.reduceToNat]
  split_ifs <;> omega

/-- What a first byte announces, for all of the bytes that there are. -/
theorem sequenceOf?_eq (first : UInt8) : sequenceOf? first =
    if first.toNat < 0x80 then some (1, 0, 0)
    else if first.toNat < 0xC2 then none
    else if first.toNat < 0xE0 then some (2, leastSecond first, largestSecond first)
    else if first.toNat < 0xF0 then some (3, leastSecond first, largestSecond first)
    else if first.toNat < 0xF5 then some (4, leastSecond first, largestSecond first)
    else none := by
  have hall : ∀ n < 256, sequenceOf? (UInt8.ofNat n) =
      if n < 0x80 then some (1, 0, 0)
      else if n < 0xC2 then none
      else if n < 0xE0 then
        some (2, leastSecond (UInt8.ofNat n), largestSecond (UInt8.ofNat n))
      else if n < 0xF0 then
        some (3, leastSecond (UInt8.ofNat n), largestSecond (UInt8.ofNat n))
      else if n < 0xF5 then
        some (4, leastSecond (UInt8.ofNat n), largestSecond (UInt8.ofNat n))
      else none := by
    decide +kernel
  have hfirst := hall first.toNat first.toNat_lt
  rwa [UInt8.ofNat_toNat] at hfirst

/-- The bytes of a character, with no bits of the first byte cut off. -/
theorem utf8EncodeChar_eq (c : Char) : utf8EncodeChar c =
    if c.toNat ≤ 0x7F then [UInt8.ofNat c.toNat]
    else if c.toNat ≤ 0x7FF then
      [UInt8.ofNat (c.toNat / 64 + 0xC0), UInt8.ofNat (c.toNat % 64 + 0x80)]
    else if c.toNat ≤ 0xFFFF then
      [UInt8.ofNat (c.toNat / 4096 + 0xE0), UInt8.ofNat (c.toNat / 64 % 64 + 0x80),
        UInt8.ofNat (c.toNat % 64 + 0x80)]
    else
      [UInt8.ofNat (c.toNat / 262144 + 0xF0), UInt8.ofNat (c.toNat / 4096 % 64 + 0x80),
        UInt8.ofNat (c.toNat / 64 % 64 + 0x80), UInt8.ofNat (c.toNat % 64 + 0x80)] := by
  have hlt : c.toNat < 0x110000 := by
    have := c.valid
    simp only [UInt32.isValidChar, Nat.isValidChar, Char.toNat] at this ⊢
    omega
  simp only [utf8EncodeChar, Char.toNat] at hlt ⊢
  split_ifs
  · rfl
  · rw [Nat.mod_eq_of_lt (by omega : c.val.toNat / 64 < 32)]
  · rw [Nat.mod_eq_of_lt (by omega : c.val.toNat / 4096 < 16)]
  · rw [Nat.mod_eq_of_lt (by omega : c.val.toNat / 262144 < 8)]

/-- The bytes that are taken for a character are the ones that encode it. -/
theorem utf8EncodeChar_of_takeTail {first low high : UInt8} {length value : Nat}
    {bytes rest : List UInt8} (hsequence : sequenceOf? first = some (length, low, high))
    (htail : takeTail (length - 1) low high (firstBits length first) bytes = .ok (value, rest)) :
    first :: bytes = utf8EncodeChar (Char.ofNat value) ++ rest := by
  have hvalid : ∀ n : Nat, n < 0xD800 ∨ 0xDFFF < n ∧ n < 0x110000 → (Char.ofNat n).toNat = n := by
    intro n hn
    rw [Char.ofNat, dif_pos (show n.isValidChar from hn)]
    rfl
  -- a byte is known by its number
  have hbyte : ∀ (b : UInt8) (n : Nat), b.toNat = n → UInt8.ofNat n = b := by
    rintro b n rfl
    exact UInt8.ofNat_toNat
  rw [sequenceOf?_eq] at hsequence
  split_ifs at hsequence
  all_goals
    obtain ⟨rfl, rfl, rfl⟩ := by simpa only [Option.some.injEq, Prod.mk.injEq] using hsequence
  · obtain ⟨hvalue, rfl⟩ := takeTail_zero_eq_ok_iff.1 htail
    have hbits : firstBits 1 first = first.toNat := rfl
    rw [utf8EncodeChar_eq, hvalid _ (by omega), if_pos (by omega), hbyte first _ (by omega),
      List.singleton_append]
  · obtain ⟨a, rest, rfl, ha, htail⟩ := takeTail_succ_eq_ok_iff.1 htail
    obtain ⟨hvalue, rfl⟩ := takeTail_zero_eq_ok_iff.1 htail
    have hbits : firstBits 2 first = first.toNat - 0xC0 := rfl
    rw [leastSecond_le_iff, le_largestSecond_iff] at ha
    rw [utf8EncodeChar_eq, hvalid _ (by omega), if_neg (by omega), if_pos (by omega),
      hbyte first _ (by omega), hbyte a _ (by omega)]
    simp
  · obtain ⟨a, rest, rfl, ha, htail⟩ := takeTail_succ_eq_ok_iff.1 htail
    obtain ⟨b, rest, rfl, hb, htail⟩ := takeTail_succ_eq_ok_iff.1 htail
    obtain ⟨hvalue, rfl⟩ := takeTail_zero_eq_ok_iff.1 htail
    have hbits : firstBits 3 first = first.toNat - 0xE0 := rfl
    rw [leastSecond_le_iff, le_largestSecond_iff] at ha
    simp only [UInt8.reduceToNat] at hb
    rw [utf8EncodeChar_eq, hvalid _ (by omega), if_neg (by omega), if_neg (by omega),
      if_pos (by omega), hbyte first _ (by omega), hbyte a _ (by omega), hbyte b _ (by omega)]
    simp
  · obtain ⟨a, rest, rfl, ha, htail⟩ := takeTail_succ_eq_ok_iff.1 htail
    obtain ⟨b, rest, rfl, hb, htail⟩ := takeTail_succ_eq_ok_iff.1 htail
    obtain ⟨c, rest, rfl, hc, htail⟩ := takeTail_succ_eq_ok_iff.1 htail
    obtain ⟨hvalue, rfl⟩ := takeTail_zero_eq_ok_iff.1 htail
    have hbits : firstBits 4 first = first.toNat - 0xF0 := rfl
    rw [leastSecond_le_iff, le_largestSecond_iff] at ha
    simp only [UInt8.reduceToNat] at hb hc
    rw [utf8EncodeChar_eq, hvalid _ (by omega), if_neg (by omega), if_neg (by omega),
      if_neg (by omega), hbyte first _ (by omega), hbyte a _ (by omega), hbyte b _ (by omega),
      hbyte c _ (by omega)]
    simp

/-- The bytes that encode a character are taken for it. -/
theorem takeTail_utf8EncodeChar (c : Char) : ∃ first tail length low high,
    utf8EncodeChar c = first :: tail ∧ sequenceOf? first = some (length, low, high) ∧
      ∀ rest, takeTail (length - 1) low high (firstBits length first) (tail ++ rest) =
        .ok (c.toNat, rest) := by
  have hvalid : c.toNat < 0xD800 ∨ 0xDFFF < c.toNat ∧ c.toNat < 0x110000 := c.valid
  have hbyte : ∀ n b, n < 256 → UInt8.ofNat n = b → b.toNat = n :=
    fun n b hn hb => (toNat_eq_iff hn).1 hb.symm
  -- six bits in a byte that is neither the first nor the second
  have hrange : ∀ n,
      (0x80 : UInt8).toNat ≤ n % 64 + 0x80 ∧ n % 64 + 0x80 ≤ (0xBF : UInt8).toNat := by
    simp only [UInt8.reduceToNat]
    omega
  have hbits : ∀ n, n % 64 < 64 := fun n => Nat.mod_lt n (by decide)
  rw [utf8EncodeChar_eq]
  split_ifs with h1 h2 h3
  · have hfirst := hbyte c.toNat _ (by omega) rfl
    exact ⟨_, _, 1, _, _, rfl, (sequenceOf?_eq _).trans (if_pos (by omega)),
      fun rest => takeTail_zero_eq_ok_iff.2 ⟨hfirst, rfl⟩⟩
  · generalize hfirst : UInt8.ofNat (c.toNat / 64 + 0xC0) = first
    replace hfirst := hbyte _ first (by omega) hfirst
    refine ⟨first, _, 2, leastSecond first, largestSecond first, rfl, ?_, fun rest =>
      takeTail_succ_ofNat (hbits _) ?_ (takeTail_zero_eq_ok_iff.2 ⟨?_, rfl⟩)⟩
    · rw [sequenceOf?_eq, if_neg (by omega), if_neg (by omega), if_pos (by omega)]
    · rw [leastSecond_le_iff, le_largestSecond_iff]
      omega
    · show (first.toNat - 0xC0) * 64 + _ = _
      omega
  · generalize hfirst : UInt8.ofNat (c.toNat / 4096 + 0xE0) = first
    replace hfirst := hbyte _ first (by omega) hfirst
    refine ⟨first, _, 3, leastSecond first, largestSecond first, rfl, ?_, fun rest =>
      takeTail_succ_ofNat (hbits _) ?_ (takeTail_succ_ofNat (hbits _) (hrange _)
        (takeTail_zero_eq_ok_iff.2 ⟨?_, rfl⟩))⟩
    · rw [sequenceOf?_eq, if_neg (by omega), if_neg (by omega), if_neg (by omega),
        if_pos (by omega)]
    · rw [leastSecond_le_iff, le_largestSecond_iff]
      omega
    · show ((first.toNat - 0xE0) * 64 + _) * 64 + _ = _
      omega
  · generalize hfirst : UInt8.ofNat (c.toNat / 262144 + 0xF0) = first
    replace hfirst := hbyte _ first (by omega) hfirst
    refine ⟨first, _, 4, leastSecond first, largestSecond first, rfl, ?_, fun rest =>
      takeTail_succ_ofNat (hbits _) ?_ (takeTail_succ_ofNat (hbits _) (hrange _)
        (takeTail_succ_ofNat (hbits _) (hrange _) (takeTail_zero_eq_ok_iff.2 ⟨?_, rfl⟩)))⟩
    · rw [sequenceOf?_eq, if_neg (by omega), if_neg (by omega), if_neg (by omega),
        if_neg (by omega), if_pos (by omega)]
    · rw [leastSecond_le_iff, le_largestSecond_iff]
      omega
    · show (((first.toNat - 0xF0) * 64 + _) * 64 + _) * 64 + _ = _
      omega

/-! ## Texts -/

theorem decodeFrom_cons_eq_ok_iff {before : Nat} {first : UInt8} {bytes : List UInt8}
    {cs : List Char} :
    decodeFrom before (first :: bytes) = .ok cs ↔ ∃ length low high value rest others,
      sequenceOf? first = some (length, low, high) ∧
      takeTail (length - 1) low high (firstBits length first) bytes = .ok (value, rest) ∧
      decodeFrom (before + length) rest = .ok others ∧ cs = Char.ofNat value :: others := by
  rw [decodeFrom]
  constructor
  · intro h
    split at h
    · simp at h
    · rename_i length low high hsequence
      split at h
      · simp at h
      · rename_i value rest htail
        dsimp only at h
        split at h
        · rename_i others hothers
          exact ⟨length, low, high, value, rest, others, hsequence, htail, hothers,
            (Except.ok.inj h).symm⟩
        · simp at h
  · rintro ⟨length, low, high, value, rest, others, hsequence, htail, hothers, rfl⟩
    rw [hsequence]
    dsimp only
    split
    · rename_i herror
      simp [htail] at herror
    · rename_i value' rest' hok
      rw [htail] at hok
      cases hok
      rw [hothers]

theorem decodeFrom_eq_ok_iff {before : Nat} {bytes : List UInt8} {cs : List Char} :
    decodeFrom before bytes = .ok cs ↔ bytes = encodeUtf8 cs := by
  constructor
  · intro h
    induction cs generalizing before bytes with
    | nil =>
      cases bytes with
      | nil => rfl
      | cons first bytes =>
        obtain ⟨_, _, _, _, _, _, _, _, _, hnil⟩ := decodeFrom_cons_eq_ok_iff.1 h
        simp at hnil
    | cons c cs ih =>
      cases bytes with
      | nil => simp [decodeFrom] at h
      | cons first bytes =>
        obtain ⟨length, low, high, value, rest, others, hsequence, htail, hothers, hcs⟩ :=
          decodeFrom_cons_eq_ok_iff.1 h
        obtain ⟨rfl, rfl⟩ := List.cons.inj hcs
        rw [utf8EncodeChar_of_takeTail hsequence htail, ih hothers, encodeUtf8, encodeUtf8,
          List.flatMap_cons]
  · rintro rfl
    induction cs generalizing before with
    | nil => simp [encodeUtf8, decodeFrom]
    | cons c cs ih =>
      obtain ⟨first, tail, length, low, high, hchar, hsequence, htail⟩ := takeTail_utf8EncodeChar c
      rw [encodeUtf8, List.flatMap_cons, hchar, List.cons_append, decodeFrom_cons_eq_ok_iff]
      exact ⟨length, low, high, c.toNat, encodeUtf8 cs, cs, hsequence, htail _, ih,
        by rw [Char.ofNat_toNat]⟩

/-- Bytes are decoded when they encode a text, and to this text. -/
theorem decodeUtf8_eq_ok_iff {bytes : List UInt8} {cs : List Char} :
    decodeUtf8 bytes = .ok cs ↔ bytes = encodeUtf8 cs :=
  decodeFrom_eq_ok_iff

theorem decodeUtf8_encodeUtf8 (cs : List Char) : decodeUtf8 (encodeUtf8 cs) = .ok cs :=
  decodeUtf8_eq_ok_iff.2 rfl

theorem encodeUtf8_injective {cs cs' : List Char} (h : encodeUtf8 cs = encodeUtf8 cs') :
    cs = cs' := by
  have hok := decodeUtf8_encodeUtf8 cs'
  rw [← h, decodeUtf8_encodeUtf8] at hok
  exact Except.ok.inj hok

theorem encodeUtf8_append (cs more : List Char) :
    encodeUtf8 (cs ++ more) = encodeUtf8 cs ++ encodeUtf8 more :=
  List.flatMap_append

/-! ## Characters of one byte -/

/-- A character below `0x80` is one byte. -/
theorem utf8EncodeChar_of_lt {c : Char} (h : c.toNat < 0x80) : utf8EncodeChar c = [c.toUInt8] := by
  rw [utf8EncodeChar_eq, if_pos (Nat.le_of_lt_succ h)]
  rfl

/-- The byte of such a character is a part of no other one. -/
theorem toUInt8_mem_utf8EncodeChar {d : Char} (hd : d.toNat < 0x80) {c : Char} :
    d.toUInt8 ∈ utf8EncodeChar c ↔ c = d := by
  have hvalid : c.toNat < 0xD800 ∨ 0xDFFF < c.toNat ∧ c.toNat < 0x110000 := c.valid
  have hbyte : ∀ n < 256, (d.toUInt8 = UInt8.ofNat n ↔ n = d.toNat) := fun n hn => by
    have htoNat : d.toUInt8.toNat = d.toNat :=
      UInt8.toNat_ofNat_of_lt' (show d.toNat < 256 by omega)
    rw [toNat_eq_iff hn, htoNat, eq_comm]
  have hchar : c = d ↔ c.toNat = d.toNat := ⟨congrArg Char.toNat, fun h => by
    rw [← Char.ofNat_toNat c, h, Char.ofNat_toNat]⟩
  rw [utf8EncodeChar_eq, hchar]
  split_ifs
  · rw [List.mem_singleton, hbyte _ (by omega)]
  · simp only [List.mem_cons, List.not_mem_nil, or_false]
    rw [hbyte _ (by omega), hbyte _ (by omega)]
    omega
  · simp only [List.mem_cons, List.not_mem_nil, or_false]
    rw [hbyte _ (by omega), hbyte _ (by omega), hbyte _ (by omega)]
    omega
  · simp only [List.mem_cons, List.not_mem_nil, or_false]
    rw [hbyte _ (by omega), hbyte _ (by omega), hbyte _ (by omega), hbyte _ (by omega)]
    omega

theorem utf8EncodeChar_ne_nil (c : Char) : utf8EncodeChar c ≠ [] := by
  rw [← List.length_pos_iff, String.length_utf8EncodeChar]
  exact c.utf8Size_pos

theorem encodeUtf8_eq_nil_iff {cs : List Char} : encodeUtf8 cs = [] ↔ cs = [] :=
  ⟨fun h => encodeUtf8_injective h, fun h => by rw [h]; rfl⟩

theorem newline_mem_utf8EncodeChar {c : Char} : 0x0A ∈ utf8EncodeChar c ↔ c = '\n' :=
  toUInt8_mem_utf8EncodeChar (d := '\n') (by decide)

theorem newline_mem_encodeUtf8 {cs : List Char} : 0x0A ∈ encodeUtf8 cs ↔ '\n' ∈ cs := by
  rw [encodeUtf8, List.mem_flatMap]
  simp only [newline_mem_utf8EncodeChar, exists_eq_right]

end RazenLint.Text
