import RazenLint.Proofs.Edit.Bytes
import RazenLint.Proofs.Text.Bracket
import RazenLint.Proofs.Text.Trim

/-!
# The masked line in bytes

A reader that counts bytes looks at a copy of the line in which every character inside a
literal is as many blanks as it has bytes (`codeBytes`). The copy has the bytes of the
line (`byteLength_take_spread`), but not its columns : `spread` leads from a column of the
line to the place in the copy where the same byte offset is reached. What is cut off at a
column is cut off in the copy at that place (`codeBytes_eq_append`), so an offset that was
found in the copy is the offset of a column of the line : it is in range and inside no
character (`column?_spread`, `sliceBytes?_spread`).

Text without quotes begins the copy exactly when it begins the code
(`prefix_codeBytesFrom_iff`), and only the number of blanks can differ otherwise
(`mem_codeBytesFrom_iff`, `filter_codeBytesFrom`, `closingDistance_codeBytesFrom`).
-/

namespace RazenLint.Text

/-- The code of a line from a given reading on, for a reader that counts bytes. -/
def codeBytesFrom (reading : Reading) (line : List Char) : List Char :=
  (maskBytesFrom reading line).takeWhile (· ≠ commentSign)

/-- The code of a line for a reader that counts bytes. -/
def codeBytes (line : List Char) : List Char :=
  codeBytesFrom .code line

/-- The place in the copy of a line that a column of the line has. -/
def spread (line : List Char) (column : Nat) : Nat :=
  (maskBytes (line.take column)).length

/-! ## The copy in parts -/

/-- What stands for one character in the copy. -/
def shownBytes (reading : Reading) (c : Char) : List Char :=
  if reading.hides c then List.replicate c.utf8Size ' ' else [c]

theorem maskBytesFrom_cons (reading : Reading) (c : Char) (cs : List Char) :
    maskBytesFrom reading (c :: cs) = shownBytes reading c ++ maskBytesFrom (reading.next c) cs :=
  rfl

theorem maskBytesFrom_append (reading : Reading) (front back : List Char) :
    maskBytesFrom reading (front ++ back) =
      maskBytesFrom reading front ++ maskBytesFrom (reading.after front) back := by
  induction front generalizing reading with
  | nil => rfl
  | cons c cs ih =>
    rw [List.cons_append, maskBytesFrom_cons, maskBytesFrom_cons, ih, List.append_assoc,
      Reading.after_cons]

/-- The copy shows a character as the masked line does, once or more often. -/
theorem mem_shownBytes_iff {reading : Reading} {c d : Char} :
    d ∈ shownBytes reading c ↔ d = shown reading c := by
  have hsize := Nat.ne_of_gt c.utf8Size_pos
  unfold shownBytes shown
  split <;> simp [hsize]

theorem getLast?_shownBytes (reading : Reading) (c : Char) :
    (shownBytes reading c).getLast? = some (shown reading c) := by
  have hsize := Nat.ne_of_gt c.utf8Size_pos
  unfold shownBytes shown
  split <;> simp [List.getLast?_replicate, hsize]

theorem shownBytes_ne_nil (reading : Reading) (c : Char) : shownBytes reading c ≠ [] := by
  intro hnil
  have hlast := getLast?_shownBytes reading c
  rw [hnil] at hlast
  exact absurd hlast (by simp)

/-- A character that is shown as no blank is shown once. -/
theorem shownBytes_of_ne_blank {reading : Reading} {c : Char} (h : shown reading c ≠ ' ') :
    shownBytes reading c = [shown reading c] := by
  unfold shown at h ⊢
  unfold shownBytes
  split
  · rename_i hhides
    exact absurd (if_pos hhides) h
  · rfl

theorem mem_maskBytesFrom_iff {d : Char} : ∀ {reading : Reading} {cs : List Char},
    d ∈ maskBytesFrom reading cs ↔ d ∈ maskFrom reading cs
  | _, [] => Iff.rfl
  | reading, c :: cs => by
    rw [maskBytesFrom_cons, maskFrom_cons, List.mem_append, List.mem_cons, mem_shownBytes_iff,
      mem_maskBytesFrom_iff]

theorem getLast?_maskBytesFrom : ∀ (reading : Reading) (cs : List Char),
    (maskBytesFrom reading cs).getLast? = (maskFrom reading cs).getLast?
  | _, [] => rfl
  | reading, c :: cs => by
    rw [maskBytesFrom_cons, maskFrom_cons, List.getLast?_append, List.getLast?_cons,
      getLast?_maskBytesFrom, getLast?_shownBytes]
    cases (maskFrom (reading.next c) cs).getLast? <;> rfl

/-- The copy has the bytes of the line. -/
theorem byteLength_maskBytesFrom : ∀ (reading : Reading) (cs : List Char),
    byteLength (maskBytesFrom reading cs) = byteLength cs
  | _, [] => rfl
  | reading, c :: cs => by
    have hblanks : ∀ n, byteLength (List.replicate n ' ') = n := by
      intro n
      induction n with
      | zero => rfl
      | succ n ih =>
        have hsize : ' '.utf8Size = 1 := by decide
        rw [List.replicate_succ, byteLength, ih, hsize, Nat.add_comm]
    have hshown : byteLength (shownBytes reading c) = c.utf8Size := by
      unfold shownBytes
      split
      · exact hblanks c.utf8Size
      · rfl
    rw [maskBytesFrom_cons, byteLength_append, hshown, byteLength_maskBytesFrom, byteLength]

theorem maskBytesFrom_of_plain : ∀ {cs : List Char}, (∀ c ∈ cs, isQuote c = false) →
    maskBytesFrom .code cs = cs
  | [], _ => rfl
  | c :: cs, h => by
    have hrest := maskBytesFrom_of_plain fun d hd => h d (List.mem_cons_of_mem _ hd)
    rw [maskBytesFrom_cons, next_code (h c List.mem_cons_self), hrest]
    rfl

/-- The copy in two parts, where the first part has no comment. -/
theorem codeBytesFrom_append {reading : Reading} {front : List Char}
    (h : commentSign ∉ maskFrom reading front) (back : List Char) :
    codeBytesFrom reading (front ++ back) =
      maskBytesFrom reading front ++ codeBytesFrom (reading.after front) back := by
  rw [codeBytesFrom, maskBytesFrom_append, List.takeWhile_append_of_pos]
  · rfl
  · intro c hc
    have : c ≠ commentSign := fun heq => h (mem_maskBytesFrom_iff.1 (heq ▸ hc))
    simpa using this

theorem codeBytesFrom_cons (reading : Reading) (c : Char) (cs : List Char) :
    codeBytesFrom reading (c :: cs) = if shown reading c = commentSign then []
      else shownBytes reading c ++ codeBytesFrom (reading.next c) cs := by
  split
  · rename_i hsign
    have hblank : shown reading c ≠ ' ' := by
      rw [hsign]
      decide
    rw [codeBytesFrom, maskBytesFrom_cons, shownBytes_of_ne_blank hblank, hsign]
    simp
  · rename_i hsign
    rw [← List.singleton_append, codeBytesFrom_append, maskBytesFrom_cons]
    · simp [maskBytesFrom]
    · rw [maskFrom_cons, maskFrom, List.mem_singleton]
      exact Ne.symm hsign

theorem mem_codeBytesFrom_iff {d : Char} : ∀ {reading : Reading} {cs : List Char},
    d ∈ codeBytesFrom reading cs ↔ d ∈ codeFrom reading cs
  | _, [] => Iff.rfl
  | reading, c :: cs => by
    rw [codeBytesFrom_cons, codeFrom_cons]
    split
    · rfl
    · rw [List.mem_append, List.mem_cons, mem_shownBytes_iff, mem_codeBytesFrom_iff]

/-! ## Cutting at a column -/

/-- The code of a line in front of a column and behind it. -/
theorem codeFrom_eq_append {reading : Reading} {line : List Char} {n : Nat}
    (h : n ≤ (codeFrom reading line).length) :
    commentSign ∉ maskFrom reading (line.take n) ∧ codeFrom reading line =
      maskFrom reading (line.take n) ++ codeFrom (reading.after (line.take n)) (line.drop n) := by
  obtain ⟨front, back, rfl, hmask, hback⟩ :=
    exists_append_of_codeFrom_eq (List.take_append_drop n (codeFrom reading line)).symm
  have hlength : front.length = n := by
    rw [← length_maskFrom reading front, hmask, List.length_take, Nat.min_eq_left h]
  have hsign : commentSign ∉ maskFrom reading front := by
    rw [hmask]
    exact fun hmem => commentSign_notMem_codeFrom _ _ (List.mem_of_mem_take hmem)
  rw [← hlength, List.take_left, List.drop_left]
  exact ⟨hsign, codeFrom_append hsign back⟩

variable {line : List Char} {n : Nat}

/-- The copy in front of a column and behind it. -/
theorem codeBytes_eq_append (h : n ≤ (code line).length) : codeBytes line =
    maskBytes (line.take n) ++ codeBytesFrom (Reading.code.after (line.take n)) (line.drop n) := by
  conv_lhs => rw [codeBytes, ← List.take_append_drop n line]
  exact codeBytesFrom_append (codeFrom_eq_append h).1 (line.drop n)

theorem take_spread (h : n ≤ (code line).length) :
    (codeBytes line).take (spread line n) = maskBytes (line.take n) := by
  rw [codeBytes_eq_append h]
  exact List.take_left

theorem drop_spread (h : n ≤ (code line).length) : (codeBytes line).drop (spread line n) =
    codeBytesFrom (Reading.code.after (line.take n)) (line.drop n) := by
  rw [codeBytes_eq_append h]
  exact List.drop_left

theorem drop_code (h : n ≤ (code line).length) : (code line).drop n =
    codeFrom (Reading.code.after (line.take n)) (line.drop n) := by
  have hlength : (maskFrom .code (line.take n)).length = n := by
    rw [length_maskFrom, List.length_take, Nat.min_eq_left (h.trans (length_code_le line))]
  rw [code_eq_codeFrom, (codeFrom_eq_append h).2]
  exact List.drop_left' hlength

theorem spread_add (m n : Nat) : spread line (m + n) = spread line m +
    (maskBytesFrom (Reading.code.after (line.take m)) ((line.drop m).take n)).length := by
  rw [spread, List.take_add, maskBytes, maskBytesFrom_append, List.length_append]
  rfl

/-- Behind code that is read as code, text without quotes has its places one after the
other. -/
theorem spread_append_of_plain {front plain : List Char} {i : Nat}
    (hreading : Reading.code.after front = .code) (hplain : ∀ c ∈ plain, isQuote c = false)
    (hi : i ≤ plain.length) (back : List Char) :
    spread (front ++ (plain ++ back)) (front.length + i) = (maskBytes front).length + i := by
  have htake : maskBytesFrom .code (plain.take i) = plain.take i :=
    maskBytesFrom_of_plain fun c hc => hplain c (List.mem_of_mem_take hc)
  rw [spread, List.take_length_add_append, List.take_append_of_le_length hi, maskBytes,
    maskBytesFrom_append, hreading, htake, List.length_append, List.length_take,
    Nat.min_eq_left hi]
  rfl

/-- A character that is shown as no blank has one place. -/
theorem spread_succ {c : Char} (h : (code line)[n]? = some c) (hblank : c ≠ ' ') :
    spread line (n + 1) = spread line n + 1 := by
  have hn : n < (code line).length := (List.getElem?_eq_some_iff.1 h).1
  have hhead : (codeFrom (Reading.code.after (line.take n)) (line.drop n)).head? = some c := by
    rw [← drop_code hn.le, List.head?_drop, h]
  rw [spread_add]
  cases hrest : line.drop n with
  | nil => simp [hrest] at hhead
  | cons d ds =>
    rw [hrest, codeFrom_cons] at hhead
    split at hhead
    · simp at hhead
    · have hshown : shown (Reading.code.after (line.take n)) d = c := by simpa using hhead
      rw [List.take_succ_cons, List.take_zero, maskBytesFrom_cons,
        shownBytes_of_ne_blank (hshown ▸ hblank)]
      rfl

/-! ## Offsets -/

/-- The offset of a place in the copy is that of the column in the line. -/
theorem byteLength_take_spread (h : n ≤ (code line).length) :
    byteLength ((codeBytes line).take (spread line n)) = byteLength (line.take n) := by
  rw [take_spread h]
  exact byteLength_maskBytesFrom .code _

theorem columnAt_byteLength : ∀ front back : List Char,
    columnAt (front ++ back) (byteLength front) = front.length
  | [], [] => rfl
  | [], c :: back => rfl
  | c :: front, back => by
    have hpos := c.utf8Size_pos
    rw [List.cons_append, columnAt, byteLength, if_neg (by omega), Nat.add_sub_cancel_left,
      columnAt_byteLength, List.length_cons]

/-- The column of a byte offset. There is none behind the line and none inside a
character. -/
def column? (line : List Char) (offset : Nat) : Option Nat :=
  (splitAtByte? line offset).map fun _ => columnAt line offset

/-- The text between two byte offsets. There is none when an offset is behind the line or
inside a character, or when the second one is in front of the first one. -/
def sliceBytes? (line : List Char) (start stop : Nat) : Option (List Char) := do
  let (front, _) ← splitAtByte? line stop
  let (_, slice) ← splitAtByte? front start
  return slice

/-- An offset in the copy is the offset of a column. -/
theorem column?_spread (h : n ≤ (code line).length) :
    column? line (byteLength ((codeBytes line).take (spread line n))) = some n := by
  have hcolumn := columnAt_byteLength (line.take n) (line.drop n)
  rw [List.take_append_drop, List.length_take,
    Nat.min_eq_left (h.trans (length_code_le line))] at hcolumn
  rw [byteLength_take_spread h, column?, splitAtByte?_take, Option.map_some, hcolumn]

/-- The text between the offsets of two columns. -/
theorem sliceBytes?_take {m n : Nat} (hmn : m ≤ n) :
    sliceBytes? line (byteLength (line.take m)) (byteLength (line.take n)) =
      some ((line.drop m).take (n - m)) := by
  have hfront : line.take m = (line.take n).take m := by rw [List.take_take, Nat.min_eq_left hmn]
  rw [sliceBytes?, splitAtByte?_take, hfront]
  simp only [Option.bind_eq_bind, Option.bind_some, splitAtByte?_take, List.drop_take]
  rfl

/-- The text between two offsets in the copy is the text between two columns. -/
theorem sliceBytes?_spread {m : Nat} (hmn : m ≤ n) (h : n ≤ (code line).length) :
    sliceBytes? line (byteLength ((codeBytes line).take (spread line m)))
      (byteLength ((codeBytes line).take (spread line n))) =
        some ((line.drop m).take (n - m)) := by
  rw [byteLength_take_spread h, byteLength_take_spread (hmn.trans h)]
  exact sliceBytes?_take hmn

/-! ## What the copy and the code begin with -/

theorem head?_codeBytesFrom (reading : Reading) (cs : List Char) :
    (codeBytesFrom reading cs).head? = (codeFrom reading cs).head? := by
  cases cs with
  | nil => rfl
  | cons c cs =>
    rw [codeBytesFrom_cons, codeFrom_cons]
    split
    · rfl
    · obtain ⟨d, ds, hshown⟩ := List.exists_cons_of_ne_nil (shownBytes_ne_nil reading c)
      have hd : d = shown reading c :=
        mem_shownBytes_iff.1 (hshown ▸ List.mem_cons_self)
      rw [hshown, hd]
      rfl

/-- Text without quotes begins the copy when it begins the code. -/
theorem prefix_codeBytesFrom_iff : ∀ {plain cs : List Char}, (∀ c ∈ plain, isQuote c = false) →
    (plain <+: codeBytesFrom .code cs ↔ plain <+: codeFrom .code cs)
  | [], _, _ => iff_of_true List.nil_prefix List.nil_prefix
  | c :: plain, [], _ => Iff.rfl
  | c :: plain, d :: cs, h => by
    rw [codeBytesFrom_cons, codeFrom_cons]
    split
    · rfl
    · change c :: plain <+: d :: codeBytesFrom _ cs ↔ c :: plain <+: d :: codeFrom _ cs
      rw [List.cons_prefix_cons, List.cons_prefix_cons]
      refine and_congr_right fun hcd => ?_
      rw [← hcd, next_code (h c List.mem_cons_self)]
      exact prefix_codeBytesFrom_iff fun e he => h e (List.mem_cons_of_mem _ he)

/-- Code without quotes is its own copy. -/
theorem codeBytesFrom_of_plain : ∀ {cs : List Char},
    (∀ c ∈ codeFrom .code cs, isQuote c = false) → codeBytesFrom .code cs = codeFrom .code cs
  | [], _ => rfl
  | c :: cs, h => by
    rw [codeFrom_cons] at h
    rw [codeBytesFrom_cons, codeFrom_cons]
    split
    · rfl
    · rename_i hsign
      rw [if_neg hsign] at h
      have hc : isQuote c = false := h _ List.mem_cons_self
      rw [next_code hc] at h ⊢
      rw [codeBytesFrom_of_plain fun d hd => h d (List.mem_cons_of_mem _ hd)]
      rfl

/-! ## Brackets and blanks in the copy -/

/-- The closing parenthesis has the same place in the copy. -/
theorem closingDistance_codeBytesFrom : ∀ (reading : Reading) (depth : Nat) (cs : List Char),
    closingDistance depth (codeBytesFrom reading cs) =
      (closingDistance depth (codeFrom reading cs)).map
        fun n => (maskBytesFrom reading (cs.take n)).length
  | _, _, [] => rfl
  | reading, depth, c :: cs => by
    -- one character, whatever the depth behind it
    have hstep : ∀ depth', (closingDistance depth' (codeBytesFrom (reading.next c) cs)).map
        (· + (shownBytes reading c).length) =
          ((closingDistance depth' (codeFrom (reading.next c) cs)).map (· + 1)).map
            fun n => (maskBytesFrom reading ((c :: cs).take n)).length := by
      intro depth'
      rw [closingDistance_codeBytesFrom (reading.next c) depth' cs, Option.map_map,
        Option.map_map]
      congr 1
      ext n
      simp [maskBytesFrom_cons, Nat.add_comm]
    rw [codeBytesFrom_cons, codeFrom_cons]
    split
    · rfl
    · by_cases hparen : shown reading c = '(' ∨ shown reading c = ')'
      · have hblank : shown reading c ≠ ' ' := by
          rcases hparen with h | h <;> rw [h] <;> decide
        rw [shownBytes_of_ne_blank hblank] at hstep ⊢
        rw [List.singleton_append, closingDistance, closingDistance]
        split
        · exact hstep (depth + 1)
        · split
          · split
            · rfl
            · exact hstep (depth - 1)
          · exact hstep depth
      · rw [not_or] at hparen
        rw [closingDistance_append_of_plain, closingDistance, if_neg hparen.1, if_neg hparen.2]
        · exact hstep depth
        · intro d hd
          rwa [mem_shownBytes_iff.1 hd]

/-- The parenthesis that closes one in a column closes it in the copy as well. -/
theorem closingParen_codeBytes (h : n ≤ (code line).length) :
    closingParen (codeBytes line) (spread line n) =
      (closingParen (code line) n).map (spread line) := by
  rw [closingParen, closingParen, drop_spread h, drop_code h, closingDistance_codeBytesFrom,
    Option.map_map, Option.map_map]
  congr 1
  ext d
  simp only [Function.comp_apply]
  rw [Nat.add_comm d n, spread_add, Nat.add_comm]

/-- Trimming the copy leaves what trimming the code leaves. -/
theorem length_trimEnd_codeBytes (line : List Char) :
    (trimEnd (codeBytes line)).length = spread line (trimEnd (code line)).length := by
  obtain ⟨blanks, hcode, hblank⟩ := exists_trimEnd_append (code line)
  set n := (trimEnd (code line)).length with hn
  have hle : n ≤ (code line).length := by
    rw [hcode, List.length_append]
    exact Nat.le_add_right n blanks.length
  obtain ⟨htrim, hblanks⟩ :=
    List.append_inj ((codeFrom_eq_append hle).2.symm.trans hcode) (by
      rw [length_maskFrom, List.length_take, Nat.min_eq_left (hle.trans (length_code_le line))])
  have htail : ∀ c ∈ codeBytesFrom (Reading.code.after (line.take n)) (line.drop n),
      isBlank c = true := fun c hc => hblank c (hblanks ▸ mem_codeBytesFrom_iff.1 hc)
  rw [codeBytes_eq_append hle, trimEnd_append_of_blank htail, trimEnd_of_getLast?]
  · rfl
  · intro c hc
    rw [maskBytes, getLast?_maskBytesFrom, htrim] at hc
    exact isBlank_of_getLast?_trimEnd hc

theorem filter_codeBytesFrom : ∀ (reading : Reading) (cs : List Char),
    (codeBytesFrom reading cs).filter (!isBlank ·) = (codeFrom reading cs).filter (!isBlank ·)
  | _, [] => rfl
  | reading, c :: cs => by
    rw [codeBytesFrom_cons, codeFrom_cons]
    split
    · rfl
    · rw [← List.singleton_append, List.filter_append,
        List.filter_append, filter_codeBytesFrom (reading.next c) cs]
      by_cases hblank : shown reading c = ' '
      · have hnone : (shownBytes reading c).filter (!isBlank ·) = [] := by
          refine List.filter_eq_nil_iff.2 fun d hd => ?_
          rw [mem_shownBytes_iff.1 hd, hblank]
          decide
        rw [hnone, hblank]
        rfl
      · rw [shownBytes_of_ne_blank hblank]

end RazenLint.Text
