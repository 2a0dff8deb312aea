import RazenLint.Proofs.Json.Layout
import RazenLint.Proofs.Json.Scan
import RazenLint.Proofs.Json.Sorted

/-!
# Values are read from their text

A value whose numbers fit into a word, and that is not nested too deep, is read from its text in
every layout (`ofText_write`) : what is read is the value with the members of its objects in the
order of their keys. The fuel of the reader lasts, since every step takes a character.
-/

namespace RazenLint.Json

/-! ## Values that can be read back -/

mutual

/-- A value that can be read from its text : its numbers are whole and fit into a word, the keys
of an object differ, and lists and objects are nested in at most the given levels. -/
def Readable (levels : Nat) : Json → Prop
  | null | bool _ | text _ => True
  | number (.double _) => False
  | number (.whole n) => 0 ≤ n ∧ n ≤ maxWord
  | list items => 0 < levels ∧ ReadableItems (levels - 1) items
  | object members =>
    0 < levels ∧ (members.map Prod.fst).Nodup ∧ ReadableMembers (levels - 1) members

def ReadableItems (levels : Nat) : List Json → Prop
  | [] => True
  | item :: rest => Readable levels item ∧ ReadableItems levels rest

def ReadableMembers (levels : Nat) : List (String × Json) → Prop
  | [] => True
  | (_, value) :: rest => Readable levels value ∧ ReadableMembers levels rest

end

section

variable {levels : Nat}

theorem readable_ofNat {n : Nat} (hn : n ≤ maxWord) : (ofNat n).Readable levels :=
  ⟨Int.natCast_nonneg n, Int.ofNat_le.2 hn⟩

theorem readableItems_map {α : Type} {encode : α → Json} {l : List α}
    (h : ∀ a ∈ l, (encode a).Readable levels) : ReadableItems levels (l.map encode) := by
  induction l with
  | nil => trivial
  | cons a l ih =>
    rw [List.forall_mem_cons] at h
    exact ⟨h.1, ih h.2⟩

theorem readableMembers_append {members more : List (String × Json)} :
    ReadableMembers levels (members ++ more) ↔
      ReadableMembers levels members ∧ ReadableMembers levels more := by
  induction members with
  | nil => simp [ReadableMembers]
  | cons entry rest ih => simp only [List.cons_append, ReadableMembers, ih, and_assoc]

theorem readableMembers_insert {key : String} {value : Json} (hvalue : value.Readable levels)
    {table : Table Json} (h : ReadableMembers levels table) :
    ReadableMembers levels (table.insert key value) := by
  induction table with
  | nil => exact ⟨hvalue, h⟩
  | cons entry rest ih =>
    rw [Table.insert]
    split
    · exact ⟨hvalue, h⟩
    · split
      · exact ⟨hvalue, h.2⟩
      · exact ⟨h.1, ih h.2⟩

end

mutual

/-- The order of the members does not matter. -/
theorem Readable.sorted : ∀ {levels : Nat} {j : Json}, j.Readable levels → j.sorted.Readable levels
  | _, .null, h => h
  | _, .bool _, h => h
  | _, .number _, h => h
  | _, .text _, h => h
  | _, .list items, h => ⟨h.1, readableItems_sortedItems h.2⟩
  | _, .object members, h => by
    have hsorted := sorted_sortedMembers members
    exact ⟨h.1, hsorted.imp fun h => h.ne, readableMembers_sortedMembers h.2.2⟩

theorem readableItems_sortedItems : ∀ {levels : Nat} {items : List Json},
    ReadableItems levels items → ReadableItems levels (sortedItems items)
  | _, [], h => h
  | _, _ :: _, h => ⟨h.1.sorted, readableItems_sortedItems h.2⟩

theorem readableMembers_sortedMembers : ∀ {levels : Nat} {members : List (String × Json)},
    ReadableMembers levels members → ReadableMembers levels (sortedMembers members)
  | _, [], h => h
  | _, (_, _) :: _, h => readableMembers_insert h.1.sorted (readableMembers_sortedMembers h.2)

end

theorem toList_quote (s : String) :
    (quote s).toList = '"' :: (s.toList.flatMap escapeChar ++ ['"']) := by
  rw [quote, String.toList_ofList, List.cons_append]

theorem toList_text_whole (n : Nat) : (Number.whole n).text.toList = Nat.toDigits 10 n :=
  Nat.toList_repr

/-- The numbers that can be read back are those of a word. -/
theorem exists_of_readable_number {levels : Nat} {n : Number}
    (h : (number n).Readable levels) : ∃ m : Nat, n = .whole m ∧ m ≤ maxWord := by
  cases n with
  | double _ => exact h.elim
  | whole n =>
    obtain ⟨m, rfl⟩ := Int.eq_ofNat_of_zero_le h.1
    exact ⟨m, rfl, Int.ofNat_le.1 h.2⟩

namespace Scan

variable (layout : Layout)

/-- A character that a value can begin with. -/
structure StartsValue (c : Char) : Prop where
  not_isSpace : isSpace c = false
  ne_close : c ≠ ']'

theorem startsValue_of_isDigit {c : Char} (h : c.isDigit = true) : StartsValue c := by
  have hne : ∀ d : Char, d.isDigit = false → c ≠ d := by
    rintro d hd rfl
    simp [h] at hd
  refine ⟨?_, hne _ (by decide)⟩
  simp only [isSpace, Bool.or_eq_false_iff, decide_eq_false_iff_not]
  exact ⟨⟨⟨hne _ (by decide), hne _ (by decide)⟩, hne _ (by decide)⟩, hne _ (by decide)⟩

theorem exists_toDigits_eq_cons (n : Nat) :
    ∃ d ds, Nat.toDigits 10 n = d :: ds ∧ d.isDigit = true := by
  obtain ⟨d, ds, hd⟩ := List.exists_cons_of_ne_nil (Nat.toDigits_ne_nil (n := n) (b := 10))
  exact ⟨d, ds, hd, isDigit_of_mem_toDigits (n := n) (by rw [hd]; exact List.mem_cons_self)⟩

theorem exists_write_eq_cons {j : Json} {levels : Nat} (h : j.Readable levels) (depth : Nat) :
    ∃ c cs, layout.write depth j = c :: cs ∧ StartsValue c := by
  cases j with
  | null => exact ⟨'n', _, rfl, by decide, by decide⟩
  | bool value => cases value <;> exact ⟨_, _, rfl, by decide, by decide⟩
  | number n =>
    obtain ⟨m, rfl, -⟩ := exists_of_readable_number h
    obtain ⟨d, ds, hd, hdigit⟩ := exists_toDigits_eq_cons m
    exact ⟨d, ds, (toList_text_whole m).trans hd, startsValue_of_isDigit hdigit⟩
  | text s => exact ⟨'"', _, toList_quote s, by decide, by decide⟩
  | list items => exact ⟨'[', _, rfl, by decide, by decide⟩
  | object members => exact ⟨'\x7b', _, rfl, by decide, by decide⟩

/-! ## Scalars -/

section

variable {blanks cs : List Char} {steps : Nat} (levels : Nat)

/-- A value that is neither a list nor an object. -/
theorem value_of_scalar (hblanks : ∀ b ∈ blanks, isSpace b = true) {c : Char}
    (hc : isSpace c = false) (hlist : c ≠ '[') (hobject : c ≠ '\x7b') (hsteps : 0 < steps) :
    value steps levels (blanks ++ c :: cs) = scalar c (c :: cs) := by
  obtain ⟨steps, rfl⟩ := Nat.exists_eq_add_one_of_ne_zero hsteps.ne'
  rw [value, bind_of_eq_ok (peekPastSpace_append hblanks hc cs)]
  simp

variable (hblanks : ∀ b ∈ blanks, isSpace b = true) (hsteps : 0 < steps)

include hblanks hsteps

theorem value_null : value steps levels (blanks ++ ("null".toList ++ cs)) = .ok (null, cs) := by
  rw [show "null".toList = ['n', 'u', 'l', 'l'] from rfl]
  refine (value_of_scalar levels hblanks (by decide) (by decide) (by decide) hsteps).trans ?_
  rw [scalar, if_pos rfl]
  exact bind_of_eq_ok (letters_append "null".toList cs)

theorem value_bool (b : Bool) :
    value steps levels (blanks ++ ((if b then "true" else "false").toList ++ cs)) =
      .ok (bool b, cs) := by
  cases b with
  | true =>
    refine (value_of_scalar levels hblanks (c := 't') (by decide) (by decide) (by decide)
      hsteps).trans ?_
    exact bind_of_eq_ok (letters_append "true".toList cs)
  | false =>
    refine (value_of_scalar levels hblanks (c := 'f') (by decide) (by decide) (by decide)
      hsteps).trans ?_
    exact bind_of_eq_ok (letters_append "false".toList cs)

theorem value_quote (s : String) :
    value steps levels (blanks ++ ((quote s).toList ++ cs)) = .ok (text s, cs) := by
  rw [toList_quote, List.cons_append, List.append_assoc]
  refine (value_of_scalar levels hblanks (by decide) (by decide) (by decide) hsteps).trans ?_
  refine (bind_of_eq_ok (discard_next_cons _ _)).trans ?_
  exact bind_of_eq_ok (string_quote s cs)

theorem value_nat {n : Nat} (hn : n ≤ maxWord) (hcs : EndsNumber cs) :
    value steps levels (blanks ++ ((Number.whole n).text.toList ++ cs)) = .ok (ofNat n, cs) := by
  have hnumber := number_toDigits hn hcs
  obtain ⟨d, ds, hd, hdigit⟩ := exists_toDigits_eq_cons n
  rw [hd] at hnumber
  rw [toList_text_whole, hd, List.cons_append]
  have hne : ∀ c : Char, c.isDigit = false → d ≠ c := by
    rintro c hc rfl
    simp [hdigit] at hc
  refine (value_of_scalar levels hblanks (startsValue_of_isDigit hdigit).not_isSpace
    (hne _ (by decide)) (hne _ (by decide)) hsteps).trans ?_
  rw [scalar, if_neg (hne _ (by decide)), if_neg (hne _ (by decide)), if_neg (hne _ (by decide)),
    if_neg (hne _ (by decide)), if_pos hdigit]
  exact bind_of_eq_ok hnumber

end

/-! ## Lists and objects -/

section

variable {blanks cs : List Char}

theorem enter_cons {levels : Nat} (h : 0 < levels) (c : Char) (cs : List Char) :
    enter (levels + 1) (c :: cs) = .ok (levels, cs) := by
  rw [enter, if_neg (by omega)]
  rfl

theorem listGoesOn_close (hblanks : ∀ b ∈ blanks, isSpace b = true) (first : Bool) :
    listGoesOn first (blanks ++ ']' :: cs) = .ok (false, cs) := by
  rw [listGoesOn, bind_of_eq_ok (peekPastSpace_append hblanks (by decide) cs)]
  rfl

theorem listGoesOn_item (depth : Nat) (first : Bool) {c : Char} (hc : StartsValue c) :
    listGoesOn first (layout.beforeItem depth first ++ c :: cs) = .ok (true, c :: cs) := by
  have hpeek := peekPastSpace_append (layout.isSpace_newLine depth) hc.not_isSpace cs
  have hend := hc.ne_close
  cases first with
  | true =>
    refine (bind_of_eq_ok hpeek).trans ?_
    simp
    rfl
  | false =>
    rw [Layout.beforeItem, if_neg (by decide), List.append_assoc, List.singleton_append, listGoesOn,
      bind_of_eq_ok (peekPastSpace_cons (by decide) _)]
    refine (bind_of_eq_ok (discard_next_cons _ _)).trans ?_
    rw [bind_of_eq_ok hpeek]
    simp
    rfl

theorem objectGoesOn_close (hblanks : ∀ b ∈ blanks, isSpace b = true) (first : Bool) :
    objectGoesOn first (blanks ++ '\x7d' :: cs) = .ok (false, cs) := by
  rw [objectGoesOn, bind_of_eq_ok (peekPastSpace_append hblanks (by decide) cs)]
  rfl

theorem objectGoesOn_item (depth : Nat) (first : Bool) :
    objectGoesOn first (layout.beforeItem depth first ++ '"' :: cs) = .ok (true, cs) := by
  have hpeek := peekPastSpace_append (layout.isSpace_newLine depth)
    (show isSpace '"' = false by decide) cs
  cases first with
  | true => exact bind_of_eq_ok hpeek
  | false =>
    rw [Layout.beforeItem, if_neg (by decide), List.append_assoc, List.singleton_append,
      objectGoesOn, bind_of_eq_ok (peekPastSpace_cons (by decide) _)]
    refine (bind_of_eq_ok (discard_next_cons _ _)).trans ?_
    rw [bind_of_eq_ok hpeek]
    rfl

theorem colon_cons (cs : List Char) : colon (':' :: cs) = .ok ((), cs) :=
  bind_of_eq_ok (peekPastSpace_cons (by decide) cs)

end

/-! ## Values -/

theorem EndsNumber.nil : EndsNumber [] :=
  nofun

theorem EndsNumber.cons {c : Char}
    (hc : c.isDigit = false ∧ c ≠ '.' ∧ isExponentSign (some c) = false) (cs : List Char) :
    EndsNumber (c :: cs) := by
  rintro _ ⟨⟩
  exact hc

theorem EndsNumber.append {blanks cs : List Char} (hblanks : ∀ b ∈ blanks, isSpace b = true)
    (hcs : EndsNumber cs) : EndsNumber (blanks ++ cs) := by
  cases blanks with
  | nil => exact hcs
  | cons b blanks =>
    refine .cons ?_ _
    have hb := hblanks b List.mem_cons_self
    simp only [isSpace, Bool.or_eq_true, decide_eq_true_eq] at hb
    rcases hb with ((rfl | rfl) | rfl) | rfl <;> decide

theorem endsNumber_items (depth : Nat) (items : List Json) {cs : List Char} (hcs : EndsNumber cs) :
    EndsNumber (layout.writeItems depth false items ++ cs) := by
  cases items with
  | nil => exact hcs
  | cons item rest => exact .cons (by decide) _

theorem endsNumber_members (depth : Nat) (members : List (String × Json)) {cs : List Char}
    (hcs : EndsNumber cs) : EndsNumber (layout.writeMembers depth false members ++ cs) := by
  cases members with
  | nil => exact hcs
  | cons entry rest => exact .cons (by decide) _

theorem isSpace_beforeClose (layout : Layout) (depth : Nat) (isEmpty : Bool) :
    ∀ b ∈ layout.beforeClose depth isEmpty, isSpace b = true := by
  unfold Layout.beforeClose
  split
  · exact List.forall_mem_nil _
  · exact layout.isSpace_newLine depth

/-- Enters the members of an object into a table, each as it is held after reading. -/
def enterMembers (table : Table Json) (members : List (String × Json)) : Table Json :=
  members.foldl (fun table entry => table.insert entry.1 entry.2.sorted) table

/-- The order of the members does not matter when their keys differ. -/
theorem enterMembers_nil {members : List (String × Json)} (h : (members.map Prod.fst).Nodup) :
    enterMembers [] members = sortedMembers members := by
  have hentries : enterMembers [] members =
      Table.ofEntries (members.map fun entry => (entry.1, entry.2.sorted)) := by
    rw [Table.ofEntries, List.foldl_map]
    rfl
  have hnodup : ((members.map fun entry => (entry.1, entry.2.sorted)).map Prod.fst).Nodup := by
    rwa [List.map_map]
  rw [hentries]
  refine (Table.sorted_ofEntries _).ext (sorted_sortedMembers members) fun key => ?_
  rw [Table.get?_ofEntries_of_nodup hnodup, get?_sortedMembers]
  exact Table.get?_map (fun _ => sorted) members key

mutual

/-- A value is read from its text, whatever the layout. -/
theorem value_write : ∀ (j : Json) (levels : Nat), j.Readable levels →
    ∀ (depth steps : Nat) (blanks cs : List Char), (∀ b ∈ blanks, isSpace b = true) →
      EndsNumber cs → 2 * (layout.write depth j).length < steps →
        value steps (levels + 1) (blanks ++ (layout.write depth j ++ cs)) = .ok (j.sorted, cs)
  | .null => fun levels _ _ _ _ _ hblanks _ hsteps =>
    value_null (levels + 1) hblanks (Nat.zero_lt_of_lt hsteps)
  | .bool b => fun levels _ _ _ _ _ hblanks _ hsteps =>
    value_bool (levels + 1) hblanks (Nat.zero_lt_of_lt hsteps) b
  | .number n => by
    intro levels h depth steps blanks cs hblanks hcs hsteps
    obtain ⟨m, rfl, hm⟩ := exists_of_readable_number h
    exact value_nat (levels + 1) hblanks (Nat.zero_lt_of_lt hsteps) hm hcs
  | .text s => fun levels _ _ _ _ _ hblanks _ hsteps =>
    value_quote (levels + 1) hblanks (Nat.zero_lt_of_lt hsteps) s
  | .list items => by
    intro levels h depth steps blanks cs hblanks _ hsteps
    obtain ⟨steps, rfl⟩ := Nat.exists_eq_add_one_of_ne_zero (Nat.ne_zero_of_lt hsteps)
    have hitems := items_write items (levels - 1) h.2 (depth + 1) steps true
      (layout.beforeClose depth items.isEmpty) cs (isSpace_beforeClose layout depth _) (by
        rw [Layout.write, List.length_cons, List.length_append] at hsteps
        omega)
    rw [Nat.sub_add_cancel h.1] at hitems
    rw [Layout.write, List.cons_append, value,
      bind_of_eq_ok (peekPastSpace_append hblanks (by decide) _)]
    refine (bind_of_eq_ok (enter_cons h.1 _ _)).trans ?_
    rw [List.append_assoc, List.append_assoc, List.singleton_append, bind_of_eq_ok hitems]
    rfl
  | .object members => by
    intro levels h depth steps blanks cs hblanks _ hsteps
    obtain ⟨steps, rfl⟩ := Nat.exists_eq_add_one_of_ne_zero (Nat.ne_zero_of_lt hsteps)
    have hmembers := members_write members (levels - 1) h.2.2 (depth + 1) steps true []
      (layout.beforeClose depth members.isEmpty) cs (isSpace_beforeClose layout depth _) (by
        rw [Layout.write, List.length_cons, List.length_append] at hsteps
        omega)
    rw [Nat.sub_add_cancel h.1, enterMembers_nil h.2.1] at hmembers
    rw [Layout.write, List.cons_append, value,
      bind_of_eq_ok (peekPastSpace_append hblanks (by decide) _)]
    refine (bind_of_eq_ok (enter_cons h.1 _ _)).trans ?_
    rw [List.append_assoc, List.append_assoc, List.singleton_append, bind_of_eq_ok hmembers]
    rfl

/-- The items of a list are read in turn. -/
theorem items_write : ∀ (items : List Json) (levels : Nat), ReadableItems levels items →
    ∀ (depth steps : Nat) (first : Bool) (blanks cs : List Char),
      (∀ b ∈ blanks, isSpace b = true) →
      2 * ((layout.writeItems depth first items).length + 1) ≤ steps →
        Scan.items steps (levels + 1) first
          (layout.writeItems depth first items ++ (blanks ++ ']' :: cs)) =
            .ok (sortedItems items, cs)
  | [] => by
    intro levels _ depth steps first blanks cs hblanks hsteps
    obtain ⟨steps, rfl⟩ := Nat.exists_eq_add_one_of_ne_zero (show steps ≠ 0 by omega)
    rw [Scan.items]
    exact bind_of_eq_ok (listGoesOn_close hblanks first)
  | item :: rest => by
    intro levels h depth steps first blanks cs hblanks hsteps
    obtain ⟨steps, rfl⟩ := Nat.exists_eq_add_one_of_ne_zero (show steps ≠ 0 by omega)
    have hclose : EndsNumber (blanks ++ ']' :: cs) := .append hblanks (.cons (by decide) _)
    obtain ⟨c, tail, hwrite, hc⟩ := exists_write_eq_cons layout h.1 depth
    have hlength := congrArg List.length hwrite
    rw [Layout.writeItems, List.length_append, List.length_append] at hsteps
    rw [List.length_cons] at hlength
    have hitem := value_write item levels h.1 depth steps [] _ (List.forall_mem_nil _)
      (endsNumber_items layout depth rest hclose) (by omega)
    have hrest := items_write rest levels h.2 depth steps false blanks cs hblanks (by omega)
    rw [Scan.items, Layout.writeItems, List.append_assoc, List.append_assoc, hwrite,
      List.cons_append, bind_of_eq_ok (listGoesOn_item layout depth first hc)]
    rw [hwrite, List.nil_append, List.cons_append] at hitem
    refine (bind_of_eq_ok hitem).trans ?_
    exact bind_of_eq_ok hrest

/-- The members of an object are put into the table in turn. -/
theorem members_write : ∀ (members : List (String × Json)) (levels : Nat),
    ReadableMembers levels members →
    ∀ (depth steps : Nat) (first : Bool) (table : Table Json) (blanks cs : List Char),
      (∀ b ∈ blanks, isSpace b = true) →
      2 * ((layout.writeMembers depth first members).length + 1) ≤ steps →
        Scan.members steps (levels + 1) first table
          (layout.writeMembers depth first members ++ (blanks ++ '\x7d' :: cs)) =
            .ok (enterMembers table members, cs)
  | [] => by
    intro levels _ depth steps first table blanks cs hblanks hsteps
    obtain ⟨steps, rfl⟩ := Nat.exists_eq_add_one_of_ne_zero (show steps ≠ 0 by omega)
    rw [Scan.members]
    exact bind_of_eq_ok (objectGoesOn_close hblanks first)
  | (key, value) :: rest => by
    intro levels h depth steps first table blanks cs hblanks hsteps
    obtain ⟨steps, rfl⟩ := Nat.exists_eq_add_one_of_ne_zero (show steps ≠ 0 by omega)
    have hclose : EndsNumber (blanks ++ '\x7d' :: cs) := .append hblanks (.cons (by decide) _)
    rw [Layout.writeMembers] at hsteps
    simp only [List.length_append, List.length_cons] at hsteps
    have hvalue := value_write value levels h.1 depth steps layout.gap _ layout.isSpace_gap
      (endsNumber_members layout depth rest hclose) (by omega)
    have hrest := members_write rest levels h.2 depth steps false
      (table.insert key value.sorted) blanks cs hblanks (by omega)
    rw [Scan.members, Layout.writeMembers, toList_quote]
    simp only [List.append_assoc, List.cons_append, List.nil_append]
    rw [bind_of_eq_ok (objectGoesOn_item layout depth first)]
    refine (bind_of_eq_ok (string_quote key _)).trans ?_
    rw [bind_of_eq_ok (colon_cons _)]
    refine (bind_of_eq_ok hvalue).trans ?_
    exact hrest

end

/-- Nothing but blanks may stand behind a value. -/
theorem finish_of_blanks {blanks : List Char} (hblanks : ∀ b ∈ blanks, isSpace b = true) :
    finish blanks = .ok ((), []) := by
  have hdrop : blanks.dropWhile isSpace = [] := List.dropWhile_eq_nil_iff.2 hblanks
  have hpeek : peekPastSpace blanks = .ok (none, []) := by
    show Except.ok ((blanks.dropWhile isSpace).head?, blanks.dropWhile isSpace) = _
    rw [hdrop]
    rfl
  exact bind_of_eq_ok hpeek

end Scan

theorem ofText_write (layout : Layout) {j : Json} (h : j.Readable (maxDepth - 1))
    {blanks : List Char} (hblanks : ∀ b ∈ blanks, Scan.isSpace b = true) :
    ofText (layout.write 0 j ++ blanks) = .ok j.sorted := by
  have hvalue := Scan.value_write layout j (maxDepth - 1) h 0
    (2 * (layout.write 0 j ++ blanks).length + 2) [] blanks (List.forall_mem_nil _)
    (by simpa using Scan.EndsNumber.append hblanks (Scan.EndsNumber.nil))
    (by rw [List.length_append]; omega)
  have hread : Scan.readValue maxDepth (layout.write 0 j ++ blanks) = .ok (j.sorted, blanks) :=
    (Scan.bind_of_eq_ok (Scan.get_eq_ok _)).trans hvalue
  unfold ofText StateT.run
  rw [Scan.bind_of_eq_ok hread, Scan.bind_of_eq_ok (Scan.finish_of_blanks hblanks)]
  rfl

/-- A value is read from its text on one line. -/
theorem ofText_compact {j : Json} (h : j.Readable (maxDepth - 1)) :
    ofText j.compact.toList = .ok j.sorted := by
  have hread := ofText_write .compact h (List.forall_mem_nil _)
  rwa [List.append_nil, ← toList_compact] at hread

/-- A value is read from its text on several lines, with a newline behind it or without. -/
theorem ofText_pretty {j : Json} (h : j.Readable (maxDepth - 1)) {blanks : List Char}
    (hblanks : ∀ b ∈ blanks, Scan.isSpace b = true) :
    ofText (j.pretty.toList ++ blanks) = .ok j.sorted := by
  rw [pretty, toList_prettyAt]
  exact ofText_write .pretty h hblanks

end RazenLint.Json
