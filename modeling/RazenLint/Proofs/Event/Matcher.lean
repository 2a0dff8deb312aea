import Mathlib.Data.List.Sort
import RazenLint.Proofs.Event.Reading
import RazenLint.Shape

/-!
# Reading a line by matchers

The events of a line can also be found by matchers that look at the line one after the
other : a declaration with a call in the current form, one with a call in the old form,
any other declaration, an import, and then the calls in each of the two forms. A search
for calls goes on behind the head that it found last (`searchFrom`), a head that overlaps
an earlier one is left out (`leaveOut`), and the calls are sorted by their columns.

`eventsByMatchers_eq` : the events found in this way are those of the line. A search for
one form finds all heads of the form (`searchFrom_eq`), since no head begins inside
another one, and only the head of the call in a declaration is found a second time.
-/

namespace RazenLint

open Text

/-! ## Searching for heads -/

/-- The head in the given form that a text begins with. -/
def headOfForm? (legacy : Bool) (cs : List Char) : Option CallHead :=
  (headAt? cs).filter fun head => head.legacy == legacy

/-- The heads in one form from left to right, where `skip` characters of the text still
belong to the head that was found last. -/
def searchFrom (legacy : Bool) : Nat → Nat → Option Char → List Char → List (Nat × CallHead)
  | _, _, _, [] => []
  | skip + 1, column, _, c :: cs => searchFrom legacy skip (column + 1) (some c) cs
  | 0, column, previous, c :: cs =>
    match if boundaryAfter previous then headOfForm? legacy (c :: cs) else none with
    | some head =>
      (column, head) :: searchFrom legacy head.openingOffset (column + 1) (some c) cs
    | none => searchFrom legacy 0 (column + 1) (some c) cs

/-- Whether two heads in a line share a character. -/
def overlap (p q : Nat × CallHead) : Bool :=
  p.1 ≤ q.1 + q.2.openingOffset && q.1 ≤ p.1 + p.2.openingOffset

/-- Leaves out every head that overlaps one of `taken` or one that was kept before it. -/
def leaveOut (taken : List (Nat × CallHead)) : List (Nat × CallHead) → List (Nat × CallHead)
  | [] => []
  | p :: rest =>
    if taken.any (overlap p) then leaveOut taken rest else p :: leaveOut (p :: taken) rest

/-! ## The matchers -/

/-- A keyword, a name and an equals sign, whatever follows. -/
def signedName? (code : List Char) : Option Assignment := do
  let words ← wordPair? code
  let kind ← Kind.ofKeyword? (String.ofList words.first)
  if words.rest.head? = some '=' then
    return {
      keyword := words.first, keywordColumn := words.firstColumn, kind
      name := words.second, nameColumn := words.secondColumn
      valueColumn := words.restColumn + 1 }
  else none

/-- A declaration whose value begins with a call in the given form, and the head of the
call with its column. -/
def declarationWithCall? (legacy : Bool) (code : List Char) :
    Option (Assignment × (Nat × CallHead)) := do
  let assignment ← signedName? code
  let value := code.drop assignment.valueColumn
  let head ← headOfForm? legacy (trimStart value)
  return (assignment, assignment.valueColumn + (value.takeWhile isBlank).length, head)

/-- A declaration of any kind. Two equals signs declare nothing. -/
def otherDeclaration? (code : List Char) : Option Assignment :=
  (signedName? code).filter fun assignment =>
    (code.drop assignment.valueColumn).head? != some '='

/-- The declaration that an assignment makes, with the call that its value is, if it is
one, where the text of the value begins in the given column. -/
def Declaration.matched (index : Nat) (line : List Char) (assignment : Assignment)
    (valueColumn : Nat) (call : Option LibraryCall) : Declaration :=
  { Declaration.ofAssignment index line assignment with
    initializer :=
      String.ofList (expressionOf (between line valueColumn (code line).length))
    call := call.map (.ofCall line) }

/-- The calls of a line that are not bound : the heads in the current form, then those in
the old form, without those that overlap others, sorted by their columns. -/
def unboundCalls (index : Nat) (line : List Char) (taken : List (Nat × CallHead)) :
    List LibraryCall :=
  ((leaveOut taken
      (searchFrom false 0 0 none (code line) ++ searchFrom true 0 0 none (code line))).map
    fun p => LibraryCall.ofHead index line false p.1 p.2).mergeSort
      fun a b => a.librarySpan.start ≤ b.librarySpan.start

/-- The events of a line as the matchers find them, each behind those before it. -/
def eventsByMatchers (index : Nat) (line : List Char) : List Event :=
  if isCommentLine line then []
  else
    match (declarationWithCall? false (code line)).or (declarationWithCall? true (code line)) with
    | some (assignment, head) =>
      let call := LibraryCall.ofHead index line true head.1 head.2
      .declaration (.matched index line assignment head.1 (some call)) :: .call call ::
        (unboundCalls index line [head]).map .call
    | none =>
      match otherDeclaration? (code line) with
      | some assignment =>
        .declaration (.matched index line assignment assignment.valueColumn none) ::
          (unboundCalls index line []).map .call
      | none =>
        (importWords? (code line)).toList.map (fun words => .imported (.ofWords index words)) ++
          (unboundCalls index line []).map .call

/-! ## A search finds every head -/

/-- A search passes over the rest of the head that it found last. -/
theorem searchFrom_append (legacy : Bool) (rest : List Char) : ∀ (cs : List Char) (column : Nat)
    (previous : Option Char), searchFrom legacy cs.length column previous (cs ++ rest) =
      searchFrom legacy 0 (column + cs.length) (cs.getLast?.or previous) rest
  | [], _, _ => rfl
  | c :: cs, column, previous => by
    rw [List.length_cons, List.cons_append, searchFrom, searchFrom_append legacy rest cs,
      getLast?_cons_or, show column + 1 + cs.length = column + (cs.length + 1) by omega]

theorem headOfForm?_eq_some_iff {legacy : Bool} {cs : List Char} {head : CallHead} :
    headOfForm? legacy cs = some head ↔ headAt? cs = some head ∧ head.legacy = legacy := by
  simp [headOfForm?, Option.filter_eq_some_iff]

/-- A search for a form goes on behind a head that has it. -/
theorem searchFrom_written_append {legacy : Bool} {head : CallHead} {blanks : List Char}
    (hfits : head.Fits blanks) (hlegacy : head.legacy = legacy) {previous : Option Char}
    (hboundary : boundaryAfter previous = true) (column : Nat) (rest : List Char) :
    searchFrom legacy 0 column previous (head.written blanks ++ rest) = (column, head) ::
      searchFrom legacy 0 (column + (head.openingOffset + 1)) (some '(') rest := by
  have hhead : headOfForm? legacy (head.written blanks ++ rest) = some head :=
    headOfForm?_eq_some_iff.2 ⟨headAt?_eq_some_iff.2 ⟨blanks, rest, rfl, hfits⟩, hlegacy⟩
  have hlength := CallHead.length_written hfits.length
  have hlast := head.getLast?_written blanks
  cases hwritten : head.written blanks with
  | nil => simp [hwritten] at hlast
  | cons c cs =>
    rw [hwritten] at hhead hlength hlast
    have hcs : cs.length = head.openingOffset := Nat.succ.inj hlength
    have hor : cs.getLast?.or (some c) = some '(' := by
      rw [← getLast?_cons_or c cs none, hlast]
      rfl
    rw [List.cons_append] at hhead ⊢
    rw [searchFrom, if_pos hboundary, hhead]
    dsimp only
    rw [← hcs, searchFrom_append, hor, Nat.add_assoc, Nat.add_comm 1]

/-- A search for one form finds the heads that have it : no other head begins inside a
head that was found. -/
theorem searchFrom_eq (legacy : Bool) (column : Nat) (previous : Option Char) (cs : List Char) :
    searchFrom legacy 0 column previous cs =
      (callHeadsFrom column previous cs).filter fun p => p.2.legacy == legacy := by
  induction hlength : cs.length using Nat.strong_induction_on generalizing column previous cs with
  | _ n ih =>
    cases cs with
    | nil => rfl
    | cons c cs =>
      have hlater := ih cs.length (by simp [← hlength]) (column + 1) (some c) cs rfl
      by_cases hfound : boundaryAfter previous = true ∧
          ∃ head, headAt? (c :: cs) = some head ∧ head.legacy = legacy
      · obtain ⟨hboundary, head, hhead, hlegacy⟩ := hfound
        obtain ⟨blanks, rest, hcs, hfits⟩ := headAt?_eq_some_iff.1 hhead
        have hrest : rest.length < n := by
          have := congrArg List.length hcs
          rw [List.length_append, CallHead.length_written hfits.length] at this
          omega
        rw [hcs, searchFrom_written_append hfits hlegacy hboundary,
          callHeadsFrom_written_append hfits hboundary,
          List.filter_cons_of_pos (by simpa using hlegacy), ih _ hrest _ _ rest rfl]
      · have hnone : (if boundaryAfter previous then headOfForm? legacy (c :: cs) else none) =
            none := by
          rw [Option.eq_none_iff_forall_ne_some]
          intro head hhead
          obtain ⟨hboundary, hhead⟩ := Option.ite_none_right_eq_some.1 hhead
          exact hfound ⟨hboundary, head, headOfForm?_eq_some_iff.1 hhead⟩
        rw [searchFrom, hnone, callHeadsFrom, hlater]
        dsimp only
        split
        · rename_i hboundary
          split
          · rename_i head hhead
            rw [List.filter_cons_of_neg]
            simpa using fun hlegacy => hfound ⟨hboundary, head, hhead, hlegacy⟩
          · rfl
        · rfl

/-! ## The calls that are kept -/

theorem leaveOut_eq {heads : List (Nat × CallHead)}
    (h : heads.Pairwise fun p q => overlap q p = false) (taken : List (Nat × CallHead)) :
    leaveOut taken heads = heads.filter fun p => !taken.any (overlap p) := by
  induction heads generalizing taken with
  | nil => rfl
  | cons p rest ih =>
    obtain ⟨hp, hrest⟩ := List.pairwise_cons.1 h
    rw [leaveOut]
    by_cases hany : taken.any (overlap p) = true
    · rw [if_pos hany, ih hrest, List.filter_cons_of_neg (by simpa using hany)]
    · rw [if_neg hany, ih hrest, List.filter_cons_of_pos (by simpa using hany)]
      congr 1
      refine List.filter_congr fun q hq => ?_
      rw [List.any_cons, hp q hq, Bool.false_or]

/-- Both searches together find the heads of a line. -/
theorem perm_searchFrom (code : List Char) :
    (searchFrom false 0 0 none code ++ searchFrom true 0 0 none code).Perm (callHeads code) := by
  have hforms : (callHeads code).filter (fun p => p.2.legacy == true) =
      (callHeads code).filter fun p => !(p.2.legacy == false) :=
    List.filter_congr fun p _ => by cases p.2.legacy <;> rfl
  rw [searchFrom_eq, searchFrom_eq, ← callHeads, hforms]
  exact List.filter_append_perm _ _

theorem overlap_comm (p q : Nat × CallHead) : overlap p q = overlap q p :=
  Bool.and_comm _ _

/-- No two heads of a line overlap. -/
theorem pairwise_overlap (code : List Char) :
    (callHeads code).Pairwise fun p q => overlap q p = false := by
  refine (pairwise_callHeads_apart code).imp fun h => ?_
  simp only [overlap, Bool.and_eq_false_iff, decide_eq_false_iff_not]
  omega

/-- The calls that are not bound, from left to right. -/
theorem unboundCalls_eq (index : Nat) (line : List Char) (taken : List (Nat × CallHead)) :
    unboundCalls index line taken =
      ((callHeads (code line)).filter fun p => !taken.any (overlap p)).map
        fun p => .ofHead index line false p.1 p.2 := by
  have hfree := (pairwise_overlap (code line)).perm (perm_searchFrom (code line)).symm
    fun {p q} h => (overlap_comm p q).trans h
  have hcolumns := pairwise_callHeads (code line)
  have hinj : ((callHeads (code line)).map Prod.fst).Nodup :=
    List.pairwise_map.2 (hcolumns.imp Nat.ne_of_lt)
  rw [unboundCalls, leaveOut_eq hfree, ← List.map_mergeSort
    (r := fun p q : Nat × CallHead => p.1 ≤ q.1)
    (s := fun a b : LibraryCall => a.librarySpan.start ≤ b.librarySpan.start)
    (f := fun p => .ofHead index line false p.1 p.2) fun p _ q _ => rfl]
  congr 1
  have hperm := (perm_searchFrom (code line)).filter fun p => !taken.any (overlap p)
  have hsorted : ((callHeads (code line)).filter fun p => !taken.any (overlap p)).Pairwise
      fun p q => p.1 ≤ q.1 := (hcolumns.filter _).imp Nat.le_of_lt
  have hmerged (heads : List (Nat × CallHead)) :
      (heads.mergeSort fun p q => p.1 ≤ q.1).Pairwise fun p q => p.1 ≤ q.1 :=
    (List.pairwise_mergeSort (fun p q r => by simpa using Nat.le_trans)
      (fun p q => by simpa using Nat.le_total p.1 q.1) heads).imp of_decide_eq_true
  refine ((List.mergeSort_perm _ _).trans hperm).eq_of_pairwise (fun p q hp hq hpq hqp => ?_)
    (hmerged _) hsorted
  have hp := hperm.mem_iff.1 (List.mem_mergeSort.1 hp)
  exact List.inj_on_of_nodup_map hinj (List.mem_of_mem_filter hp) (List.mem_of_mem_filter hq)
    (Nat.le_antisymm hpq hqp)

/-! ## What the matchers find -/

theorem otherDeclaration?_eq (code : List Char) : otherDeclaration? code = assignment? code := by
  unfold otherDeclaration? signedName? assignment?
  cases hwords : wordPair? code with
  | none => rfl
  | some words =>
    cases hkind : Kind.ofKeyword? (String.ofList words.first) with
    | none => simp [hkind]
    | some kind =>
      have hdrop := drop_restColumn hwords
      cases hrest : words.rest with
      | nil => simp [hkind, hrest]
      | cons c value =>
        have hvalue : code[words.restColumn + 1]? = value.head? := by
          rw [← List.head?_drop, ← List.drop_drop, hdrop, hrest]
          rfl
        by_cases hsign : c = '='
        · by_cases hdouble : value.head? = some '=' <;>
            simp [hkind, hrest, hsign, hvalue, hdouble]
        · simp [hkind, hrest, hsign]

theorem assignment?_eq_some_iff {code : List Char} {a : Assignment} : assignment? code = some a ↔
    signedName? code = some a ∧ (code.drop a.valueColumn).head? ≠ some '=' := by
  rw [← otherDeclaration?_eq, otherDeclaration?, Option.filter_eq_some_iff, bne_iff_ne]

/-- A declaration with a call is a declaration of which the value begins with a call. -/
theorem declarationWithCall?_eq_some_iff {legacy : Bool} {code : List Char} {a : Assignment}
    {p : Nat × CallHead} : declarationWithCall? legacy code = some (a, p) ↔
      assignment? code = some a ∧ a.head? code = some p ∧ p.2.legacy = legacy := by
  unfold declarationWithCall?
  simp only [Option.bind_eq_bind, Option.bind_eq_some_iff, headOfForm?_eq_some_iff,
    assignment?_eq_some_iff, Assignment.head?, Option.map_eq_some_iff]
  constructor
  · rintro ⟨a, ha, head, ⟨hhead, hlegacy⟩, hp⟩
    cases hp
    refine ⟨⟨ha, fun hsign => ?_⟩, ⟨head, hhead, rfl⟩, hlegacy⟩
    -- a value that begins with an equals sign begins with no head
    obtain ⟨value, hvalue⟩ := List.head?_eq_some_iff.1 hsign
    rw [hvalue, trimStart_of_not_blank (by decide)] at hhead
    exact absurd hhead (by simp [headAt?, takeIdent?, isIdentStart])
  · rintro ⟨⟨ha, -⟩, ⟨head, hhead, rfl⟩, hlegacy⟩
    exact ⟨a, ha, head, ⟨hhead, hlegacy⟩, rfl⟩

/-- Of the two matchers for declarations with a call at most one finds something, and
they leave no such declaration out. -/
theorem declarationWithCall?_or (code : List Char) :
    (declarationWithCall? false code).or (declarationWithCall? true code) =
      (assignment? code).bind fun a => (a.head? code).map fun p => (a, p) := by
  ext ⟨a, p⟩
  simp only [Option.or_eq_some_iff, declarationWithCall?_eq_some_iff, Option.bind_eq_some_iff,
    Option.map_eq_some_iff, Prod.mk.injEq]
  constructor
  · rintro (⟨ha, hp, -⟩ | ⟨-, ha, hp, -⟩) <;> exact ⟨a, ha, p, hp, rfl, rfl⟩
  · rintro ⟨a, ha, p, hp, rfl, rfl⟩
    cases hlegacy : p.2.legacy with
    | false => exact Or.inl ⟨ha, hp, rfl⟩
    | true =>
      refine Or.inr ⟨?_, ha, hp, rfl⟩
      rw [Option.eq_none_iff_forall_ne_some]
      rintro ⟨b, q⟩ h
      obtain ⟨hb, hq, hform⟩ := declarationWithCall?_eq_some_iff.1 h
      rw [ha, Option.some.injEq] at hb
      rw [← hb, hp, Option.some.injEq] at hq
      rw [← hq, hlegacy] at hform
      exact absurd hform (by simp)

/-- The text of a value is the same from its first column on and from the call that it
begins with. -/
theorem expressionOf_between {line : List Char} {a : Assignment} {p : Nat × CallHead}
    (ha : assignment? (code line) = some a) (hp : a.head? (code line) = some p) :
    expressionOf (between line p.1 (code line).length) =
      expressionOf (between line a.valueColumn (code line).length) := by
  obtain ⟨front, back, hline, hfront, -, hback⟩ := exists_append_of_assignment? ha
  obtain ⟨head, -, rfl⟩ := Option.map_eq_some_iff.1 hp
  set value := (code line).drop a.valueColumn with hvalue
  have hblank : ∀ c ∈ value.takeWhile isBlank, isBlank c = true :=
    fun c hc => isBlank_of_mem_takeWhile hc
  obtain ⟨rest, rfl, -⟩ := exists_append_of_codeFrom_eq_plain
    (fun c hc => isQuote_of_isBlank (hblank c hc))
    (hback.trans (takeWhile_append_trimStart value).symm)
  have hdrop : line.drop a.valueColumn = value.takeWhile isBlank ++ rest := by
    rw [hline, ← hfront, List.drop_left]
  have hlength : (value.takeWhile isBlank).length ≤ (code line).length - a.valueColumn := by
    rw [← List.length_drop]
    exact (List.takeWhile_prefix _).length_le
  have hsplit : between line a.valueColumn (code line).length = value.takeWhile isBlank ++
      between line (a.valueColumn + (value.takeWhile isBlank).length) (code line).length := by
    rw [between, between, ← List.drop_drop, hdrop, List.drop_left, List.take_append,
      List.take_of_length_le hlength, Nat.sub_sub]
  rw [hsplit, expressionOf, expressionOf, trim, trim, trimStart_append_of_blank hblank]

/-- A declaration as it is matched is the one that the assignment makes. -/
theorem matched_ofAssignment (index : Nat) (line : List Char) {a : Assignment}
    (ha : assignment? (code line) = some a) :
    Declaration.ofAssignment index line a = match a.head? (code line) with
      | some p => .matched index line a p.1 (some (.ofHead index line true p.1 p.2))
      | none => .matched index line a a.valueColumn none := by
  cases hhead : a.head? (code line) with
  | none => simp [Declaration.ofAssignment, Declaration.matched, hhead, expressionOf]
  | some p =>
    simp only [Declaration.matched, expressionOf_between ha hhead]
    simp [Declaration.ofAssignment, hhead, expressionOf]

theorem unboundCalls_nil (index : Nat) (line : List Char) :
    unboundCalls index line [] = callsOfLine index line none := by
  simp [unboundCalls_eq, callsOfLine]

/-- The head that was matched with a declaration is bound, and the others are not. -/
theorem callsOfLine_of_head? (index : Nat) {line : List Char} {a : Assignment}
    {p : Nat × CallHead} (ha : assignment? (code line) = some a)
    (hp : a.head? (code line) = some p) : callsOfLine index line (some p.1) =
      .ofHead index line true p.1 p.2 :: unboundCalls index line [p] := by
  obtain ⟨rest, hheads⟩ := callHeads_of_head? ha hp
  have hapart := pairwise_overlap (code line)
  have hcolumns := pairwise_callHeads (code line)
  rw [hheads, List.pairwise_cons] at hapart hcolumns
  rw [unboundCalls_eq, callsOfLine, hheads, List.map_cons, List.filter_cons_of_neg,
    List.filter_eq_self.2]
  · simp only [decide_true, List.cons.injEq, true_and]
    refine List.map_congr_left fun q hq => ?_
    have hne := Nat.ne_of_lt (hcolumns.1 q hq)
    simp [hne]
  · intro q hq
    simp [hapart.1 q hq]
  · simp [overlap]

/-- The matchers find the events of a line. -/
theorem eventsByMatchers_eq (index : Nat) (line : List Char) :
    eventsByMatchers index line = eventsOfLine index line := by
  unfold eventsByMatchers eventsOfLine
  split
  · rfl
  · rw [declarationWithCall?_or, otherDeclaration?_eq]
    cases ha : assignment? (code line) with
    | none => simp only [Option.bind_none, unboundCalls_nil]
    | some a =>
      have hdeclaration := matched_ofAssignment index line ha
      cases hp : a.head? (code line) with
      | none =>
        rw [hp] at hdeclaration
        simp only [Option.bind_some, hp, Option.map_none, hdeclaration, unboundCalls_nil]
      | some p =>
        rw [hp] at hdeclaration
        simp only [Option.bind_some, hp, Option.map_some, hdeclaration,
          callsOfLine_of_head? index ha hp, List.map_cons]

end RazenLint
