import Mathlib.Data.List.Pairwise
import RazenLint.Proofs.Event.MaskBytes

/-!
# Events in byte offsets

The places of what the matchers find in the masked copy of a line are byte offsets. At
these offsets the line itself is cut, and from them the columns are counted
(`eventsOfLineInBytes?`). `eventsInBytes?_eq` : no offset is out of range or inside a
character, and the events are those of the text.

Every place that is used is the place of a column (`spread`). For a head, a declaration
and an import this is so because no literal stands in them, and for a closing parenthesis
because it has the same place in the copy (`closingParen_codeBytes`).
-/

namespace RazenLint

open Text

/-! ## Events from byte offsets -/

section

variable (index : Nat) (line masked : List Char)

/-- The span between two byte offsets of a line. -/
def Span.ofBytes? (start stop : Nat) : Option Span := do
  let start ← column? line start
  let stop ← column? line stop
  return ⟨index, start, stop⟩

/-- The call with the given head in the given place of the masked copy. -/
def LibraryCall.ofHeadInBytes? (bound : Bool) (p : Nat × CallHead) : Option LibraryCall := do
  let offset (place : Nat) := byteLength (masked.take place)
  let opening := p.1 + p.2.openingOffset
  let function := p.1 + p.2.functionOffset
  let closing := closingParen masked opening
  let librarySpan ← Span.ofBytes? index line (offset p.1) (offset (p.1 + p.2.library.length))
  let functionSpan ←
    Span.ofBytes? index line (offset function) (offset (function + p.2.function.length))
  let callSpan ← Span.ofBytes? index line (offset p.1) (offset (closing.getD opening + 1))
  let arguments ← match closing with
    | some closing => (sliceBytes? line (offset (opening + 1)) (offset closing)).map some
    | none => some none
  return {
    library := String.ofList p.2.library
    function := String.ofList p.2.function
    librarySpan, functionSpan, callSpan
    arguments := arguments.map String.ofList
    legacy := p.2.legacy
    bound }

/-- The call of a declaration. What follows it is cut off the copy at the offset that its
last column has in the line. -/
def BoundCall.ofCallInBytes? (call : LibraryCall) : Option BoundCall := do
  let offset ← byteOffset? line call.callSpan.stop
  let (_, rest) ← splitAtByte? masked offset
  return {
    library := call.library
    function := call.function
    legacy := call.legacy
    spansInitializer := call.arguments.isSome && ((trim rest).isEmpty || trim rest = [';']) }

/-- The declaration that an assignment in the copy makes, where the text of the value
begins in the given place. -/
def Declaration.matchedInBytes? (assignment : Assignment) (valuePlace : Nat)
    (call : Option LibraryCall) : Option Declaration := do
  let offset (place : Nat) := byteLength (masked.take place)
  let nameSpan ← Span.ofBytes? index line (offset assignment.nameColumn)
    (offset (assignment.nameColumn + assignment.name.length))
  let statementSpan ← Span.ofBytes? index line (offset assignment.keywordColumn)
    (byteLength (trimEnd masked))
  let value ← sliceBytes? line (offset valuePlace) (byteLength masked)
  let call ← match call with
    | some call => (BoundCall.ofCallInBytes? line masked call).map some
    | none => some none
  return {
    keyword := String.ofList assignment.keyword
    kind := assignment.kind
    name := String.ofList assignment.name
    nameSpan, statementSpan
    initializer := String.ofList (expressionOf value)
    call }

def Import.ofWordsInBytes? (words : WordPair) : Option Import := do
  let offset (place : Nat) := byteLength (masked.take place)
  let span ← Span.ofBytes? index line (offset words.secondColumn)
    (offset (words.secondColumn + words.second.length))
  return { keyword := String.ofList words.first, name := String.ofList words.second, span }

/-- The calls that are not bound, without heads that overlap others. -/
def unboundCallsInBytes? (taken : List (Nat × CallHead)) : Option (List LibraryCall) := do
  let heads := leaveOut taken (searchFrom false 0 0 none masked ++ searchFrom true 0 0 none masked)
  let calls ← heads.mapM (LibraryCall.ofHeadInBytes? index line masked false)
  return calls.mergeSort fun a b => a.librarySpan.start ≤ b.librarySpan.start

end

/-- The events of a line as the matchers find them in the copy of the line. -/
def eventsOfLineInBytes? (index : Nat) (line : List Char) : Option (List Event) :=
  if isCommentLine line then some []
  else
    let masked := codeBytes line
    match (declarationWithCall? false masked).or (declarationWithCall? true masked) with
    | some (assignment, head) => do
      let call ← LibraryCall.ofHeadInBytes? index line masked true head
      let declaration ←
        Declaration.matchedInBytes? index line masked assignment head.1 (some call)
      let calls ← unboundCallsInBytes? index line masked [head]
      return .declaration declaration :: .call call :: calls.map .call
    | none =>
      match otherDeclaration? masked with
      | some assignment => do
        let declaration ← Declaration.matchedInBytes? index line masked assignment
          assignment.valueColumn none
        let calls ← unboundCallsInBytes? index line masked []
        return .declaration declaration :: calls.map .call
      | none => do
        let items ← (importWords? masked).toList.mapM (Import.ofWordsInBytes? index line masked)
        let calls ← unboundCallsInBytes? index line masked []
        return items.map .imported ++ calls.map .call

/-- The events of lines of which the first has the given index. -/
def eventsFromInBytes? (index : Nat) : List (List Char) → Option (List Event)
  | [] => some []
  | line :: rest => do
    let first ← eventsOfLineInBytes? index line
    let later ← eventsFromInBytes? (index + 1) rest
    return first ++ later

/-- The events of a text, by matchers on copies of its lines. -/
def eventsInBytes? (text : List Char) : Option (List Event) :=
  eventsFromInBytes? 0 (lines text)

/-! ## Spans -/

variable (index : Nat) {line : List Char}

theorem Span.ofBytes?_spread (line : List Char) {a b : Nat} (ha : a ≤ (code line).length)
    (hb : b ≤ (code line).length) :
    Span.ofBytes? index line (byteLength ((codeBytes line).take (spread line a)))
      (byteLength ((codeBytes line).take (spread line b))) = some ⟨index, a, b⟩ := by
  simp [Span.ofBytes?, column?_spread ha, column?_spread hb]

/-! ## Calls -/

/-- A head has its places one after the other. -/
theorem spread_of_mem_callHeads {column : Nat} {head : CallHead}
    (h : (column, head) ∈ callHeads (code line)) {i : Nat} (hi : i ≤ head.openingOffset + 1) :
    spread line (column + i) = spread line column + i := by
  obtain ⟨front, blanks, back, rfl, rfl, hplaced⟩ := exists_placed_of_mem_callHeads h
  rw [← CallHead.length_written hplaced.fits.length] at hi
  have hplain : ∀ c ∈ head.written blanks, isQuote c = false :=
    fun c hc => hplaced.fits.isQuote_of_mem hc
  have hstart := spread_append_of_plain hplaced.reading hplain (Nat.zero_le _) back
  rw [spread_append_of_plain hplaced.reading hplain hi]
  exact congrArg (· + i) hstart.symm

/-- The parenthesis of a head is closed behind it and in the code. -/
theorem lt_of_closingParen {column closing : Nat} {head : CallHead}
    (h : (column, head) ∈ callHeads (code line))
    (hclosing : closingParen (code line) (column + head.openingOffset) = some closing) :
    column + head.openingOffset < closing := by
  obtain ⟨front, blanks, back, rfl, rfl, hplaced⟩ := exists_placed_of_mem_callHeads h
  rw [closingParen_written hplaced.fits hplaced.reading hplaced.uncommented] at hclosing
  obtain ⟨n, -, rfl⟩ := Option.map_eq_some_iff.1 hclosing
  omega

/-- A call is found in the line by the offsets of its head in the copy. -/
theorem LibraryCall.ofHeadInBytes?_eq (bound : Bool) {column : Nat} {head : CallHead}
    (h : (column, head) ∈ callHeads (code line)) :
    LibraryCall.ofHeadInBytes? index line (codeBytes line) bound (spread line column, head) =
      some (.ofHead index line bound column head) := by
  have hle := (le_of_mem_callHeadsFrom h).2
  rw [Nat.zero_add] at hle
  have hlibrary : head.library.length ≤ head.openingOffset + 1 := by
    unfold CallHead.openingOffset CallHead.functionOffset
    omega
  have hfunction : head.functionOffset + head.function.length ≤ head.openingOffset + 1 := by
    unfold CallHead.openingOffset
    omega
  have hplace := fun i => spread_of_mem_callHeads h (i := i)
  have hlibrarySpan : Span.ofBytes? index line
      (byteLength ((codeBytes line).take (spread line column)))
      (byteLength ((codeBytes line).take (spread line column + head.library.length))) =
      some ⟨index, column, column + head.library.length⟩ := by
    rw [← hplace _ hlibrary]
    exact Span.ofBytes?_spread index _ (by omega) (by omega)
  have hfunctionSpan : Span.ofBytes? index line
      (byteLength ((codeBytes line).take (spread line column + head.functionOffset)))
      (byteLength ((codeBytes line).take
        (spread line column + head.functionOffset + head.function.length))) =
      some ⟨index, column + head.functionOffset,
        column + head.functionOffset + head.function.length⟩ := by
    rw [Nat.add_assoc, Nat.add_assoc, ← hplace _ hfunction, ← hplace _ (by omega)]
    exact Span.ofBytes?_spread index _ (by omega) (by omega)
  have hopening := hplace head.openingOffset (Nat.le_succ _)
  have hbehind := hplace (head.openingOffset + 1) le_rfl
  have hclosing := closingParen_codeBytes hle.le
  rw [hopening] at hclosing
  rw [← Nat.add_assoc, ← Nat.add_assoc] at hbehind
  unfold LibraryCall.ofHeadInBytes? LibraryCall.ofHead
  simp only [hlibrarySpan, hfunctionSpan, hclosing, Option.bind_eq_bind, Option.bind_some]
  cases hclosed : closingParen (code line) (column + head.openingOffset) with
  | none =>
    have hcallSpan := Span.ofBytes?_spread index line (a := column) (by omega) hle
    rw [Nat.succ_eq_add_one, hbehind] at hcallSpan
    simp [hcallSpan]
  | some closing =>
    have hsign := getElem?_closingParen hclosed
    have hlt := lt_of_closingParen h hclosed
    have hend : closing < (code line).length := (List.getElem?_eq_some_iff.1 hsign).1
    have hcallSpan := Span.ofBytes?_spread index line (a := column) (by omega) hend
    rw [Nat.succ_eq_add_one, spread_succ hsign (by decide)] at hcallSpan
    have harguments := sliceBytes?_spread hlt hend.le
    rw [Nat.succ_eq_add_one, hbehind] at harguments
    simp [hcallSpan, harguments, between]

theorem BoundCall.ofCallInBytes?_eq {call : LibraryCall}
    (h : call.callSpan.stop ≤ (code line).length) :
    BoundCall.ofCallInBytes? line (codeBytes line) call = some (.ofCall line call) := by
  have hoffset : byteOffset? line call.callSpan.stop =
      some (byteLength ((codeBytes line).take (spread line call.callSpan.stop))) := by
    rw [byteOffset?_eq, if_pos (h.trans (length_code_le line)), byteLength_take_spread h]
  have htrim : trim ((codeBytes line).drop (spread line call.callSpan.stop)) = [';'] ↔
      trim ((code line).drop call.callSpan.stop) = [';'] := by
    rw [trim_eq_singleton_iff (by decide), trim_eq_singleton_iff (by decide), drop_spread h,
      drop_code h, filter_codeBytesFrom]
  have hempty : (trim ((codeBytes line).drop (spread line call.callSpan.stop))).isEmpty =
      (trim ((code line).drop call.callSpan.stop)).isEmpty := by
    rw [Bool.eq_iff_iff, List.isEmpty_iff, List.isEmpty_iff, trim_eq_nil_iff, trim_eq_nil_iff,
      drop_spread h, drop_code h]
    simp only [mem_codeBytesFrom_iff]
  simp [BoundCall.ofCallInBytes?, BoundCall.ofCall, endsAfter, hoffset, splitAtByte?_take, htrim,
    hempty]

theorem stop_callSpan_ofHead_le {column : Nat} {head : CallHead} (bound : Bool)
    (h : (column, head) ∈ callHeads (code line)) :
    (LibraryCall.ofHead index line bound column head).callSpan.stop ≤ (code line).length := by
  have hle := (le_of_mem_callHeadsFrom h).2
  rw [Nat.zero_add] at hle
  simp only [LibraryCall.ofHead]
  cases hclosed : closingParen (code line) (column + head.openingOffset) with
  | none => exact hle
  | some closing => exact (List.getElem?_eq_some_iff.1 (getElem?_closingParen hclosed)).1

/-! ## Calls that are not bound -/

theorem overlap_iff_eq {code : List Char} {p q : Nat × CallHead} (hp : p ∈ callHeads code)
    (hq : q ∈ callHeads code) : overlap p q = true ↔ p = q := by
  constructor
  · intro h
    by_contra hne
    have hsymm : Std.Symm fun p q => overlap q p = false :=
      ⟨fun p q h => (overlap_comm p q).trans h⟩
    have hapart := (pairwise_overlap code).forall hq hp (Ne.symm hne)
    rw [h] at hapart
    exact absurd hapart (by simp)
  · rintro rfl
    simp [overlap]

/-- What is left out does not depend on the places, as long as the same heads overlap. -/
theorem leaveOut_map {g : Nat × CallHead → Nat × CallHead} {all : List (Nat × CallHead)}
    (hg : ∀ p ∈ all, ∀ q ∈ all, overlap (g p) (g q) = overlap p q) :
    ∀ {heads taken : List (Nat × CallHead)}, heads ⊆ all → taken ⊆ all →
      leaveOut (taken.map g) (heads.map g) = (leaveOut taken heads).map g
  | [], _, _, _ => rfl
  | p :: heads, taken, hheads, htaken => by
    have hp : p ∈ all := hheads List.mem_cons_self
    have hrest : heads ⊆ all := fun q hq => hheads (List.mem_cons_of_mem _ hq)
    have hany : (taken.map g).any (overlap (g p)) = taken.any (overlap p) := by
      rw [List.any_map, Bool.eq_iff_iff, List.any_eq_true, List.any_eq_true]
      refine exists_congr fun q => and_congr_right fun hq => ?_
      rw [Function.comp_apply, hg p hp q (htaken hq)]
    rw [List.map_cons, leaveOut, leaveOut, hany]
    split
    · exact leaveOut_map hg hrest htaken
    · rw [List.map_cons, ← leaveOut_map hg hrest (List.cons_subset.2 ⟨hp, htaken⟩), List.map_cons]

theorem leaveOut_subset (taken : List (Nat × CallHead)) :
    ∀ heads : List (Nat × CallHead), leaveOut taken heads ⊆ heads
  | [] => List.Subset.refl []
  | p :: heads => by
    rw [leaveOut]
    split
    · exact fun q hq => List.mem_cons_of_mem p (leaveOut_subset taken heads hq)
    · exact List.cons_subset_cons p (leaveOut_subset (p :: taken) heads)

/-- The place of a head in the copy. -/
def placeInCopy (line : List Char) (p : Nat × CallHead) : Nat × CallHead :=
  (spread line p.1, p.2)

theorem searchFrom_codeBytes (legacy : Bool) (line : List Char) :
    searchFrom legacy 0 0 none (codeBytes line) =
      (searchFrom legacy 0 0 none (code line)).map (placeInCopy line) := by
  rw [searchFrom_eq, searchFrom_eq, ← callHeads, ← callHeads, callHeads_codeBytes,
    List.filter_map]
  rfl

/-- The same heads overlap in the copy. -/
theorem overlap_placeInCopy {p q : Nat × CallHead} (hp : p ∈ callHeads (code line))
    (hq : q ∈ callHeads (code line)) :
    overlap (placeInCopy line p) (placeInCopy line q) = overlap p q := by
  have hheads : callHeads (codeBytes line) = (callHeads (code line)).map (placeInCopy line) :=
    callHeads_codeBytes line
  have hnodup : ((callHeads (code line)).map (placeInCopy line)).Nodup := by
    rw [← hheads]
    refine (pairwise_callHeads (codeBytes line)).imp fun {p q} hlt heq => ?_
    rw [heq] at hlt
    exact absurd hlt (Nat.lt_irrefl _)
  have hmem : ∀ {p}, p ∈ callHeads (code line) → placeInCopy line p ∈ callHeads (codeBytes line) :=
    fun hp => hheads ▸ List.mem_map_of_mem hp
  rw [Bool.eq_iff_iff, overlap_iff_eq (hmem hp) (hmem hq), overlap_iff_eq hp hq]
  exact ⟨fun h => List.inj_on_of_nodup_map hnodup hp hq h, fun h => h ▸ rfl⟩

theorem mapM_map_eq_some {α β γ : Type} {f : β → Option γ} {g : α → β} {k : α → γ} :
    ∀ {xs : List α}, (∀ x ∈ xs, f (g x) = some (k x)) → (xs.map g).mapM f = some (xs.map k)
  | [], _ => rfl
  | x :: xs, h => by
    rw [List.map_cons, List.mapM_cons, h x List.mem_cons_self,
      mapM_map_eq_some fun y hy => h y (List.mem_cons_of_mem _ hy)]
    rfl

theorem unboundCallsInBytes?_eq {taken : List (Nat × CallHead)}
    (htaken : taken ⊆ callHeads (code line)) :
    unboundCallsInBytes? index line (codeBytes line) (taken.map (placeInCopy line)) =
      some (unboundCalls index line taken) := by
  have hheads : searchFrom false 0 0 none (code line) ++ searchFrom true 0 0 none (code line) ⊆
      callHeads (code line) := (perm_searchFrom (code line)).subset
  have hleft := leaveOut_map (fun p hp q hq => overlap_placeInCopy hp hq) hheads htaken
  have hcalls := mapM_map_eq_some
    (f := LibraryCall.ofHeadInBytes? index line (codeBytes line) false) (g := placeInCopy line)
    (k := fun p => LibraryCall.ofHead index line false p.1 p.2)
    fun p hp => LibraryCall.ofHeadInBytes?_eq index false (hheads (leaveOut_subset taken _ hp))
  simp only [unboundCallsInBytes?, searchFrom_codeBytes, ← List.map_append, hleft, hcalls,
    Option.bind_eq_bind, Option.bind_some]
  rfl

/-! ## Declarations and imports -/

/-- Columns in front of the first literal are places. -/
theorem spread_of_plain {plain value : List Char} (hcode : code line = plain ++ value)
    (hplain : ∀ c ∈ plain, isQuote c = false) {i : Nat} (hi : i ≤ plain.length) :
    spread line i = i := by
  obtain ⟨back, rfl, -⟩ := exists_append_of_codeFrom_eq_plain hplain hcode
  have h := spread_append_of_plain (Reading.after_nil .code) hplain hi back
  simpa [maskBytes, maskBytesFrom] using h

/-- The places of a declaration are its columns. -/
theorem spread_of_assignment? {a : Assignment} (ha : assignment? (code line) = some a) {i : Nat}
    (hi : i ≤ a.valueColumn) : spread line i = i := by
  obtain ⟨plain, value, hcode, hlength, hplain, -⟩ :=
    exists_of_signedName? (assignment?_eq_some_iff.1 ha).1
  exact spread_of_plain hcode hplain (hlength ▸ hi)

/-- The whole copy is in front of the last column of the code. -/
theorem take_spread_length (line : List Char) :
    (codeBytes line).take (spread line (code line).length) = codeBytes line := by
  have hdrop : (codeBytes line).drop (spread line (code line).length) = [] := by
    rw [List.eq_nil_iff_forall_not_mem]
    intro c hc
    rw [drop_spread le_rfl, mem_codeBytesFrom_iff, ← drop_code le_rfl, List.drop_length] at hc
    exact absurd hc List.not_mem_nil
  exact List.take_of_length_le (List.drop_eq_nil_iff.1 hdrop)

theorem take_length_trimEnd (line : List Char) :
    (codeBytes line).take (spread line (trimEnd (code line)).length) =
      trimEnd (codeBytes line) := by
  rw [← length_trimEnd_codeBytes]
  exact (List.prefix_iff_eq_take.1 (List.rdropWhile_prefix isBlank (codeBytes line))).symm

theorem Declaration.matchedInBytes?_eq {a : Assignment} {valueColumn : Nat}
    (call : Option LibraryCall) (ha : assignment? (code line) = some a)
    (hvalue : valueColumn ≤ (code line).length) (hplace : spread line valueColumn = valueColumn)
    (hcall : ∀ c ∈ call, c.callSpan.stop ≤ (code line).length) :
    Declaration.matchedInBytes? index line (codeBytes line) a valueColumn call =
      some (.matched index line a valueColumn call) := by
  have hcolumns := columns_of_assignment? ha
  have hspread := fun {i} => spread_of_assignment? ha (i := i)
  have hname := Span.ofBytes?_spread index line (a := a.nameColumn)
    (b := a.nameColumn + a.name.length) (by omega) (by omega)
  have htrim : (trimEnd (code line)).length ≤ (code line).length :=
    (trimEnd_sublist (code line)).length_le
  have hstatement := Span.ofBytes?_spread index line (a := a.keywordColumn)
    (by omega) htrim
  have hslice := sliceBytes?_spread hvalue le_rfl
  rw [hspread (by omega), hspread (by omega)] at hname
  rw [hspread (by omega), take_length_trimEnd] at hstatement
  rw [hplace, take_spread_length] at hslice
  simp only [Declaration.matchedInBytes?, hname, hstatement, hslice, Option.bind_eq_bind,
    Option.bind_some]
  cases call with
  | none => rfl
  | some call =>
    simp only [BoundCall.ofCallInBytes?_eq (hcall call rfl), Option.map_some, Option.bind_some]
    rfl

theorem Import.ofWordsInBytes?_eq {words : WordPair}
    (hwords : importWords? (code line) = some words) :
    Import.ofWordsInBytes? index line (codeBytes line) words = some (.ofWords index words) := by
  have hplain : ∀ c ∈ code line, isQuote c = false := by
    intro c hc
    rcases of_mem_importWords? hwords hc with h | h | rfl
    · exact isQuote_of_isIdentRest h
    · exact isQuote_of_isBlank h
    · rfl
  have hspread := fun {i} => spread_of_plain (List.append_nil (code line)).symm hplain (i := i)
  obtain ⟨hpair, -⟩ := importWords?_eq_some_iff.1 hwords
  obtain ⟨indent, gap, after, hcode, -, -, -, -, -, -, hsecond, -⟩ := of_wordPair? hpair
  have hlength := congrArg List.length hcode
  simp only [List.length_append] at hlength
  have hspan := Span.ofBytes?_spread index line (a := words.secondColumn)
    (b := words.secondColumn + words.second.length) (by omega) (by omega)
  rw [hspread (by omega), hspread (by omega)] at hspan
  simp only [Import.ofWordsInBytes?, hspan, Option.bind_eq_bind, Option.bind_some]
  rfl

/-! ## Events -/

/-- The call of a declaration stands behind text without literals. -/
theorem spread_of_head? {a : Assignment} {p : Nat × CallHead}
    (ha : assignment? (code line) = some a) (hp : a.head? (code line) = some p) :
    p ∈ callHeads (code line) ∧ placeInCopy line p = p := by
  -- the matcher finds the same head in the copy, and there it is the first one as well
  have hmatch := declarationWithCall?_eq_some_iff.2 ⟨ha, hp, rfl⟩
  have hsame : declarationWithCall? p.2.legacy (codeBytes line) = some (a, p) :=
    ((readsPlain_declarationWithCall? p.2.legacy).eq_codeBytesFrom line).trans hmatch
  obtain ⟨ha', hp', -⟩ := declarationWithCall?_eq_some_iff.1 hsame
  obtain ⟨rest, hheads⟩ := callHeads_of_head? ha hp
  obtain ⟨rest', hheads'⟩ := callHeads_of_head? ha' hp'
  rw [callHeads_codeBytes, hheads, List.map_cons, List.cons.injEq] at hheads'
  exact ⟨hheads ▸ List.mem_cons_self, hheads'.1⟩

theorem eventsOfLineInBytes?_eq (index : Nat) (line : List Char) :
    eventsOfLineInBytes? index line = some (eventsOfLine index line) := by
  rw [← eventsByMatchers_eq]
  unfold eventsOfLineInBytes? eventsByMatchers
  split
  · rfl
  · have hcalls (legacy : Bool) : declarationWithCall? legacy (codeBytes line) =
        declarationWithCall? legacy (code line) :=
      (readsPlain_declarationWithCall? legacy).eq_codeBytesFrom line
    have hunbound : unboundCallsInBytes? index line (codeBytes line) [] =
        some (unboundCalls index line []) := unboundCallsInBytes?_eq index (List.nil_subset _)
    simp only [hcalls, otherDeclaration?_codeBytes, importWords?_codeBytes]
    cases hdeclared : (declarationWithCall? false (code line)).or
        (declarationWithCall? true (code line)) with
    | some found =>
      obtain ⟨a, p⟩ := found
      obtain ⟨ha, hp⟩ : assignment? (code line) = some a ∧ a.head? (code line) = some p := by
        rw [declarationWithCall?_or] at hdeclared
        obtain ⟨a, ha, hp⟩ := Option.bind_eq_some_iff.1 hdeclared
        obtain ⟨p, hp, heq⟩ := Option.map_eq_some_iff.1 hp
        cases heq
        exact ⟨ha, hp⟩
      obtain ⟨hmem, hplace⟩ := spread_of_head? ha hp
      have hle : p.1 ≤ (code line).length := by
        have := (le_of_mem_callHeadsFrom hmem).2
        omega
      have hcall := LibraryCall.ofHeadInBytes?_eq index true hmem
      have hdeclaration := Declaration.matchedInBytes?_eq index
        (some (.ofHead index line true p.1 p.2)) ha hle (congrArg Prod.fst hplace)
        fun c hc => by cases hc; exact stop_callSpan_ofHead_le index true hmem
      have hothers := unboundCallsInBytes?_eq index (List.cons_subset.2 ⟨hmem, List.nil_subset _⟩)
      rw [← placeInCopy, hplace] at hcall
      rw [List.map_singleton, hplace] at hothers
      simp only [hcall, hdeclaration, hothers, Option.bind_eq_bind, Option.bind_some]
      rfl
    | none =>
      rw [otherDeclaration?_eq]
      cases ha : assignment? (code line) with
      | some a =>
        have hvalue := (columns_of_assignment? ha).2.2
        have hdeclaration := Declaration.matchedInBytes?_eq index none ha hvalue
          (spread_of_assignment? ha le_rfl) fun c hc => by cases hc
        simp only [hdeclaration, hunbound, Option.bind_eq_bind, Option.bind_some]
        rfl
      | none =>
        have hitems : (importWords? (code line)).toList.mapM
            (Import.ofWordsInBytes? index line (codeBytes line)) =
              some ((importWords? (code line)).toList.map (Import.ofWords index)) := by
          cases hwords : importWords? (code line) with
          | none => rfl
          | some words => simp [Import.ofWordsInBytes?_eq index hwords]
        simp only [hitems, hunbound, Option.bind_eq_bind, Option.bind_some, List.map_map]
        rfl

/-- The matchers on the copies of the lines find the events of the text, and no offset that
they use is out of range or inside a character. -/
theorem eventsInBytes?_eq (text : List Char) : eventsInBytes? text = some (events text) := by
  have h : ∀ (lines : List (List Char)) (index : Nat),
      eventsFromInBytes? index lines = some (eventsFrom index lines) := by
    intro lines
    induction lines with
    | nil => exact fun _ => rfl
    | cons line rest ih =>
      intro index
      rw [eventsFromInBytes?, eventsOfLineInBytes?_eq, ih]
      rfl
  exact h (lines text) 0

end RazenLint
