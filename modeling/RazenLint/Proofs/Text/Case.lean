import RazenLint.Proofs.Text.Literal
import RazenLint.Proofs.Text.Scan
import RazenLint.Text.Bracket

/-!
# Small letters

A text can be read in small letters (`lower`). What tells no letters apart sees no
difference (`apply_toLower`), and that is how a text is read : words end where they ended,
blanks are trimmed as before, brackets close where they closed, and literals and comments
begin and end in the same columns. So every reader finds in the text in small letters what
it finds in the text itself, in small letters.
-/

namespace RazenLint.Text

/-! ## Characters -/

theorem toLower_of_not_isIdentStart {c : Char} (h : isIdentStart c = false) : c.toLower = c := by
  rw [Bool.eq_false_iff, ne_eq, isIdentStart_iff] at h
  rw [← Char.toNat_inj, toNat_toLower, if_neg (by omega)]

/-- What tells no letters apart does not see their case. -/
theorem apply_toLower {α : Type} {f : Char → α} {a : α}
    (h : ∀ c, isIdentStart c = true → f c = a) (c : Char) : f c.toLower = f c := by
  by_cases hc : isIdentStart c = true
  · rw [h c hc, h _ (isIdentStart_toLower hc)]
  · rw [toLower_of_not_isIdentStart (by simpa using hc)]

theorem isIdentStart_comp_toLower : isIdentStart ∘ Char.toLower = isIdentStart :=
  funext (apply_toLower fun _ h => h)

theorem isIdentRest_comp_toLower : isIdentRest ∘ Char.toLower = isIdentRest :=
  funext (apply_toLower fun _ h => isIdentRest_of_isIdentStart h)

theorem isWord_comp_toLower : isWord ∘ Char.toLower = isWord :=
  funext (apply_toLower fun _ h => isWord_of_isIdentRest (isIdentRest_of_isIdentStart h))

theorem isBlank_comp_toLower : isBlank ∘ Char.toLower = isBlank :=
  funext (apply_toLower fun _ h => isBlank_of_isIdentStart h)

/-- A sign is no letter in another case. -/
theorem toLower_eq_iff {sign : Char} (h : isIdentStart sign = false) {c : Char} :
    c.toLower = sign ↔ c = sign := by
  have hsign := apply_toLower (f := fun c => decide (c = sign)) (a := false) (fun c hc => by
    rw [decide_eq_false_iff_not]
    rintro rfl
    rw [h] at hc
    exact absurd hc (by simp)) c
  simpa using hsign

/-! ## Words and blanks -/

/-- A text in small letters. -/
def lower (cs : List Char) : List Char :=
  cs.map Char.toLower

theorem lower_cons (c : Char) (cs : List Char) : lower (c :: cs) = c.toLower :: lower cs :=
  rfl

@[simp] theorem length_lower (cs : List Char) : (lower cs).length = cs.length :=
  List.length_map _

@[simp] theorem lower_eq_nil_iff {cs : List Char} : lower cs = [] ↔ cs = [] :=
  List.map_eq_nil_iff

theorem isEmpty_lower (cs : List Char) : (lower cs).isEmpty = cs.isEmpty :=
  List.isEmpty_map

theorem lower_append (front back : List Char) :
    lower (front ++ back) = lower front ++ lower back :=
  List.map_append

/-- A text is cut where it is cut in small letters. -/
theorem lower_eq_append_iff {cs front back : List Char} : lower cs = front ++ back ↔
    ∃ front' back', cs = front' ++ back' ∧ lower front' = front ∧ lower back' = back :=
  List.map_eq_append_iff

/-- Signs are no letters in another case. -/
theorem lower_eq_iff {signs : List Char} (h : ∀ c ∈ signs, isIdentStart c = false)
    {cs : List Char} : lower cs = signs ↔ cs = signs := by
  induction signs generalizing cs with
  | nil => exact lower_eq_nil_iff
  | cons sign signs ih =>
    cases cs with
    | nil => simp [lower]
    | cons c cs =>
      rw [lower_cons, List.cons.injEq, List.cons.injEq, toLower_eq_iff (h sign List.mem_cons_self),
        ih fun c hc => h c (List.mem_cons_of_mem sign hc)]

theorem lower_drop (cs : List Char) (column : Nat) :
    lower (cs.drop column) = (lower cs).drop column :=
  List.map_drop

theorem boundaryAfter_map_toLower (previous : Option Char) :
    boundaryAfter (previous.map Char.toLower) = boundaryAfter previous := by
  rw [boundaryAfter, Option.any_map]
  exact congrArg (fun isWord => !previous.any isWord) isWord_comp_toLower

theorem head?_lower_eq_iff {sign : Char} (h : isIdentStart sign = false) {cs : List Char} :
    (lower cs).head? = some sign ↔ cs.head? = some sign := by
  cases cs with
  | nil => simp [lower]
  | cons c cs => simp [lower_cons, toLower_eq_iff h]

theorem getLast?_lower_eq_iff {sign : Char} (h : isIdentStart sign = false) {cs : List Char} :
    (lower cs).getLast? = some sign ↔ cs.getLast? = some sign := by
  rw [← List.head?_reverse, ← List.head?_reverse, lower, ← List.map_reverse]
  exact head?_lower_eq_iff h

theorem takeIdent?_lower (cs : List Char) : takeIdent? (lower cs) =
    (takeIdent? cs).map fun (ident, rest) => (lower ident, lower rest) := by
  cases cs with
  | nil => rfl
  | cons c cs =>
    have hstart : isIdentStart c.toLower = isIdentStart c := congrFun isIdentStart_comp_toLower c
    rw [lower_cons, takeIdent?, takeIdent?, hstart, lower, List.takeWhile_map,
      List.dropWhile_map, isIdentRest_comp_toLower]
    split <;> rfl

theorem isIdent_lower (cs : List Char) : isIdent (lower cs) = isIdent cs := by
  cases cs with
  | nil => rfl
  | cons c cs =>
    have hstart : isIdentStart c.toLower = isIdentStart c := congrFun isIdentStart_comp_toLower c
    rw [lower_cons, isIdent, isIdent, hstart, lower, List.all_map, isIdentRest_comp_toLower]

theorem all_isBlank_lower (cs : List Char) : (lower cs).all isBlank = cs.all isBlank := by
  rw [lower, List.all_map, isBlank_comp_toLower]

theorem takeWhile_isBlank_lower (cs : List Char) :
    (lower cs).takeWhile isBlank = lower (cs.takeWhile isBlank) := by
  rw [lower, List.takeWhile_map, isBlank_comp_toLower, lower]

theorem trimStart_lower (cs : List Char) : trimStart (lower cs) = lower (trimStart cs) := by
  rw [trimStart, lower, List.dropWhile_map, isBlank_comp_toLower, trimStart, lower]

theorem trimEnd_lower (cs : List Char) : trimEnd (lower cs) = lower (trimEnd cs) := by
  rw [trimEnd, lower, ← List.map_reverse, List.dropWhile_map, isBlank_comp_toLower,
    ← List.map_reverse, trimEnd, lower]

theorem trim_lower (cs : List Char) : trim (lower cs) = lower (trim cs) := by
  rw [trim, trimStart_lower, trimEnd_lower, trim]

theorem dropSemicolon_lower (cs : List Char) :
    dropSemicolon (lower cs) = lower (dropSemicolon cs) := by
  simp only [dropSemicolon, getLast?_lower_eq_iff (show isIdentStart ';' = false from rfl)]
  split
  · exact List.map_dropLast.symm
  · rfl

theorem mem_lower_iff {sign : Char} (h : isIdentStart sign = false) {cs : List Char} :
    sign ∈ lower cs ↔ sign ∈ cs := by
  simp only [lower, List.mem_map, toLower_eq_iff h, exists_eq_right]

/-! ## Brackets -/

theorem closingDistance_lower (depth : Nat) (cs : List Char) :
    closingDistance depth (lower cs) = closingDistance depth cs := by
  induction cs generalizing depth with
  | nil => rfl
  | cons c cs ih =>
    simp only [lower_cons, closingDistance, toLower_eq_iff (show isIdentStart '(' = false from rfl),
      toLower_eq_iff (show isIdentStart ')' = false from rfl), ih]

theorem closingParen_lower (masked : List Char) (opening : Nat) :
    closingParen (lower masked) opening = closingParen masked opening := by
  rw [closingParen, ← lower_drop, closingDistance_lower, closingParen]

theorem closesAtEnd_lower {opening closing : Char} (hopening : isIdentStart opening = false)
    (hclosing : isIdentStart closing = false) (depth : Nat) (cs : List Char) :
    closesAtEnd opening closing depth (lower cs) = closesAtEnd opening closing depth cs := by
  induction cs generalizing depth with
  | nil => rfl
  | cons c cs ih =>
    simp only [lower_cons, closesAtEnd, toLower_eq_iff hopening, toLower_eq_iff hclosing, ih,
      ne_eq, lower_eq_nil_iff]

theorem encloses_lower {opening closing : Char} (hopening : isIdentStart opening = false)
    (hclosing : isIdentStart closing = false) (masked : List Char) :
    encloses opening closing (lower masked) = encloses opening closing masked := by
  simp only [encloses, length_lower, head?_lower_eq_iff hopening,
    getLast?_lower_eq_iff hclosing, closesAtEnd_lower hopening hclosing]

/-! ## Literals and comments -/

theorem isQuote_toLower (c : Char) : isQuote c.toLower = isQuote c :=
  apply_toLower (fun _ h => isQuote_of_isIdentRest (isIdentRest_of_isIdentStart h)) c

theorem isIdentStart_of_isQuote {c : Char} (h : isQuote c = true) : isIdentStart c = false := by
  by_contra hstart
  rw [isQuote_of_isIdentRest (isIdentRest_of_isIdentStart (by simpa using hstart))] at h
  exact absurd h (by simp)

/-- A letter in a literal neither ends it nor escapes anything. -/
theorem ne_of_isIdentStart {quote c : Char} (hquote : isQuote quote = true)
    (hc : isIdentStart c = true) : c ≠ quote ∧ c ≠ '\\' := by
  constructor
  · rintro rfl
    exact absurd hc (by simp [isIdentStart_of_isQuote hquote])
  · rintro rfl
    exact absurd hc (by decide)

theorem Reading.next_toLower {reading : Reading} (h : reading.Proper) (c : Char) :
    reading.next c.toLower = reading.next c := by
  cases reading with
  | code => exact apply_toLower (fun c hc =>
      next_code (isQuote_of_isIdentRest (isIdentRest_of_isIdentStart hc))) c
  | literal quote => exact apply_toLower (fun c hc =>
      next_literal (ne_of_isIdentStart h hc).1 (ne_of_isIdentStart h hc).2) c
  | escape quote => rfl

theorem Reading.hides_toLower {reading : Reading} (h : reading.Proper) (c : Char) :
    reading.hides c.toLower = reading.hides c := by
  cases reading with
  | code => rfl
  | literal quote =>
    refine apply_toLower (a := true) (fun c hc => ?_) c
    simp [hides, (ne_of_isIdentStart h hc).1]
  | escape quote => rfl

theorem maskFrom_lower {reading : Reading} (h : reading.Proper) (cs : List Char) :
    maskFrom reading (lower cs) = lower (maskFrom reading cs) := by
  induction cs generalizing reading with
  | nil => rfl
  | cons c cs ih =>
    rw [lower_cons, maskFrom, maskFrom, Reading.hides_toLower h, Reading.next_toLower h,
      ih (h.next c), lower_cons]
    split <;> rfl

theorem mask_lower (cs : List Char) : mask (lower cs) = lower (mask cs) :=
  maskFrom_lower (show Reading.code.Proper from trivial) cs

theorem code_lower (line : List Char) : code (lower line) = lower (code line) := by
  have hsign : (fun c : Char => decide (c ≠ commentSign)) ∘ Char.toLower =
      fun c => decide (c ≠ commentSign) := funext fun c => by
    simp only [Function.comp_apply, ne_eq,
      toLower_eq_iff (show isIdentStart commentSign = false from rfl)]
  rw [code, mask_lower, lower, List.takeWhile_map, hsign, code, lower]

/-! ## Scans -/

/-- What a scan finds in small letters, when its reader does not see the case of letters. -/
theorem scanFrom_lower {α : Type} {read : Nat → Option Char → List Char → Option α} {f : α → α}
    (hread : ∀ column previous cs, read column (previous.map Char.toLower) (lower cs) =
      (read column previous cs).map f) (column : Nat) (previous : Option Char) (cs : List Char) :
    scanFrom read column (previous.map Char.toLower) (lower cs) =
      (scanFrom read column previous cs).map f := by
  induction cs generalizing column previous with
  | nil => rfl
  | cons c cs ih =>
    have hrest := ih (column + 1) (some c)
    have hhead := hread column previous (c :: cs)
    rw [lower_cons] at hhead ⊢
    rw [Option.map_some] at hrest
    rw [scanFrom_cons, scanFrom_cons, hhead, hrest, List.map_append]
    cases read column previous (c :: cs) <;> rfl

end RazenLint.Text
