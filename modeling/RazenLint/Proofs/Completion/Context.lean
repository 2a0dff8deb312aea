import RazenLint.Completion
import RazenLint.Proofs.Text.Trim

/-!
# What the text before a cursor asks for

In front of a cursor stands a word, often an empty one, and in front of the word what tells
the context (`Typed`). `Asks` says for each context which fronts ask for it : a library with
the sign between it and its function, an import keyword, nothing but blanks, or anything else
that ends in no point. No two of these go together, so each front asks for at most one context,
and `Context.ofText?` finds it (`ofText?_eq_some_iff`). A literal is open at the cursor exactly
when the masked text shows an odd number of quotes (`insideLiteral_eq`).
-/

namespace RazenLint

open Text

/-! ## Open literals -/

namespace Text

/-- A masked line shows a quote where a literal begins or ends, and nowhere else. -/
theorem isQuote_shown {reading : Reading} (h : reading.Proper) (c : Char) :
    isQuote (shown reading c) = (reading.isOpen != (reading.next c).isOpen) := by
  cases reading with
  | code =>
    by_cases hc : isQuote c = true
    · rw [next_quote hc, shown, Reading.hides, if_neg Bool.false_ne_true, hc]
      rfl
    · rw [Bool.not_eq_true] at hc
      rw [next_code hc, shown, Reading.hides, if_neg Bool.false_ne_true, hc]
      rfl
  | literal quote =>
    by_cases hclosing : c = quote
    · rw [hclosing, shown_closing h, next_closing h, show isQuote quote = true from h]
      rfl
    · rw [shown_literal hclosing]
      by_cases hslash : c = '\\'
      · rw [hslash, next_slash]
        rfl
      · rw [next_literal hclosing hslash]
        rfl
  | escape quote => rfl

/-- The quotes that a masked text shows are odd in number when a literal is open on one side of
the text only. -/
theorem countP_maskFrom {reading : Reading} (h : reading.Proper) (cs : List Char) :
    decide ((maskFrom reading cs).countP isQuote % 2 = 1) =
      (reading.isOpen != (reading.after cs).isOpen) := by
  induction cs generalizing reading with
  | nil => simp [maskFrom]
  | cons c cs ih =>
    have hrest := ih (h.next c)
    have hfirst := isQuote_shown h c
    rw [maskFrom_cons, List.countP_cons, Reading.after_cons]
    generalize (maskFrom (reading.next c) cs).countP isQuote = n at hrest ⊢
    by_cases hquote : isQuote (shown reading c) = true
    · have hodd : decide ((n + 1) % 2 = 1) = !decide (n % 2 = 1) := by
        rw [← decide_not, decide_eq_decide]
        omega
      rw [if_pos hquote, hodd, hrest]
      rw [hquote] at hfirst
      revert hfirst
      cases reading.isOpen <;> cases (reading.next c).isOpen <;> simp
    · rw [if_neg hquote, Nat.add_zero, hrest]
      rw [Bool.not_eq_true] at hquote
      rw [hquote] at hfirst
      revert hfirst
      cases reading.isOpen <;> cases (reading.next c).isOpen <;> simp

end Text

/-- The quotes that are shown tell whether a literal is open. -/
theorem insideLiteral_eq (before : List Char) :
    insideLiteral before = (Reading.code.after before).isOpen := by
  rw [insideLiteral, mask, countP_maskFrom (show Reading.code.Proper from trivial)]
  exact Bool.false_bne _

/-! ## The typed word -/

/-- The text before a cursor is a word with something in front of it that the word does not
go on with. -/
structure Typed (before front word : List Char) : Prop where
  eq : before = front ++ word
  isWord : ∀ c ∈ word, isWord c = true
  boundary : boundaryAfter front.getLast? = true

theorem boundaryAfter_eq_true_iff {previous : Option Char} :
    boundaryAfter previous = true ↔ ∀ c, previous = some c → isWord c = false := by
  cases previous <;> simp [boundaryAfter]

/-- The typed word is as long as it can be. -/
theorem typed_iff {before front word : List Char} :
    Typed before front word ↔ front = beforeLastWord before ∧ word = lastWord before := by
  constructor
  · rintro ⟨rfl, hword, hfront⟩
    have hreverse : ∀ c ∈ word.reverse, isWord c = true := fun c hc =>
      hword c (List.mem_reverse.1 hc)
    rw [boundaryAfter_eq_true_iff, ← List.head?_reverse] at hfront
    have hstop : front.reverse.takeWhile isWord = [] ∧
        front.reverse.dropWhile isWord = front.reverse := by
      cases hcs : front.reverse with
      | nil => exact ⟨rfl, rfl⟩
      | cons c cs =>
        have hc : isWord c = false := hfront c (by rw [hcs]; rfl)
        simp [hc]
    constructor
    · rw [beforeLastWord, List.reverse_append, List.dropWhile_append_of_pos hreverse, hstop.2,
        List.reverse_reverse]
    · rw [lastWord, List.reverse_append, List.takeWhile_append_of_pos hreverse, hstop.1,
        List.append_nil, List.reverse_reverse]
  · rintro ⟨rfl, rfl⟩
    refine ⟨List.rdropWhile_append_rtakeWhile.symm, fun c hc => List.mem_rtakeWhile_imp hc, ?_⟩
    rw [boundaryAfter_eq_true_iff, beforeLastWord, List.getLast?_reverse]
    intro c hc
    have := List.head?_dropWhile_not isWord before.reverse
    rw [hc] at this
    simpa using this

theorem Typed.unique {before front word front' word' : List Char} (h : Typed before front word)
    (h' : Typed before front' word') : front = front' ∧ word = word' := by
  rw [typed_iff] at h h'
  exact ⟨h.1.trans h'.1.symm, h.2.trans h'.2.symm⟩

theorem typed_lastWord (before : List Char) :
    Typed before (beforeLastWord before) (lastWord before) :=
  typed_iff.2 ⟨rfl, rfl⟩

/-! ## Contexts -/

/-- A text ends with a library and the sign that stands between it and a function. -/
def EndsInQualifier (front library : List Char) : Prop :=
  ∃ named outer sign, front = named ++ sign ∧ (sign = [':', ':'] ∨ sign = ['[']) ∧
    Typed named outer library ∧ library ≠ []

/-- A text is an import keyword with blanks behind it, on a line that holds nothing in front
of it. -/
def BeginsImport (front : List Char) : Prop :=
  ∃ indent keyword gap, front = indent ++ (keyword.toList ++ gap) ∧ keyword ∈ importKeywords ∧
    (∀ c ∈ indent, isBlank c = true) ∧ (∀ c ∈ gap, isBlank c = true) ∧ gap ≠ []

/-- A text is the indentation of a line. -/
def IsIndent (front : List Char) : Prop :=
  ∀ c ∈ front, isBlank c = true

/-- What stands in front of the typed word asks for a context. A variable or a library may
follow wherever nothing else is asked for, but not behind a point. -/
inductive Asks (front word : List Char) : Context → Prop where
  | function {library : List Char} (h : EndsInQualifier front library) :
    Asks front word (.function library word)
  | imported (h : BeginsImport front) : Asks front word (.imported word)
  | statement (h : IsIndent front) : Asks front word (.statement word)
  | expression (hfunction : ∀ library, ¬EndsInQualifier front library)
    (himport : ¬BeginsImport front) (hstatement : ¬IsIndent front)
    (hpoint : front.getLast? ≠ some '.') : Asks front word (.expression word)

theorem qualifier?_append_sign {named sign : List Char} (h : sign = [':', ':'] ∨ sign = ['[']) :
    qualifier? (named ++ sign) =
      if (lastWord named).isEmpty then none else some (lastWord named) := by
  rcases h with rfl | rfl <;> simp [qualifier?]

theorem qualifier?_eq_some_iff {front library : List Char} :
    qualifier? front = some library ↔ EndsInQualifier front library := by
  constructor
  · intro h
    have hsign : ∃ named sign, front = named ++ sign ∧ (sign = [':', ':'] ∨ sign = ['[']) := by
      obtain ⟨hne, -⟩ := Option.ite_none_left_eq_some.1 h
      split at hne
      · rename_i before hreverse
        have hfront := congrArg List.reverse hreverse
        exact ⟨before.reverse, [':', ':'], by simpa using hfront, Or.inl rfl⟩
      · rename_i before hreverse
        have hfront := congrArg List.reverse hreverse
        exact ⟨before.reverse, ['['], by simpa using hfront, Or.inr rfl⟩
      · exact absurd rfl hne
    obtain ⟨named, sign, rfl, hsign⟩ := hsign
    rw [qualifier?_append_sign hsign] at h
    obtain ⟨hne, hlibrary⟩ := Option.ite_none_left_eq_some.1 h
    obtain rfl := Option.some.inj hlibrary
    exact ⟨named, _, sign, rfl, hsign, typed_lastWord named, by simpa using hne⟩
  · rintro ⟨named, outer, sign, rfl, hsign, htyped, hne⟩
    obtain ⟨-, rfl⟩ := typed_iff.1 htyped
    rw [qualifier?_append_sign hsign, if_neg (by simpa using hne)]

/-- An import keyword begins and ends in no blank. -/
theorem exists_of_mem_importKeywords {keyword : String} (h : keyword ∈ importKeywords) :
    (∃ c cs, keyword.toList = c :: cs ∧ isBlank c = false) ∧
      ∀ c, keyword.toList.getLast? = some c → isBlank c = false := by
  have hident : isIdent keyword.toList = true :=
    (show ∀ k ∈ importKeywords, isIdent k.toList = true by decide +kernel) keyword h
  obtain ⟨c, cs, hcs, hc⟩ := exists_cons_of_isIdent hident
  refine ⟨⟨c, cs, hcs, isBlank_of_isIdentStart hc⟩, fun d hd => ?_⟩
  exact isBlank_of_isIdentRest (isIdentRest_of_mem_isIdent hident (List.mem_of_getLast? hd))

theorem isImportStart_iff {front : List Char} :
    isImportStart front = true ↔ BeginsImport front := by
  rw [isImportStart, Bool.and_eq_true, decide_eq_true_eq, List.contains_iff_mem]
  constructor
  · rintro ⟨hshort, hkeyword⟩
    obtain ⟨gap, htrim, hgap⟩ := exists_trimEnd_append (trimStart front)
    have hfront : front = front.takeWhile isBlank ++ (trim front ++ gap) := by
      rw [trim, ← htrim, takeWhile_append_trimStart]
    refine ⟨front.takeWhile isBlank, _, gap, ?_, hkeyword,
      fun c hc => isBlank_of_mem_takeWhile hc, hgap, ?_⟩
    · rw [String.toList_ofList]
      exact hfront
    · -- without blanks behind the keyword nothing would be trimmed
      rintro rfl
      obtain ⟨⟨c, cs, hcs, -⟩, hlast⟩ := exists_of_mem_importKeywords hkeyword
      rw [String.toList_ofList] at hcs hlast
      rw [List.append_nil] at hfront
      rw [hfront, trimEnd_of_getLast?] at hshort
      · exact absurd hshort (lt_irrefl _)
      · intro d hd
        rw [List.getLast?_append_of_ne_nil _ (by simp [hcs])] at hd
        exact hlast d hd
  · rintro ⟨indent, keyword, gap, rfl, hkeyword, hindent, hgap, hne⟩
    obtain ⟨⟨c, cs, hcs, hc⟩, hlast⟩ := exists_of_mem_importKeywords hkeyword
    have hkept : trimEnd (indent ++ keyword.toList) = indent ++ keyword.toList := by
      refine trimEnd_of_getLast? fun d hd => ?_
      rw [List.getLast?_append_of_ne_nil _ (by simp [hcs])] at hd
      exact hlast d hd
    have htrim : trim (indent ++ (keyword.toList ++ gap)) = keyword.toList := by
      have hstart : trimStart (indent ++ (keyword.toList ++ gap)) = keyword.toList ++ gap := by
        rw [trimStart_append_of_blank hindent, hcs, List.cons_append, trimStart_of_not_blank hc]
      rw [trim, hstart, trimEnd_append_of_blank hgap, trimEnd_of_getLast? hlast]
    constructor
    · rw [← List.append_assoc, trimEnd_append_of_blank hgap, hkept]
      simpa using List.length_pos_iff.2 hne
    · rw [htrim, String.ofList_toList]
      exact hkeyword

/-! ## One context at most -/

/-- A text that ends in a library's sign ends in no blank and in no point. -/
theorem EndsInQualifier.getLast? {front library : List Char} (h : EndsInQualifier front library) :
    ∃ c, front.getLast? = some c ∧ isBlank c = false ∧ c ≠ '.' := by
  obtain ⟨named, -, sign, rfl, hsign, -⟩ := h
  rcases hsign with rfl | rfl
  · exact ⟨':', by simp, by decide, by decide⟩
  · exact ⟨'[', by simp, by decide, by decide⟩

theorem BeginsImport.not_endsInQualifier {front : List Char} (h : BeginsImport front)
    (library : List Char) : ¬EndsInQualifier front library := by
  intro hfunction
  obtain ⟨indent, keyword, gap, rfl, -, -, hgap, hne⟩ := h
  obtain ⟨c, hc, hblank, -⟩ := hfunction.getLast?
  rw [← List.append_assoc, List.getLast?_append_of_ne_nil _ hne] at hc
  rw [hgap c (List.mem_of_getLast? hc)] at hblank
  exact absurd hblank (by simp)

theorem IsIndent.not_endsInQualifier {front : List Char} (h : IsIndent front)
    (library : List Char) : ¬EndsInQualifier front library := by
  intro hfunction
  obtain ⟨c, hc, hblank, -⟩ := hfunction.getLast?
  rw [h c (List.mem_of_getLast? hc)] at hblank
  exact absurd hblank (by simp)

theorem IsIndent.not_beginsImport {front : List Char} (h : IsIndent front) :
    ¬BeginsImport front := by
  rintro ⟨indent, keyword, gap, rfl, hkeyword, -⟩
  obtain ⟨⟨c, cs, hcs, hc⟩, -⟩ := exists_of_mem_importKeywords hkeyword
  rw [h c (by simp [hcs])] at hc
  exact absurd hc (by simp)

/-- The context that is found is the one that the text in front of the word asks for. -/
theorem ofText?_eq_some_iff {before front word : List Char} (htyped : Typed before front word)
    {context : Context} : Context.ofText? before = some context ↔ Asks front word context := by
  obtain ⟨rfl, rfl⟩ := typed_iff.1 htyped
  unfold Context.ofText?
  dsimp only
  generalize beforeLastWord before = front
  generalize lastWord before = word
  cases hqualifier : qualifier? front with
  | some library =>
    have hfunction := qualifier?_eq_some_iff.1 hqualifier
    constructor
    · intro h
      exact Option.some.inj h ▸ .function hfunction
    · rintro (h | h | h | h)
      · rw [← qualifier?_eq_some_iff, hqualifier, Option.some.injEq] at h
        rw [h]
      · exact absurd hfunction (h.not_endsInQualifier library)
      · exact absurd hfunction (h.not_endsInQualifier library)
      · exact absurd hfunction (h library)
  | none =>
    have hfunction : ∀ library, ¬EndsInQualifier front library := by
      intro library
      rw [← qualifier?_eq_some_iff, hqualifier]
      simp
    have hall : front.all isBlank = true ↔ IsIndent front := List.all_eq_true
    by_cases himport : BeginsImport front
    · rw [if_pos (isImportStart_iff.2 himport)]
      constructor
      · intro h
        exact Option.some.inj h ▸ .imported himport
      · rintro (h | h | h | h)
        · exact absurd h (hfunction _)
        · rfl
        · exact absurd himport h.not_beginsImport
        · contradiction
    rw [if_neg (isImportStart_iff.not.2 himport)]
    by_cases hindent : IsIndent front
    · rw [if_pos (hall.2 hindent)]
      constructor
      · intro h
        exact Option.some.inj h ▸ .statement hindent
      · rintro (h | h | h | h)
        · exact absurd h (hfunction _)
        · exact absurd h himport
        · rfl
        · contradiction
    rw [if_neg (hall.not.2 hindent)]
    constructor
    · intro h
      obtain ⟨hpoint, hcontext⟩ := Option.ite_none_left_eq_some.1 h
      exact Option.some.inj hcontext ▸ .expression hfunction himport hindent hpoint
    · rintro (h | h | h | ⟨-, -, -, hpoint⟩)
      · exact absurd h (hfunction _)
      · exact absurd h himport
      · exact absurd h hindent
      · rw [if_neg hpoint]

end RazenLint
