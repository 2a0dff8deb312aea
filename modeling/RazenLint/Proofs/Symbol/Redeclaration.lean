import RazenLint.Proofs.Event.Shift
import RazenLint.Proofs.Symbol.References

/-!
# Variables of a text behind another

When a text is put behind complete lines, its events and words move down and those of the
lines stay where they are (`occurrences_append`, `sites_append`). A variable that the text
declares is held as the text alone holds it, further down : what stands in front of its
last declaration is no use of it (`referencesTo_cut`). A variable that only the lines
declare keeps their entry, and what the text adds to its references stands in the text
(`referencesTo_kept`). `holdsVariable_append` says both, of the entries and of their marks.
-/

namespace RazenLint

open Text

/-! ## Words further down -/

/-- The same word on a line further down. -/
def Occurrence.shift (o : Occurrence) (lines : Nat) : Occurrence :=
  { o with span := o.span.shift lines }

theorem occurrencesFrom_line_add (line distance column : Nat) (previous : Option Char)
    (cs : List Char) :
    occurrencesFrom (line + distance) column previous cs =
      (occurrencesFrom line column previous cs).map (·.shift distance) := by
  induction cs generalizing column previous with
  | nil => rfl
  | cons c cs ih =>
    rw [occurrencesFrom, occurrencesFrom, ih]
    split
    · split
      · split <;> rfl
      · rfl
    · rfl

theorem occurrencesOfLines_add (distance : Nat) : ∀ (index : Nat) (lines : List (List Char)),
    occurrencesOfLines (index + distance) lines =
      (occurrencesOfLines index lines).map (·.shift distance)
  | _, [] => rfl
  | index, line :: rest => by
    rw [occurrencesOfLines, occurrencesOfLines, List.map_append, Nat.add_right_comm,
      occurrencesOfLines_add distance (index + 1) rest, occurrencesOfLine, occurrencesOfLine,
      occurrencesFrom_line_add]

/-- The words of a text behind complete lines. -/
theorem occurrences_append {front : List Char} (h : EndsLine front) (back : List Char) :
    occurrences (front ++ back) =
      occurrences front ++ (occurrences back).map (·.shift (lines front).length) := by
  rw [occurrences, lines_append h, occurrencesOfLines_append, occurrencesOfLines_add]
  rfl

theorem line_lt_of_mem_occurrences {text : List Char} {o : Occurrence} (h : o ∈ occurrences text) :
    o.span.line < (lines text).length := by
  obtain ⟨i, line, hline, ho⟩ := mem_occurrencesOfLines_iff.1 h
  rw [Nat.zero_add, occurrencesOfLine_eq] at ho
  rw [(span_of_mem_occurrencesFrom ho).1]
  exact (List.getElem?_eq_some_iff.1 hline).1

/-! ## Sites further down -/

theorem Event.sites_mapSpans (f : Span → Span) (e : Event) :
    (e.mapSpans f).sites = e.sites.map f := by
  cases e with
  | declaration d => rfl
  | imported i => rfl
  | call c =>
    simp only [mapSpans, sites, LibraryCall.mapSpans]
    split <;> rfl

/-- The sites in a text behind complete lines. -/
theorem sites_append {front : List Char} (h : EndsLine front) (back : List Char) :
    (events (front ++ back)).flatMap Event.sites = (events front).flatMap Event.sites ++
      ((events back).flatMap Event.sites).map (·.shift (lines front).length) := by
  rw [events_append h, List.flatMap_append, List.flatMap_map, List.map_flatMap]
  simp only [Event.sites_mapSpans]

theorem Event.mem_nameSpans_of_mem_sites {e : Event} {s : Span} (h : s ∈ e.sites) :
    s ∈ e.nameSpans := by
  cases e with
  | declaration d => exact h
  | imported i => exact h
  | call c =>
    rw [sites] at h
    split at h
    · exact h
    · exact absurd h List.not_mem_nil

theorem line_lt_of_mem_sites {text : List Char} {s : Span}
    (h : s ∈ (events text).flatMap Event.sites) : s.line < (lines text).length := by
  obtain ⟨e, he, hs⟩ := List.mem_flatMap.1 h
  obtain ⟨i, line, hline, he⟩ := mem_eventsFrom_iff.1 he
  rw [Nat.zero_add] at he
  rw [line_of_mem_nameSpans he (Event.mem_nameSpans_of_mem_sites hs)]
  exact (List.getElem?_eq_some_iff.1 hline).1

/-! ## Declarations further down -/

theorem get?_lastDeclarations_append (events later : List Event) (name : String) :
    (lastDeclarations (events ++ later)).get? name =
      ((lastDeclarations later).get? name).or ((lastDeclarations events).get? name) := by
  rw [lastDeclarations, List.filterMap_append, List.map_append, Table.get?_ofEntries_append]
  rfl

theorem get?_lastDeclarations_mapSpans (f : Span → Span) (events : List Event) (name : String) :
    (lastDeclarations (events.map (Event.mapSpans f))).get? name =
      ((lastDeclarations events).get? name).map (Declaration.mapSpans f) := by
  have hentry : ∀ e : Event, ((e.mapSpans f).declaration?.map fun d => (d.name, d)) =
      (e.declaration?.map fun d => (d.name, d)).map fun entry =>
        (entry.1, entry.2.mapSpans f) := by
    intro e
    cases e <;> rfl
  rw [lastDeclarations, lastDeclarations, List.map_filterMap, List.map_filterMap,
    List.filterMap_map, ← Table.get?_ofEntries_map, List.map_filterMap]
  exact congrArg (fun entries => (Table.ofEntries entries).get? name)
    (List.filterMap_congr fun e _ => hentry e)

/-- The last declaration of a name in a text behind complete lines : that of the text, or
else that of the lines. -/
theorem get?_lastDeclarations_events_append {front : List Char} (h : EndsLine front)
    (back : List Char) (name : String) :
    (lastDeclarations (events (front ++ back))).get? name =
      (((lastDeclarations (events back)).get? name).map
        (Declaration.mapSpans (·.shift (lines front).length))).or
      ((lastDeclarations (events front)).get? name) := by
  rw [events_append h, get?_lastDeclarations_append, get?_lastDeclarations_mapSpans]

/-! ## References -/

theorem Span.isPast_shift (s t : Span) (lines : Nat) :
    (s.shift lines).isPast (t.shift lines) = s.isPast t := by
  rw [Bool.eq_iff_iff, isPast_iff, isPast_iff]
  simp [Before, shift]

theorem Span.shift_injective (lines : Nat) : Function.Injective (Span.shift · lines) := by
  rintro ⟨line, start, stop⟩ ⟨line', start', stop'⟩ h
  simpa [shift] using h

/-- Everything further down, and the references with it. -/
theorem referencesTo_shift (sites : List Span) (words : List Occurrence) (name : String)
    (statement : Span) (lines : Nat) :
    referencesTo (sites.map (·.shift lines)) (words.map (·.shift lines)) name
        (statement.shift lines) =
      (referencesTo sites words name statement).map (·.shift lines) := by
  have hsite : ∀ s : Span, (sites.map (·.shift lines)).contains (s.shift lines) =
      sites.contains s := by
    intro s
    rw [Bool.eq_iff_iff, List.contains_iff_mem, List.contains_iff_mem]
    exact List.mem_map_of_injective (Span.shift_injective lines)
  unfold referencesTo
  split
  · rfl
  · rw [List.filter_map, List.map_map, List.map_map]
    congr 1
    refine List.filter_congr fun o _ => ?_
    simp only [Function.comp_apply, Occurrence.shift, hsite, Span.isPast_shift]

/-- Only sites at the words matter. -/
theorem referencesTo_congr {sites sites' : List Span} {words : List Occurrence} (name : String)
    (statement : Span) (h : ∀ o ∈ words, o.span ∈ sites ↔ o.span ∈ sites') :
    referencesTo sites words name statement = referencesTo sites' words name statement := by
  unfold referencesTo
  split
  · rfl
  · congr 1
    refine List.filter_congr fun o ho => ?_
    have hsite : sites.contains o.span = sites'.contains o.span := by
      rw [Bool.eq_iff_iff, List.contains_iff_mem, List.contains_iff_mem]
      exact h o ho
    rw [hsite]

/-- Words that are not past the statement are no references. -/
theorem referencesTo_eq_nil {sites : List Span} {words : List Occurrence} {name : String}
    {statement : Span} (h : ∀ o ∈ words, o.span.isPast statement = false) :
    referencesTo sites words name statement = [] := by
  unfold referencesTo
  split
  · rfl
  · rw [List.map_eq_nil_iff, List.filter_eq_nil_iff]
    intro o ho
    simp [h o ho]

theorem exists_of_mem_referencesTo {sites : List Span} {words : List Occurrence} {name : String}
    {statement s : Span} (h : s ∈ referencesTo sites words name statement) :
    ∃ o ∈ words, o.span = s := by
  unfold referencesTo at h
  split at h
  · exact absurd h List.not_mem_nil
  · obtain ⟨o, ho, hs⟩ := List.mem_map.1 h
    exact ⟨o, List.mem_of_mem_filter ho, hs⟩

section

variable {front : List Char}

/-- What stands in front of a text is no use of what the text declares. -/
theorem referencesTo_cut (h : EndsLine front) (back : List Char) (name : String)
    (statement : Span) :
    referencesTo ((events (front ++ back)).flatMap Event.sites) (occurrences (front ++ back)) name
        (statement.shift (lines front).length) =
      (referencesTo ((events back).flatMap Event.sites) (occurrences back) name statement).map
        (·.shift (lines front).length) := by
  have hfront : ∀ o ∈ occurrences front,
      o.span.isPast (statement.shift (lines front).length) = false := by
    intro o ho
    have hline := line_lt_of_mem_occurrences ho
    rw [← Bool.not_eq_true, Span.isPast_iff, Span.Before]
    simp only [Span.shift]
    omega
  rw [occurrences_append h, referencesTo_append, referencesTo_eq_nil hfront, List.nil_append,
    ← referencesTo_shift, sites_append h]
  refine referencesTo_congr name _ fun o ho => ?_
  obtain ⟨o, -, rfl⟩ := List.mem_map.1 ho
  rw [List.mem_append, or_iff_right]
  intro hsite
  have hline := line_lt_of_mem_sites hsite
  simp only [Occurrence.shift, Span.shift] at hline
  omega

/-- A text behind complete lines takes no reference of the lines away, and adds those that
stand in it. -/
theorem referencesTo_kept (h : EndsLine front) (back : List Char) (name : String)
    (statement : Span) : ∃ later,
    referencesTo ((events (front ++ back)).flatMap Event.sites) (occurrences (front ++ back)) name
        statement =
      referencesTo ((events front).flatMap Event.sites) (occurrences front) name statement ++
        later ∧
    ∀ s ∈ later, (lines front).length ≤ s.line ∧ s.line < (lines (front ++ back)).length := by
  refine ⟨referencesTo ((events (front ++ back)).flatMap Event.sites)
    ((occurrences back).map (·.shift (lines front).length)) name statement, ?_, fun s hs => ?_⟩
  · rw [occurrences_append h, referencesTo_append]
    congr 1
    refine referencesTo_congr name statement fun o ho => ?_
    have hline := line_lt_of_mem_occurrences ho
    rw [sites_append h, List.mem_append, or_iff_left]
    intro hsite
    obtain ⟨s, -, hs⟩ := List.mem_map.1 hsite
    rw [← hs, Span.shift] at hline
    dsimp only at hline
    omega
  · obtain ⟨word, hword, rfl⟩ := exists_of_mem_referencesTo hs
    obtain ⟨o, ho, rfl⟩ := List.mem_map.1 hword
    have hline := line_lt_of_mem_occurrences ho
    rw [lines_append h, List.length_append]
    simp only [Occurrence.shift, Span.shift]
    omega

end

/-! ## Entries with their marks -/

/-- A text declares a name. -/
def Declares (text : List Char) (name : String) : Prop :=
  ∃ d, .declaration d ∈ events text ∧ d.name = name

/-- The same variable on lines further down. -/
def Variable.shift (v : Variable) (lines : Nat) : Variable where
  span := v.span.shift lines
  statement := v.statement.shift lines
  kind := v.kind
  references := v.references.map (·.shift lines)

/-- The symbol table of a text holds a variable, and the passes that fill the table have its
references and leave its entry with the given mark. -/
structure HoldsVariable (text : List Char) (name : String) (v : Variable) (marked : Bool) :
    Prop where
  entry : (symbols text).findVariable? name = some v
  mark : ((Filled.ofEvents text (events text)).declared.entries.get? name).map Prod.snd =
    some marked
  references : (Filled.ofEvents text (events text)).declared.referencesOf name = v.references

section

variable {text : List Char} {name : String}

theorem declares_iff : Declares text name ↔
    ∃ d, (lastDeclarations (events text)).get? name = some d := by
  constructor
  · rintro ⟨d, hd, rfl⟩
    obtain ⟨last, hlast⟩ := exists_lastDeclaration hd
    exact ⟨last, get?_lastDeclarations_iff.2 hlast⟩
  · rintro ⟨d, hd⟩
    obtain ⟨hlast, hname⟩ := get?_lastDeclarations_iff.1 hd
    exact ⟨d, of_lastDeclaration hlast, hname⟩

instance : Decidable (Declares text name) :=
  decidable_of_iff (((lastDeclarations (events text)).get? name).isSome = true)
    (Option.isSome_iff_exists.trans declares_iff.symm)

/-- A variable is held with the mark that its references give. -/
theorem holdsVariable_of_get? {d : Declaration}
    (h : (lastDeclarations (events text)).get? name = some d) :
    HoldsVariable text name (SymbolTable.variableOf text (events text) name d)
      (SymbolTable.variableOf text (events text) name d).used where
  entry := by rw [SymbolTable.findVariable?, symbols, SymbolTable.get?_declared, h]; rfl
  mark := by rw [(Filled.holds_declared text (events text)).entries, h]; rfl
  references := by rw [(Filled.holds_declared text (events text)).references, h]; rfl

end

theorem Variable.used_shift (v : Variable) (lines : Nat) : (v.shift lines).used = v.used := by
  rw [used, used, shift, List.isEmpty_map]

/-- A declaration cuts off what is in front of it. Whatever a text declares is held behind
complete lines as it is held without them, further down. A variable that only the lines
declare keeps its entry, and gets no references but those on lines of the text, so it stays
marked when it was. -/
theorem holdsVariable_append {a : List Char} (h : EndsLine a) (b : List Char) (name : String) :
    (Declares b name → ∃ v marked, HoldsVariable b name v marked ∧
      HoldsVariable (a ++ b) name (v.shift (lines a).length) marked) ∧
    (Declares a name → ¬Declares b name → ∃ v marked later marked',
      HoldsVariable a name v marked ∧
      HoldsVariable (a ++ b) name { v with references := v.references ++ later } marked' ∧
      (∀ s ∈ later, (lines a).length ≤ s.line ∧ s.line < (lines (a ++ b)).length) ∧
      (marked = true → marked' = true)) := by
  have hlast := get?_lastDeclarations_events_append h b name
  constructor
  · intro hdeclares
    obtain ⟨d, hd⟩ := declares_iff.1 hdeclares
    rw [hd, Option.map_some, Option.some_or] at hlast
    have hshift : SymbolTable.variableOf (a ++ b) (events (a ++ b)) name
        (d.mapSpans (·.shift (lines a).length)) =
        (SymbolTable.variableOf b (events b) name d).shift (lines a).length := by
      rw [SymbolTable.variableOf, Variable.shift, SymbolTable.variableOf,
        ← referencesTo_cut h b name d.statementSpan]
      rfl
    have hholds := holdsVariable_of_get? hlast
    rw [hshift, Variable.used_shift] at hholds
    exact ⟨_, _, holdsVariable_of_get? hd, hholds⟩
  · intro hdeclares hnot
    obtain ⟨d, hd⟩ := declares_iff.1 hdeclares
    have hnone : (lastDeclarations (events b)).get? name = none :=
      Option.eq_none_iff_forall_ne_some.2 fun other hother => hnot (declares_iff.2 ⟨other, hother⟩)
    rw [hnone, Option.map_none, Option.none_or, hd] at hlast
    obtain ⟨later, hreferences, hlater⟩ := referencesTo_kept h b name d.statementSpan
    have hkept : SymbolTable.variableOf (a ++ b) (events (a ++ b)) name d =
        { SymbolTable.variableOf a (events a) name d with
          references := (SymbolTable.variableOf a (events a) name d).references ++ later } := by
      rw [SymbolTable.variableOf, hreferences]
      rfl
    have hholds := holdsVariable_of_get? hlast
    rw [hkept] at hholds
    refine ⟨_, _, later, _, holdsVariable_of_get? hd, hholds, hlater, fun hused => ?_⟩
    rw [Variable.used, Bool.not_eq_true', List.isEmpty_eq_false_iff] at hused ⊢
    exact List.append_ne_nil_of_left_ne_nil hused later

/-- Lines that declare two variables. -/
def declaredBefore : List Char :=
  "let x = 1\nlet y = x\n".toList

/-- A text that declares one of them again and reads both, also in the initializer. -/
def declaredAgain : List Char :=
  "let x = x + y\nshow x, y".toList

theorem holdsVariable_append_declaredAgain :
    EndsLine declaredBefore ∧ Declares declaredAgain "x" ∧ Declares declaredBefore "y" ∧
      ¬Declares declaredAgain "y" ∧
      (∃ v marked, HoldsVariable declaredAgain "x" v marked ∧
        HoldsVariable (declaredBefore ++ declaredAgain) "x"
          (v.shift (lines declaredBefore).length) marked) ∧
      ∃ v marked later marked', HoldsVariable declaredBefore "y" v marked ∧
        HoldsVariable (declaredBefore ++ declaredAgain) "y"
          { v with references := v.references ++ later } marked' :=
  have h : EndsLine declaredBefore := by decide
  have hx : Declares declaredAgain "x" := by decide +kernel
  have hy : Declares declaredBefore "y" := by decide +kernel
  have hnot : ¬Declares declaredAgain "y" := by decide +kernel
  have ⟨v, marked, later, marked', hfront, hboth, _⟩ :=
    (holdsVariable_append h declaredAgain "y").2 hy hnot
  ⟨h, hx, hy, hnot, (holdsVariable_append h declaredAgain "x").1 hx,
    v, marked, later, marked', hfront, hboth⟩

end RazenLint
