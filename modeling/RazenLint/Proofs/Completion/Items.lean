import RazenLint.Proofs.Completion.Context
import RazenLint.Proofs.Symbol.References

/-!
# The candidates at a cursor

`Offers` says which items a context offers : the functions of a library, libraries, keywords,
and the variables that the lines above declare, each with a name that goes on with the typed
word (`mem_items_iff`). No two items of a context have a kind and a label in common
(`nodup_keys_items`), so sorting them drops none, and at a cursor in code exactly the items of
the context are offered, by kind and label (`complete_of_asks`).

`complete_offers` puts this together with what is offered elsewhere.
-/

namespace RazenLint

open Text

/-! ## Positions -/

/-- A position stands behind a text on one of the lines. Below the last line there is one
more, which is empty. -/
def Position.Follows (position : Position) (text before : List Char) : Prop :=
  ∃ behind, (lines text ++ [[]])[position.line]? = some (before ++ behind) ∧
    before.length = position.character

theorem lineForCursor?_eq (text : List Char) (line : Nat) :
    lineForCursor? text line = (lines text ++ [[]])[line]? := by
  unfold lineForCursor?
  split
  · rename_i hline
    rw [hline, List.getElem?_concat_length]
  · rename_i hline
    rcases Nat.lt_or_gt_of_ne hline with hlt | hgt
    · rw [List.getElem?_append_left hlt]
    · rw [List.getElem?_eq_none hgt.le, List.getElem?_eq_none (by simp; omega)]

theorem textBefore?_eq_some_iff {text before : List Char} {position : Position} :
    textBefore? text position = some before ↔ position.Follows text before := by
  unfold textBefore? Position.Follows
  rw [lineForCursor?_eq]
  cases (lines text ++ [[]])[position.line]? with
  | none => simp
  | some line =>
    simp only [Option.bind_eq_bind, Option.bind_some, Option.pure_def,
      Option.ite_none_right_eq_some, Option.some.injEq]
    constructor
    · rintro ⟨hle, rfl⟩
      exact ⟨line.drop position.character, (List.take_append_drop _ _).symm,
        List.length_take_of_le hle⟩
    · rintro ⟨behind, rfl, hlength⟩
      rw [← hlength]
      exact ⟨by simp, by simp⟩

theorem Position.Follows.unique {text before before' : List Char} {position : Position}
    (h : position.Follows text before) (h' : position.Follows text before') : before = before' := by
  rw [← textBefore?_eq_some_iff] at h h'
  exact Option.some.inj (h.symm.trans h')

/-! ## What a context offers -/

/-- The events of the lines above a line. -/
def eventsAbove (text : List Char) (line : Nat) : List Event :=
  eventsFrom 0 ((lines text).take line)

/-- An item is one that a context on a line offers. Names of libraries go on with the typed
word in lower case, and a variable is offered with its last declaration above the line. -/
inductive Offers (text : List Char) (line : Nat) : Context → CompletionItem → Prop where
  | function {name word : List Char} {library : Library} {f : LibraryFunction}
    (hlibrary : library ∈ standardLibraries)
    (hname : library.name = asciiLower (String.ofList name)) (hf : f ∈ library.functions)
    (hword : word <+: f.name.toList) :
    Offers text line (.function name word) (functionItem library f)
  | imported {word : List Char} {name : String} (hname : name ∈ libraryNames)
    (hword : word.map Char.toLower <+: name.toList) :
    Offers text line (.imported word) ⟨name, .library, some "library", none⟩
  | declaring {word : List Char} {keyword : String} {kind : Kind}
    (hkeyword : (keyword, kind) ∈ declarationKeywords) (hword : word <+: keyword.toList) :
    Offers text line (.statement word)
      ⟨keyword, .keyword, some ("declare a " ++ kind.name ++ " variable"),
        some (keyword ++ " $\x7b1:name\x7d = $\x7b2:value\x7d")⟩
  | importing {word : List Char} {keyword : String} (hkeyword : keyword ∈ importKeywords)
    (hword : word <+: keyword.toList) :
    Offers text line (.statement word)
      ⟨keyword, .keyword, some "import a library", some (keyword ++ " $\x7b1:library\x7d")⟩
  | library {word : List Char} {name : String} (hname : name ∈ libraryNames)
    (hword : word.map Char.toLower <+: name.toList) :
    Offers text line (.expression word) ⟨name, .library, some "library", none⟩
  | var {word : List Char} {d : Declaration} (hd : LastDeclaration (eventsAbove text line) d)
    (hword : word <+: d.name.toList) :
    Offers text line (.expression word) ⟨d.name, .var, some d.kind.name, none⟩

theorem beginsWith_iff {name : String} {word : List Char} :
    beginsWith name word = true ↔ word <+: name.toList :=
  List.isPrefixOf_iff_prefix

theorem nodup_libraryNames : libraryNames.Nodup := by
  decide +kernel

/-- A name stands for the one library that has it in lower case. -/
theorem Library.resolve?_eq_some_iff {name : String} {library : Library} :
    Library.resolve? name = some library ↔
      library ∈ standardLibraries ∧ library.name = asciiLower name := by
  constructor
  · intro h
    exact ⟨List.mem_of_find?_eq_some h, by simpa using List.find?_some h⟩
  · rintro ⟨hmem, hname⟩
    obtain ⟨found, hfound, hsame⟩ :=
      Library.exists_resolve?_iff.2 ⟨List.mem_map_of_mem hmem, hname.symm⟩
    rw [hfound, List.inj_on_of_nodup_map nodup_libraryNames (List.mem_of_find?_eq_some hfound)
      hmem hsame]

theorem mem_functionItems_iff {name word : List Char} {item : CompletionItem} :
    item ∈ functionItems name word ↔ ∃ library f, library ∈ standardLibraries ∧
      library.name = asciiLower (String.ofList name) ∧ f ∈ library.functions ∧
        word <+: f.name.toList ∧ functionItem library f = item := by
  unfold functionItems
  cases hresolve : Library.resolve? (String.ofList name) with
  | none =>
    refine iff_of_false List.not_mem_nil ?_
    rintro ⟨library, f, hlibrary, hname, -⟩
    rw [Library.resolve?_eq_some_iff.2 ⟨hlibrary, hname⟩] at hresolve
    cases hresolve
  | some found =>
    simp only [List.mem_map, List.mem_filter, beginsWith_iff, and_assoc]
    constructor
    · rintro ⟨f, hf, hword, rfl⟩
      obtain ⟨hlibrary, hname⟩ := Library.resolve?_eq_some_iff.1 hresolve
      exact ⟨found, f, hlibrary, hname, hf, hword, rfl⟩
    · rintro ⟨library, f, hlibrary, hname, hf, hword, rfl⟩
      obtain rfl : library = found := by
        rw [← Option.some.injEq, ← hresolve, Library.resolve?_eq_some_iff.2 ⟨hlibrary, hname⟩]
      exact ⟨f, hf, hword, rfl⟩

theorem mem_libraryItems_iff {word : List Char} {item : CompletionItem} :
    item ∈ libraryItems word ↔ ∃ name ∈ libraryNames, word.map Char.toLower <+: name.toList ∧
      ⟨name, .library, some "library", none⟩ = item := by
  simp only [libraryItems, List.mem_map, List.mem_filter, beginsWith_iff, and_assoc]

/-! ## Variables -/

/-- A declaration names its variable on one of the lines. -/
theorem line_of_mem_eventsFrom {index : Nat} {ls : List (List Char)} {d : Declaration}
    (h : .declaration d ∈ eventsFrom index ls) :
    index ≤ d.nameSpan.line ∧ d.nameSpan.line < index + ls.length := by
  obtain ⟨i, line, hline, he⟩ := mem_eventsFrom_iff.1 h
  have hi : i < ls.length := (List.getElem?_eq_some_iff.1 hline).1
  rcases of_mem_eventsOfLine he with ⟨a, -, hd⟩ | ⟨words, -, hd⟩ | ⟨column, head, bound, -, hd⟩
  · rw [Event.declaration.inj hd]
    simp only [Declaration.ofAssignment]
    omega
  · cases hd
  · cases hd

/-- Only the lines above tell which variables are offered. -/
theorem variableItems_eq (text : List Char) (line : Nat) (word : List Char) :
    variableItems text line word =
      (Table.ofEntries ((eventsAbove text line).filterMap fun event =>
        event.declaration?.bind fun d =>
          if beginsWith d.name word then some (d.name, d.kind) else none)).map
      fun (name, kind) => ⟨name, .var, some kind.name, none⟩ := by
  have hevents : events text = eventsAbove text line ++
      eventsFrom ((lines text).take line).length ((lines text).drop line) := by
    rw [events, eventsAbove, ← Nat.zero_add (List.length _), ← eventsFrom_append,
      List.take_append_drop]
  have habove : ∀ e ∈ eventsAbove text line, (e.declaration?.bind fun d =>
      if d.nameSpan.line < line && beginsWith d.name word then some (d.name, d.kind) else none) =
      e.declaration?.bind fun d =>
        if beginsWith d.name word then some (d.name, d.kind) else none := by
    intro e he
    cases e with
    | declaration d =>
      have hline : d.nameSpan.line < line := by
        have := (line_of_mem_eventsFrom he).2
        rw [List.length_take] at this
        omega
      simp [Event.declaration?, hline]
    | imported i => rfl
    | call c => rfl
  have hbelow : ∀ e ∈ eventsFrom ((lines text).take line).length ((lines text).drop line),
      (e.declaration?.bind fun d =>
        if d.nameSpan.line < line && beginsWith d.name word then some (d.name, d.kind)
          else none) = none := by
    intro e he
    cases e with
    | declaration d =>
      have hline : ¬d.nameSpan.line < line := by
        have := line_of_mem_eventsFrom he
        rw [List.length_take, List.length_drop] at this
        omega
      simp [Event.declaration?, hline]
    | imported i => rfl
    | call c => rfl
  unfold variableItems
  dsimp only
  rw [hevents, List.filterMap_append, List.filterMap_congr habove,
    List.filterMap_eq_nil_iff.2 hbelow, List.append_nil]

theorem mem_variableItems_iff {text : List Char} {line : Nat} {word : List Char}
    {item : CompletionItem} : item ∈ variableItems text line word ↔
      ∃ d, LastDeclaration (eventsAbove text line) d ∧ word <+: d.name.toList ∧
        ⟨d.name, .var, some d.kind.name, none⟩ = item := by
  have htold : ∀ (e : Event) (name : String) (kind : Kind),
      (e.declaration?.bind fun d =>
          if beginsWith d.name word then some (d.name, d.kind) else none) = some (name, kind) ↔
        ∃ d, e = .declaration d ∧ word <+: d.name.toList ∧ d.name = name ∧ d.kind = kind := by
    intro e name kind
    cases e <;> simp [Event.declaration?, beginsWith_iff]
  rw [variableItems_eq, List.mem_map]
  simp only [Prod.exists, ← (Table.sorted_ofEntries _).get?_eq_some_iff,
    Table.get?_ofEntries_filterMap_iff, htold, ne_eq, not_exists, not_and]
  constructor
  · rintro ⟨name, kind, ⟨before, e, after, hsplit, ⟨d, rfl, hword, rfl, rfl⟩, hafter⟩, rfl⟩
    refine ⟨d, ⟨before, after, hsplit, fun later hlater hname => ?_⟩, hword, rfl⟩
    exact hafter _ hlater later.kind later rfl (hname ▸ hword) hname rfl
  · rintro ⟨d, ⟨before, after, hsplit, hafter⟩, hword, rfl⟩
    refine ⟨d.name, d.kind, ⟨before, _, after, hsplit, ⟨d, rfl, hword, rfl, rfl⟩, ?_⟩, rfl⟩
    rintro _ hlater kind later rfl - hname -
    exact hafter later hlater hname

/-! ## The items of a context -/

/-- The items of a context are those that it offers. -/
theorem mem_items_iff {text : List Char} {line : Nat} {context : Context} {item : CompletionItem} :
    item ∈ context.items text line ↔ Offers text line context item := by
  cases context with
  | function name word =>
    rw [Context.items, mem_functionItems_iff]
    constructor
    · rintro ⟨library, f, hlibrary, hname, hf, hword, rfl⟩
      exact .function hlibrary hname hf hword
    · intro h
      cases h with
      | function hlibrary hname hf hword => exact ⟨_, _, hlibrary, hname, hf, hword, rfl⟩
  | imported word =>
    rw [Context.items, mem_libraryItems_iff]
    constructor
    · rintro ⟨name, hname, hword, rfl⟩
      exact .imported hname hword
    · intro h
      cases h with
      | imported hname hword => exact ⟨_, hname, hword, rfl⟩
  | statement word =>
    simp only [Context.items, keywordItems, List.mem_append, List.mem_map, List.mem_filter,
      beginsWith_iff, Prod.exists]
    constructor
    · rintro (⟨keyword, kind, ⟨hkeyword, hword⟩, rfl⟩ | ⟨keyword, ⟨hkeyword, hword⟩, rfl⟩)
      · exact .declaring hkeyword hword
      · exact .importing hkeyword hword
    · intro h
      cases h with
      | declaring hkeyword hword => exact Or.inl ⟨_, _, ⟨hkeyword, hword⟩, rfl⟩
      | importing hkeyword hword => exact Or.inr ⟨_, ⟨hkeyword, hword⟩, rfl⟩
  | expression word =>
    rw [Context.items, List.mem_append, mem_variableItems_iff, mem_libraryItems_iff]
    constructor
    · rintro (⟨d, hd, hword, rfl⟩ | ⟨name, hname, hword, rfl⟩)
      · exact .var hd hword
      · exact .library hname hword
    · intro h
      cases h with
      | library hname hword => exact Or.inr ⟨_, hname, hword, rfl⟩
      | var hd hword => exact Or.inl ⟨_, hd, hword, rfl⟩

theorem CompletionKind.rank_injective : Function.Injective CompletionKind.rank := by
  intro a b h
  cases a <;> cases b <;> first | rfl | cases h

namespace CompletionItem

/-- What an item is known by. -/
def key (item : CompletionItem) : CompletionKind × String :=
  (item.kind, item.label)

/-- One item comes before another one by its kind and its label. -/
def Before (a b : CompletionItem) : Prop :=
  a.kind.rank < b.kind.rank ∨ (a.kind = b.kind ∧ a.label < b.label)

/-- The items are sorted by kind and label. -/
theorem isLE_compare_iff (a b : CompletionItem) : (a.compare b).isLE = true ↔
    a.kind.rank < b.kind.rank ∨ (a.kind = b.kind ∧ a.label ≤ b.label) := by
  have hlabels : (Ord.compare a.label b.label).isLE = true ↔ a.label ≤ b.label := by
    rw [Ordering.isLE_iff_ne_gt]
    exact compare_le_iff_le
  rw [compare, Ordering.isLE_then_iff_or, Nat.compare_eq_lt, Nat.compare_eq_eq, hlabels,
    CompletionKind.rank_injective.eq_iff]

theorem pairwise_mergeSort (items : List CompletionItem) :
    (items.mergeSort fun a b => (a.compare b).isLE).Pairwise fun a b =>
      (a.compare b).isLE = true := by
  refine List.pairwise_mergeSort (fun a b c => ?_) (fun a b => ?_) _
  · rw [isLE_compare_iff, isLE_compare_iff, isLE_compare_iff]
    rintro (hab | ⟨hab, hlabel⟩) (hbc | ⟨hbc, hlabel'⟩)
    · exact Or.inl (hab.trans hbc)
    · exact Or.inl (hbc ▸ hab)
    · exact Or.inl (hab ▸ hbc)
    · exact Or.inr ⟨hab.trans hbc, hlabel.trans hlabel'⟩
  · rw [Bool.or_eq_true, isLE_compare_iff, isLE_compare_iff]
    rcases lt_trichotomy a.kind.rank b.kind.rank with h | h | h
    · exact Or.inl (Or.inl h)
    · have hkind := CompletionKind.rank_injective h
      exact (le_total a.label b.label).imp (fun h => Or.inr ⟨hkind, h⟩)
        fun h => Or.inr ⟨hkind.symm, h⟩
    · exact Or.inr (Or.inl h)

/-- Sorted items with different keys come strictly one after the other. -/
theorem before_of_isLE_compare {a b : CompletionItem} (h : (a.compare b).isLE = true)
    (hkey : a.key ≠ b.key) : a.Before b := by
  rcases (isLE_compare_iff a b).1 h with h | ⟨hkind, hlabel⟩
  · exact Or.inl h
  · exact Or.inr ⟨hkind, lt_of_le_of_ne hlabel fun heq => hkey (Prod.ext hkind heq)⟩

theorem Before.key_ne {a b : CompletionItem} (h : a.Before b) : a.key ≠ b.key := by
  intro hkey
  obtain ⟨hkind, hlabel⟩ := Prod.mk.inj hkey
  rcases h with h | ⟨-, h⟩
  · exact h.ne (congrArg _ hkind)
  · exact h.ne hlabel

theorem key_eq_of_compare {a b : CompletionItem} (h : a.compare b = .eq) : a.key = b.key := by
  rw [compare, Ordering.then_eq_eq, Nat.compare_eq_eq] at h
  exact Prod.ext (CompletionKind.rank_injective h.1) (compare_eq_iff_eq.1 h.2)

end CompletionItem

/-- Where no item repeats the one before it, nothing is dropped. -/
theorem dropRepeatedItems_eq_self : ∀ {items : List CompletionItem},
    items.Pairwise CompletionItem.Before → dropRepeatedItems items = items
  | [], _ => by rw [dropRepeatedItems]
  | [_], _ => by rw [dropRepeatedItems]
  | first :: second :: rest, h => by
    obtain ⟨hfirst, hrest⟩ := List.pairwise_cons.1 h
    have hne : first.compare second ≠ .eq := fun heq =>
      (hfirst second List.mem_cons_self).key_ne (CompletionItem.key_eq_of_compare heq)
    rw [dropRepeatedItems, if_neg hne, dropRepeatedItems_eq_self hrest]

/-! ## No item twice -/

theorem nodup_functionNames : ∀ library ∈ standardLibraries, library.functionNames.Nodup := by
  decide +kernel

theorem nodup_labels_functionItems (name word : List Char) :
    ((functionItems name word).map CompletionItem.label).Nodup := by
  unfold functionItems
  cases hresolve : Library.resolve? (String.ofList name) with
  | none => exact List.nodup_nil
  | some library =>
    have hnodup := nodup_functionNames library (Library.resolve?_eq_some_iff.1 hresolve).1
    dsimp only
    rw [List.map_map]
    exact hnodup.sublist (List.filter_sublist.map _)

theorem nodup_labels_libraryItems (word : List Char) :
    ((libraryItems word).map CompletionItem.label).Nodup := by
  rw [libraryItems, List.map_map]
  exact (nodup_libraryNames.sublist List.filter_sublist).map fun _ _ h => h

theorem nodup_labels_keywordItems (word : List Char) :
    ((keywordItems word).map CompletionItem.label).Nodup := by
  have hnodup : (declarationKeywords.map (·.1) ++ importKeywords).Nodup := by decide +kernel
  rw [keywordItems, List.map_append, List.map_map, List.map_map]
  refine hnodup.sublist ((List.filter_sublist.map _).append ?_)
  exact (List.map_id' (importKeywords.filter _)).symm ▸ List.filter_sublist

theorem nodup_labels_variableItems (text : List Char) (line : Nat) (word : List Char) :
    ((variableItems text line word).map CompletionItem.label).Nodup := by
  rw [variableItems_eq, List.map_map]
  exact (Table.sorted_ofEntries _).imp ne_of_lt

/-- Items with different labels have different keys. -/
theorem nodup_keys_of_nodup_labels {items : List CompletionItem}
    (h : (items.map CompletionItem.label).Nodup) : (items.map CompletionItem.key).Nodup := by
  have hlabels : items.map CompletionItem.label = (items.map CompletionItem.key).map Prod.snd := by
    rw [List.map_map]
    rfl
  rw [hlabels] at h
  exact h.of_map

/-- No two items of a context have a kind and a label in common. -/
theorem nodup_keys_items (text : List Char) (line : Nat) (context : Context) :
    ((context.items text line).map CompletionItem.key).Nodup := by
  cases context with
  | function name word => exact nodup_keys_of_nodup_labels (nodup_labels_functionItems name word)
  | imported word => exact nodup_keys_of_nodup_labels (nodup_labels_libraryItems word)
  | statement word => exact nodup_keys_of_nodup_labels (nodup_labels_keywordItems word)
  | expression word =>
    rw [Context.items, List.map_append, List.nodup_append]
    refine ⟨nodup_keys_of_nodup_labels (nodup_labels_variableItems text line word),
      nodup_keys_of_nodup_labels (nodup_labels_libraryItems word), ?_⟩
    -- a variable and a library may have one name, but they are of two kinds
    intro key hvariable other hlibrary heq
    obtain ⟨item, hitem, rfl⟩ := List.mem_map.1 hvariable
    obtain ⟨item', hitem', rfl⟩ := List.mem_map.1 hlibrary
    obtain ⟨d, -, -, rfl⟩ := mem_variableItems_iff.1 hitem
    obtain ⟨name, -, -, rfl⟩ := mem_libraryItems_iff.1 hitem'
    cases congrArg Prod.fst heq

/-! ## The items at a cursor -/

/-- The items of a context in their order. -/
theorem pairwise_sortedItems (text : List Char) (line : Nat) (context : Context) :
    ((context.items text line).mergeSort fun a b => (a.compare b).isLE).Pairwise
      CompletionItem.Before := by
  have hperm := List.mergeSort_perm (context.items text line) fun a b => (a.compare b).isLE
  have hnodup := (hperm.map CompletionItem.key).nodup_iff.2 (nodup_keys_items text line context)
  refine (CompletionItem.pairwise_mergeSort _).imp₂ (fun a b hle hne => ?_)
    (List.pairwise_map.1 hnodup)
  exact CompletionItem.before_of_isLE_compare hle hne

section

variable {text before front word : List Char} {position : Position} {context : Context}

/-- At a cursor in code the items of the context that is asked for are offered. -/
theorem complete_of_asks (hbefore : position.Follows text before)
    (hcomment : isCommentLine before = false)
    (hliteral : (Reading.code.after before).isOpen = false) (htyped : Typed before front word)
    (hasks : Asks front word context) : complete text position =
      (context.items text position.line).mergeSort fun a b => (a.compare b).isLE := by
  rw [complete, textBefore?_eq_some_iff.2 hbefore]
  dsimp only
  rw [insideLiteral_eq, hcomment, hliteral, if_neg (by simp),
    (ofText?_eq_some_iff htyped).2 hasks]
  exact dropRepeatedItems_eq_self (pairwise_sortedItems text position.line context)

theorem mem_complete_iff (hbefore : position.Follows text before)
    (hcomment : isCommentLine before = false)
    (hliteral : (Reading.code.after before).isOpen = false) (htyped : Typed before front word)
    (hasks : Asks front word context) {item : CompletionItem} :
    item ∈ complete text position ↔ Offers text position.line context item := by
  rw [complete_of_asks hbefore hcomment hliteral htyped hasks, List.mem_mergeSort, mem_items_iff]

/-- Where something is offered, the cursor is in code and a context is asked for. -/
theorem exists_asks_of_mem_complete {item : CompletionItem} (h : item ∈ complete text position) :
    ∃ before front word context, position.Follows text before ∧ isCommentLine before = false ∧
      (Reading.code.after before).isOpen = false ∧ Typed before front word ∧
        Asks front word context := by
  rw [complete] at h
  split at h
  · exact absurd h List.not_mem_nil
  · rename_i before hbefore
    split at h
    · exact absurd h List.not_mem_nil
    · rename_i hcode
      rw [insideLiteral_eq, Bool.or_eq_true, not_or, Bool.not_eq_true, Bool.not_eq_true] at hcode
      split at h
      · exact absurd h List.not_mem_nil
      · rename_i context hcontext
        have htyped := typed_lastWord before
        exact ⟨before, _, _, context, textBefore?_eq_some_iff.1 hbefore, hcode.1, hcode.2, htyped,
          (ofText?_eq_some_iff htyped).1 hcontext⟩

/-- The label of an item goes on with a word, that of a library with the word in lower case. -/
def CompletionItem.GoesOnWith (item : CompletionItem) (word : List Char) : Prop :=
  (if item.kind = .library then word.map Char.toLower else word) <+: item.label.toList

theorem Offers.goesOnWith {line : Nat} {item : CompletionItem} (hasks : Asks front word context)
    (h : Offers text line context item) : item.GoesOnWith word := by
  cases hasks with
  | function => cases h with
    | function hlibrary hname hf hword => exact hword
  | imported => cases h with
    | imported hname hword => exact hword
  | statement => cases h with
    | declaring hkeyword hword => exact hword
    | importing hkeyword hword => exact hword
  | expression => cases h with
    | library hname hword => exact hword
    | var hd hword => exact hword

/-- Behind a point nothing is asked for. -/
theorem not_asks_of_point (hpoint : front.getLast? = some '.') : ¬Asks front word context := by
  have hblank : isBlank '.' = false := by decide
  intro h
  cases h with
  | function h =>
    obtain ⟨c, hc, -, hne⟩ := h.getLast?
    rw [hpoint] at hc
    exact hne (Option.some.inj hc).symm
  | imported h =>
    obtain ⟨indent, keyword, gap, rfl, -, -, hgap, hne⟩ := h
    rw [← List.append_assoc, List.getLast?_append_of_ne_nil _ hne] at hpoint
    rw [hgap '.' (List.mem_of_getLast? hpoint)] at hblank
    exact absurd hblank (by simp)
  | statement h =>
    rw [h '.' (List.mem_of_getLast? hpoint)] at hblank
    exact absurd hblank (by simp)
  | expression _ _ _ h => exact h hpoint

end

/-- What is offered at a position. Outside the text that is nothing. The items are in strict
order, so no kind and label are there twice, and their labels go on with the typed word. In code
they are exactly those that the context offers, and none behind a point. -/
theorem complete_offers (text : List Char) (position : Position) :
    ((∀ before, ¬position.Follows text before) → complete text position = []) ∧
      (complete text position).Pairwise CompletionItem.Before ∧
      ((complete text position).map CompletionItem.key).Nodup ∧
      ∀ before front word, position.Follows text before → Typed before front word →
        (∀ item ∈ complete text position, item.GoesOnWith word) ∧
        (isCommentLine before = false → (Reading.code.after before).isOpen = false →
          (∀ context, Asks front word context →
            ∀ item, item ∈ complete text position ↔ Offers text position.line context item) ∧
          (front.getLast? = some '.' → complete text position = [])) := by
  have hpairwise : (complete text position).Pairwise CompletionItem.Before := by
    cases hitems : complete text position with
    | nil => exact List.Pairwise.nil
    | cons item rest =>
      obtain ⟨before, front, word, context, hbefore, hcomment, hliteral, htyped, hasks⟩ :=
        exists_asks_of_mem_complete (hitems ▸ List.mem_cons_self)
      rw [← hitems, complete_of_asks hbefore hcomment hliteral htyped hasks]
      exact pairwise_sortedItems text position.line context
  refine ⟨fun houtside => ?_, hpairwise, ?_, fun before front word hbefore htyped =>
    ⟨fun item hitem => ?_, fun hcomment hliteral => ⟨fun context hasks item =>
      mem_complete_iff hbefore hcomment hliteral htyped hasks, fun hpoint => ?_⟩⟩⟩
  · refine List.eq_nil_iff_forall_not_mem.2 fun item hitem => ?_
    obtain ⟨before, front, word, context, hbefore, -⟩ := exists_asks_of_mem_complete hitem
    exact houtside before hbefore
  · exact List.pairwise_map.2 (hpairwise.imp CompletionItem.Before.key_ne)
  · obtain ⟨before', front', word', context, hbefore', hcomment, hliteral, htyped', hasks⟩ :=
      exists_asks_of_mem_complete hitem
    obtain rfl := hbefore.unique hbefore'
    obtain ⟨rfl, rfl⟩ := htyped.unique htyped'
    exact ((mem_complete_iff hbefore hcomment hliteral htyped hasks).1 hitem).goesOnWith hasks
  · refine List.eq_nil_iff_forall_not_mem.2 fun item hitem => ?_
    obtain ⟨before', front', word', context, hbefore', -, -, htyped', hasks⟩ :=
      exists_asks_of_mem_complete hitem
    obtain rfl := hbefore.unique hbefore'
    obtain ⟨rfl, rfl⟩ := htyped.unique htyped'
    exact not_asks_of_point hpoint hasks

/-- A variable that is declared twice above the cursor, and a library. -/
theorem complete_offers_redeclared :
    (⟨"map", .var, some "textual", none⟩ : CompletionItem) ∈
        complete "let map = 1\ntake map = \"x\"\nlet y = ma".toList ⟨2, 10⟩ ∧
      (⟨"mathlib", .library, some "library", none⟩ : CompletionItem) ∈
        complete "let map = 1\ntake map = \"x\"\nlet y = ma".toList ⟨2, 10⟩ := by
  have htyped : Typed "let y = ma".toList "let y = ".toList "ma".toList :=
    ⟨rfl, List.all_eq_true.1 (by decide +kernel), by decide +kernel⟩
  have hlast : LastDeclaration
      (eventsAbove "let map = 1\ntake map = \"x\"\nlet y = ma".toList 2)
      ⟨"take", .textual, "map", ⟨1, 5, 8⟩, ⟨1, 0, 14⟩, "\"x\"", none⟩ :=
    ⟨[.declaration ⟨"let", .numeric, "map", ⟨0, 4, 7⟩, ⟨0, 0, 11⟩, "1", none⟩], [],
      by decide +kernel, by simp⟩
  have hitems := (((complete_offers "let map = 1\ntake map = \"x\"\nlet y = ma".toList
    ⟨2, 10⟩).2.2.2 _ _ _ ⟨[], by decide +kernel, by decide⟩ htyped).2 (by decide)
      (by decide +kernel)).1 (.expression "ma".toList)
      ((ofText?_eq_some_iff htyped).1 (by decide +kernel))
  exact ⟨(hitems _).2 (.var hlast (by decide)),
    (hitems _).2 (.library (by decide +kernel) (by decide))⟩

end RazenLint
