import RazenLint.Proofs.Event.Match
import RazenLint.Proofs.Symbol.Occurrence

/-!
# Symbol tables of matching texts

When the events of two texts are counterparts of each other and their words
correspond, place by place, the symbol tables hold the same names with the same kinds,
and the references of a name correspond (`SymbolTable.ofEvents_match`). Words need not
be the same where a call names its library : a site of a call is never a reference.
-/

namespace RazenLint

open Text

/-- Items that correspond are items of the two lists. -/
theorem forall₂_and_mem {α β : Type} {R : α → β → Prop} {l : List α} {l' : List β}
    (h : List.Forall₂ R l l') : List.Forall₂ (fun a b => R a b ∧ a ∈ l ∧ b ∈ l') l l' := by
  rw [List.forall₂_iff_zip] at h ⊢
  exact ⟨h.1, fun hab => ⟨h.2 hab, List.of_mem_zip hab⟩⟩

/-! ## Tables -/

namespace Table

variable {α β : Type} {R : α → β → Prop}

/-- Two entries under one key with values that correspond. -/
def SameKey (R : α → β → Prop) (p : String × α) (q : String × β) : Prop :=
  p.1 = q.1 ∧ R p.2 q.2

theorem forall₂_insert {key : String} {value : α} {value' : β} (hvalue : R value value') :
    ∀ {table : Table α} {table' : Table β}, List.Forall₂ (SameKey R) table table' →
      List.Forall₂ (SameKey R) (table.insert key value) (table'.insert key value')
  | [], _, List.Forall₂.nil => List.Forall₂.cons ⟨rfl, hvalue⟩ List.Forall₂.nil
  | (k, v) :: _, _, List.Forall₂.cons (b := (_, _)) ⟨rfl, hv⟩ h => by
    unfold insert
    split
    · exact List.Forall₂.cons ⟨rfl, hvalue⟩ (List.Forall₂.cons ⟨rfl, hv⟩ h)
    · split
      · exact List.Forall₂.cons ⟨rfl, hvalue⟩ h
      · exact List.Forall₂.cons ⟨rfl, hv⟩ (forall₂_insert hvalue h)

theorem forall₂_ofEntries {entries : List (String × α)} {entries' : List (String × β)}
    (h : List.Forall₂ (SameKey R) entries entries') :
    List.Forall₂ (SameKey R) (ofEntries entries) (ofEntries entries') :=
  List.rel_foldl (fun _ _ htable p q hpq => by
    obtain ⟨hkey, hvalue⟩ := hpq
    dsimp only
    rw [← hkey]
    exact forall₂_insert hvalue htable) List.Forall₂.nil h

theorem mem_insert {key : String} {value : α} {p : String × α} :
    ∀ {table : Table α}, p ∈ table.insert key value → p = (key, value) ∨ p ∈ table
  | [], h => Or.inl (List.mem_singleton.1 h)
  | (k, v) :: rest, h => by
    unfold insert at h
    split at h
    · exact List.mem_cons.1 h
    · split at h
      · exact (List.mem_cons.1 h).imp_right (List.mem_cons_of_mem _)
      · rcases List.mem_cons.1 h with h | h
        · exact Or.inr (h ▸ List.mem_cons_self)
        · exact (mem_insert h).imp_right (List.mem_cons_of_mem _)

/-- Whatever a table holds is one of its entries. -/
theorem mem_of_mem_ofEntries {p : String × α} {entries : List (String × α)}
    (h : p ∈ ofEntries entries) : p ∈ entries := by
  suffices ∀ (entries : List (String × α)) (table : Table α),
      p ∈ entries.foldl (fun table entry => table.insert entry.1 entry.2) table →
        p ∈ entries ∨ p ∈ table by
    exact (this entries [] h).resolve_right List.not_mem_nil
  intro entries
  induction entries with
  | nil => exact fun _ h => Or.inr h
  | cons entry rest ih =>
    intro table h
    rcases ih _ h with h | h
    · exact Or.inl (List.mem_cons_of_mem _ h)
    · rcases mem_insert h with rfl | h
      · exact Or.inl List.mem_cons_self
      · exact Or.inr h

end Table

/-! ## Counterparts of tables -/

variable {N E : Span → Span → Prop}

structure Variable.Match (N E : Span → Span → Prop) (v v' : Variable) : Prop where
  span : N v.span v'.span
  statement : E v.statement v'.statement
  kind : v.kind = v'.kind
  references : List.Forall₂ N v.references v'.references

structure ImportedLibrary.Match (N : Span → Span → Prop) (l l' : ImportedLibrary) : Prop where
  span : N l.span l'.span
  references : List.Forall₂ N l.references l'.references

/-- Two tables with the same names, and with references that correspond. -/
structure SymbolTable.Match (N E : Span → Span → Prop) (t t' : SymbolTable) : Prop where
  declared : List.Forall₂ (Table.SameKey (Variable.Match N E)) t.declared t'.declared
  libraries : List.Forall₂ (Table.SameKey (ImportedLibrary.Match N)) t.libraries t'.libraries

/-- Two words that are counted as the same reference, or that both name something in a call. -/
structure Occurrence.Match (N : Span → Span → Prop) (sites sites' : List Span)
    (o o' : Occurrence) : Prop where
  span : N o.span o'.span
  isMember : o.isMember = o'.isMember
  word : o.word = o'.word ∨ (o.span ∈ sites ∧ o'.span ∈ sites')

theorem Occurrence.Match.mono {sites sites' more more' : List Span} {o o' : Occurrence}
    (h : o.Match N sites sites' o') (hsites : sites ⊆ more) (hsites' : sites' ⊆ more') :
    o.Match N more more' o' :=
  ⟨h.span, h.isMember, h.word.imp_right fun hw => ⟨hsites hw.1, hsites' hw.2⟩⟩

variable {es es' : List Event}

theorem forall₂_sites (h : List.Forall₂ (Event.Counterpart N E) es es') :
    List.Forall₂ N (es.flatMap Event.sites) (es'.flatMap Event.sites) := by
  refine List.rel_flatMap h fun e e' he => ?_
  cases he with
  | declaration h => exact List.Forall₂.cons h.nameSpan List.Forall₂.nil
  | imported h => exact List.Forall₂.cons h.span List.Forall₂.nil
  | call h =>
    unfold Event.sites
    dsimp only
    rw [← h.site]
    split
    · exact List.Forall₂.cons h.librarySpan (List.Forall₂.cons h.functionSpan List.Forall₂.nil)
    · exact List.Forall₂.nil

theorem forall₂_lastDeclarations (h : List.Forall₂ (Event.Counterpart N E) es es') :
    List.Forall₂ (Table.SameKey (Declaration.Match N E)) (lastDeclarations es)
      (lastDeclarations es') := by
  refine Table.forall₂_ofEntries (List.rel_map (fun d d' hd => ⟨hd.name, hd⟩) ?_)
  refine List.rel_filterMap (fun e e' he => ?_) h
  cases he with
  | declaration h => exact Option.Rel.some h
  | imported h => exact Option.Rel.none
  | call h => exact Option.Rel.none

theorem forall₂_lastImports (h : List.Forall₂ (Event.Counterpart N E) es es') :
    List.Forall₂ (Table.SameKey N) (lastImports es) (lastImports es') := by
  have himports : List.Forall₂ (Import.Counterpart N) (es.filterMap Event.import?)
      (es'.filterMap Event.import?) := by
    refine List.rel_filterMap (fun e e' he => ?_) h
    cases he with
    | declaration h => exact Option.Rel.none
    | imported h => exact Option.Rel.some h
    | call h => exact Option.Rel.none
  refine Table.forall₂_ofEntries (List.rel_filterMap (fun i i' hi => ?_) himports)
  rw [← hi.library]
  cases Library.resolve? i.name with
  | none => exact Option.Rel.none
  | some library => exact Option.Rel.some ⟨rfl, hi.span⟩

theorem forall₂_callsInto (h : List.Forall₂ (Event.Counterpart N E) es es') (name : String) :
    List.Forall₂ N (callsInto es name) (callsInto es' name) := by
  have hcalls : List.Forall₂ (LibraryCall.Counterpart N) (es.filterMap Event.call?)
      (es'.filterMap Event.call?) := by
    refine List.rel_filterMap (fun e e' he => ?_) h
    cases he with
    | declaration h => exact Option.Rel.none
    | imported h => exact Option.Rel.none
    | call h => exact Option.Rel.some h
  refine List.rel_filterMap (fun c c' hc => ?_) hcalls
  rw [← hc.library]
  split
  · exact Option.Rel.some hc.librarySpan
  · exact Option.Rel.none

/-- The references of a name correspond when the words do. -/
theorem forall₂_referencesTo (hN : Relator.BiUnique N) {sites sites' : List Span}
    (hsites : List.Forall₂ N sites sites') {words words' : List Occurrence}
    (hwords : List.Forall₂ (Occurrence.Match N sites sites') words words') (name : String)
    {statement statement' : Span}
    (hpast : ∀ o ∈ words, ∀ o' ∈ words', N o.span o'.span →
      o.span.isPast statement = o'.span.isPast statement') :
    List.Forall₂ N (referencesTo sites words name statement)
      (referencesTo sites' words' name statement') := by
  unfold referencesTo
  split
  · exact List.Forall₂.nil
  · refine List.rel_map (fun o o' ho => ho.1.span) (List.rel_filter ?_ (forall₂_and_mem hwords))
    rintro o o' ⟨ho, hmem, hmem'⟩
    have hcontains : o.span ∈ sites ↔ o'.span ∈ sites' := List.rel_mem hN ho.span hsites
    simp only [Bool.and_eq_true, decide_eq_true_eq, Bool.not_eq_true', List.contains_eq_mem,
      decide_eq_false_iff_not, ho.isMember, hcontains, hpast o hmem o' hmem' ho.span]
    rcases ho.word with hword | ⟨-, hsite⟩
    · rw [hword]
    · simp [hsite]

/-- The tables of texts with corresponding events and words correspond. -/
theorem SymbolTable.ofEvents_match {text text' : List Char} (hN : Relator.BiUnique N)
    (hevents : List.Forall₂ (Event.Counterpart N E) es es')
    (hwords : List.Forall₂ (Occurrence.Match N (es.flatMap Event.sites) (es'.flatMap Event.sites))
      (occurrences text) (occurrences text'))
    (hpast : ∀ o ∈ occurrences text, ∀ o' ∈ occurrences text', N o.span o'.span →
      ∀ d d', .declaration d ∈ es → .declaration d' ∈ es' → E d.statementSpan d'.statementSpan →
        o.span.isPast d.statementSpan = o'.span.isPast d'.statementSpan) :
    SymbolTable.Match N E (SymbolTable.ofEvents text es) (SymbolTable.ofEvents text' es') where
  declared := by
    have hdeclaration : ∀ {es : List Event} {p : String × Declaration}, p ∈ lastDeclarations es →
        Event.declaration p.2 ∈ es := by
      intro es p hp
      obtain ⟨d, hd, rfl⟩ := List.mem_map.1 (Table.mem_of_mem_ofEntries hp)
      obtain ⟨e, he, hed⟩ := List.mem_filterMap.1 hd
      cases e with
      | declaration d' =>
        cases hed
        exact he
      | imported i => cases hed
      | call c => cases hed
    refine List.rel_map ?_ (forall₂_and_mem (forall₂_lastDeclarations hevents))
    rintro ⟨name, d⟩ ⟨name', d'⟩ ⟨⟨rfl, hd⟩, hmem, hmem'⟩
    refine ⟨rfl, hd.nameSpan, hd.statementSpan, hd.kind, ?_⟩
    exact forall₂_referencesTo hN (forall₂_sites hevents) hwords name fun o ho o' ho' hspan =>
      hpast o ho o' ho' hspan d d' (hdeclaration hmem) (hdeclaration hmem') hd.statementSpan
  libraries := by
    refine List.rel_map ?_ (forall₂_lastImports hevents)
    rintro ⟨name, span⟩ ⟨name', span'⟩ ⟨rfl, hspan⟩
    exact ⟨rfl, hspan, forall₂_callsInto hevents name⟩

/-! ## What tables are compared by -/

attribute [ext] Variable ImportedLibrary SymbolTable

theorem eq_of_forall₂ {α : Type} {R : α → α → Prop} (hR : ∀ a a', R a a' → a = a')
    {l l' : List α} (h : List.Forall₂ R l l') : l = l' :=
  List.forall₂_eq_eq_eq ▸ h.imp hR

theorem Variable.Match.eq {v v' : Variable} (h : Variable.Match Eq Eq v v') : v = v' := by
  ext1
  · exact h.span
  · exact h.statement
  · exact h.kind
  · exact eq_of_forall₂ (fun _ _ hs => hs) h.references

theorem ImportedLibrary.Match.eq {l l' : ImportedLibrary} (h : ImportedLibrary.Match Eq l l') :
    l = l' := by
  ext1
  · exact h.span
  · exact eq_of_forall₂ (fun _ _ hs => hs) h.references

/-- Tables that match place by place are equal. -/
theorem SymbolTable.Match.eq {t t' : SymbolTable} (h : SymbolTable.Match Eq Eq t t') :
    t = t' := by
  ext1
  · exact eq_of_forall₂ (fun _ _ hp => Prod.ext hp.1 hp.2.eq) h.declared
  · exact eq_of_forall₂ (fun _ _ hp => Prod.ext hp.1 hp.2.eq) h.libraries

/-- Texts with the same places have one table. -/
theorem symbols_eq_of_counterparts {text text' : List Char}
    (hevents : List.Forall₂ (Event.Counterpart Eq Eq) (events text) (events text'))
    (hwords : List.Forall₂ (Occurrence.Match Eq ((events text).flatMap Event.sites)
      ((events text').flatMap Event.sites)) (occurrences text) (occurrences text')) :
    symbols text = symbols text' := by
  refine (SymbolTable.ofEvents_match ⟨fun _ _ _ h h' => h.trans h'.symm,
    fun _ _ _ h h' => h.symm.trans h'⟩ hevents hwords ?_).eq
  intro o _ o' _ hspan d d' _ _ hstatement
  rw [hspan, hstatement]

/-- The names of a table without their places : kind, use and number of references of the
variables, use and number of references of the libraries. -/
def SymbolTable.census (table : SymbolTable) :
    List (String × Kind × Bool × Nat) × List (String × Bool × Nat) :=
  (table.declared.map fun (name, v) => (name, v.kind, v.used, v.references.length),
    table.libraries.map fun (name, l) => (name, l.used, l.references.length))

theorem isEmpty_eq_of_forall₂ {α β : Type} {R : α → β → Prop} {l : List α} {l' : List β}
    (h : List.Forall₂ R l l') : l.isEmpty = l'.isEmpty := by
  cases h <;> rfl

theorem map_eq_of_forall₂ {α β γ : Type} {R : α → β → Prop} {f : α → γ} {g : β → γ}
    (hR : ∀ a b, R a b → f a = g b) {l : List α} {l' : List β} (h : List.Forall₂ R l l') :
    l.map f = l'.map g :=
  List.forall₂_eq_eq_eq ▸ List.rel_map (fun {a b} hab => hR a b hab) h

/-- Tables that match have one census. -/
theorem SymbolTable.Match.census_eq {t t' : SymbolTable} (h : SymbolTable.Match N E t t') :
    t.census = t'.census := by
  refine Prod.ext (map_eq_of_forall₂ ?_ h.declared) (map_eq_of_forall₂ ?_ h.libraries)
  · rintro ⟨name, v⟩ ⟨name', v'⟩ ⟨rfl, hv⟩
    have hkind : v.kind = v'.kind := hv.kind
    simp only [Variable.used, hkind, hv.references.length_eq, isEmpty_eq_of_forall₂ hv.references]
  · rintro ⟨name, l⟩ ⟨name', l'⟩ ⟨rfl, hl⟩
    simp only [ImportedLibrary.used, hl.references.length_eq, isEmpty_eq_of_forall₂ hl.references]

end RazenLint
