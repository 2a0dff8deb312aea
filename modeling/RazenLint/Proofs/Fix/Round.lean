import RazenLint.Proofs.Edit.Applied
import RazenLint.Proofs.Fix.Proposed

/-!
# One round of fixes

Edits are made from the end of the text backwards, so a round fixes one call after the
other (`Fixed`), each one in a text that has changed behind it only. A site of the
original text is still one there (`CallSite.exists_old_of_take`), which is why edits that
were proposed for the original text can be made one by one (`exists_fixed`).
-/

namespace RazenLint

open Text

/-- A text after the calls at some places have been fixed, where each call stands in front
of those that were fixed before it. The last one comes first. -/
inductive Fixed (text : List Char) : List Span → List Char → Prop
  | nil : Fixed text [] text
  | cons {spans : List Span} (site : CallSite) (rest : List Char)
    (h : Fixed text spans (site.old rest)) (hpast : ∀ s ∈ spans, s.isPast site.span = true) :
    Fixed text (site.span :: spans) (site.new rest)

namespace CallSite

/-! ## Sites of one text -/

theorem count_newline_lead (site : CallSite) : site.lead.count '\n' = site.before.length := by
  have hpieces := site.pieces
  unfold lead
  generalize site.before = before at hpieces
  induction before with
  | nil => rfl
  | cons first before ih =>
    have hfirst := List.count_eq_zero.2 (hpieces first List.mem_cons_self)
    rw [List.flatMap_cons, List.count_append, List.count_append, hfirst,
      ih fun p hp => hpieces p (List.mem_cons_of_mem _ hp), List.count_singleton_self,
      List.length_cons]
    omega

theorem count_newline_take (site : CallSite) (rest : List Char) {n : Nat} (hlow : site.start ≤ n)
    (hhigh : n ≤ site.start + site.length) :
    ((site.old rest).take n).count '\n' = site.before.length := by
  obtain ⟨m, rfl⟩ : ∃ m, n = site.lead.length + m :=
    Nat.exists_eq_add_of_le ((Nat.le_add_right _ _).trans hlow)
  have hm : m ≤ site.upTo.length := by
    rw [length_upTo]
    unfold start at hhigh
    omega
  have hzero : (site.upTo.take m).count '\n' = 0 :=
    List.count_eq_zero.2 fun hmem => site.newline_notMem_upTo.1 (List.mem_of_mem_take hmem)
  rw [old_eq_upTo, List.take_length_add_append, List.take_append_of_le_length hm,
    List.count_append, count_newline_lead, hzero]
  rfl

/-- A site that begins behind the end of another one is past it. -/
theorem isPast_span {site site' : CallSite} {rest rest' : List Char}
    (h : site.old rest = site'.old rest') (hle : site.start + site.length ≤ site'.start) :
    site'.span.isPast site.span = true := by
  have hcount := site.count_newline_take rest (Nat.le_add_right _ _) (Nat.le_refl _)
  have hcount' := site'.count_newline_take rest' (Nat.le_refl _) (Nat.le_add_right _ _)
  have hlines : site.before.length ≤ site'.before.length := by
    rw [← hcount, ← hcount', h]
    exact (List.take_sublist_take_left hle).count_le _
  rw [Span.isPast, Bool.or_eq_true, Bool.and_eq_true, decide_eq_true_eq, decide_eq_true_eq,
    decide_eq_true_eq]
  rcases Nat.lt_or_eq_of_le hlines with hlt | heq
  · exact Or.inl hlt
  · -- on one line both sites have the same text above them
    obtain ⟨first, more, hrest⟩ := List.exists_cons_of_ne_nil (segments_ne_nil rest)
    obtain ⟨first', more', hrest'⟩ := List.exists_cons_of_ne_nil (segments_ne_nil rest')
    have hsegments := (site.segments_old hrest).1
    rw [h, (site'.segments_old hrest').1] at hsegments
    have hbefore := (List.append_inj hsegments heq.symm).1
    have hlead : site'.lead = site.lead := by rw [lead, lead, hbefore]
    rw [start, start, hlead] at hle
    refine Or.inr ⟨heq.symm, ?_⟩
    simp only [span]
    omega

/-- A text that agrees with another one up to the end of a site has that site. -/
theorem exists_old_of_take {site : CallSite} {rest t : List Char} {limit : Nat}
    (hstop : site.start + site.length ≤ limit) (htake : t.take limit = (site.old rest).take limit) :
    ∃ rest', t = site.old rest' := by
  have hlength : (site.lead ++ site.upTo).length = site.start + site.length := by
    rw [List.length_append, length_upTo, start, Nat.add_assoc]
  obtain ⟨m, rfl⟩ := Nat.exists_eq_add_of_le hstop
  rw [old_eq_upTo, ← List.append_assoc, ← hlength, List.take_length_add_append] at htake
  refine ⟨rest.take m ++ t.drop ((site.lead ++ site.upTo).length + m), ?_⟩
  rw [old_eq_upTo, ← List.append_assoc, ← List.append_assoc, ← htake, List.take_append_drop]

theorem take_new (site : CallSite) (rest : List Char) :
    (site.new rest).take site.start = (site.old rest).take site.start := by
  have hstart : site.start = (site.lead ++ site.front).length := by simp [start]
  rw [new_eq, old_eq, hstart, List.take_left, List.take_left]

end CallSite

/-! ## Making the edits -/

/-- The replacement that an edit for a site of the text makes. -/
def MakesEdit (text : List Char) (r : Replacement) (e : TextEdit) : Prop :=
  ∃ (site : CallSite) (rest : List Char),
    text = site.old rest ∧ r = site.replacement ∧ e = site.edit

/-- Replacements for sites are made one after the other, from the last one on. -/
theorem exists_fixed_foldl {text : List Char} {rs : List Replacement} {es : List TextEdit}
    (hmakes : List.Forall₂ (MakesEdit text) rs es) {spans : List Span} {t : List Char} {limit : Nat}
    (hstop : ∀ r ∈ rs, r.stop ≤ limit) (hp : rs.Pairwise fun a b => b.stop ≤ a.start)
    (htake : t.take limit = text.take limit) (h : Fixed text spans t)
    (hspans : ∀ s ∈ spans, ∃ (site : CallSite) (rest : List Char),
      text = site.old rest ∧ s = site.span ∧ limit ≤ site.start) :
    ∃ spans', Fixed text spans' (rs.foldl Replacement.apply t) ∧
      spans'.map Range.ofSpan = es.reverse.map (·.range) ++ spans.map Range.ofSpan := by
  induction hmakes generalizing spans t limit with
  | nil => exact ⟨spans, h, rfl⟩
  | cons hr _ ih =>
    obtain ⟨site, rest, htext, rfl, rfl⟩ := hr
    have hlimit : site.start + site.length ≤ limit := hstop _ List.mem_cons_self
    rw [List.pairwise_cons] at hp
    rw [htext] at htake
    obtain ⟨rest', rfl⟩ := site.exists_old_of_take hlimit htake
    have hfixed : Fixed text (site.span :: spans) (site.new rest') := by
      refine .cons site rest' h fun s hs => ?_
      obtain ⟨site', rest'', htext', rfl, hle⟩ := hspans s hs
      exact CallSite.isPast_span (htext.symm.trans htext') (hlimit.trans hle)
    have htake' : (site.new rest').take site.start = text.take site.start := by
      have hstart : site.start ≤ limit := (Nat.le_add_right _ _).trans hlimit
      have h := congrArg (List.take site.start) htake
      rw [List.take_take, List.take_take, Nat.min_eq_left hstart] at h
      rw [site.take_new, h, htext]
    obtain ⟨spans', hspans', hranges⟩ := ih hp.1 hp.2 htake' hfixed (by
      intro s hs
      rcases List.mem_cons.1 hs with rfl | hs
      · exact ⟨site, rest, htext, rfl, Nat.le_refl _⟩
      · obtain ⟨site', rest'', htext', rfl, hle⟩ := hspans s hs
        exact ⟨site', rest'', htext', rfl, (Nat.le_add_right _ _).trans (hlimit.trans hle)⟩)
    refine ⟨spans', ?_, ?_⟩
    · rw [List.foldl_cons, site.apply_old]
      exact hspans'
    · rw [hranges]
      simp [CallSite.edit]

theorem forall₂_filterMap {α β : Type} {f : α → Option β} {R : β → α → Prop} :
    ∀ {l : List α}, (∀ a ∈ l, ∃ b, f a = some b ∧ R b a) → List.Forall₂ R (l.filterMap f) l
  | [], _ => List.Forall₂.nil
  | a :: l, h => by
    obtain ⟨b, hb, hR⟩ := h a List.mem_cons_self
    rw [List.filterMap_cons_some hb]
    exact List.Forall₂.cons hR (forall₂_filterMap fun a ha => h a (List.mem_cons_of_mem _ ha))

/-- Some of the proposed edits are applied, and the calls at their places are fixed. -/
theorem exists_fixed {document : String} {text : List Char} {edits : List TextEdit}
    (h : ∀ e ∈ edits, e ∈ proposedEdits document text) : ∃ applied spans,
      Applied text edits applied ∧ Fixed text spans (applyEdits text edits).1 ∧
        (spans.map Range.ofSpan).Perm (applied.map (·.range)) := by
  obtain ⟨applied, happlied, hperm⟩ := exists_applied text edits
  have hmakes : List.Forall₂ (MakesEdit text) (applied.filterMap (·.resolve? text)) applied := by
    refine forall₂_filterMap fun e he => ?_
    obtain ⟨site, rest, rfl, rfl⟩ := exists_site (h e (happlied.sublist.subset he))
    exact ⟨site.replacement, site.resolve?_edit rest, site, rest, rfl, rfl, rfl⟩
  obtain ⟨ordered, hordered, hsame⟩ := List.perm_comp_forall₂ hperm.symm hmakes
  set sorted := (edits.filterMap (·.resolve? text)).mergeSort Replacement.comesFirst with hsorted
  have hle : ∀ r ∈ sorted, r.start ≤ r.stop := by
    intro r hr
    obtain ⟨e, -, he⟩ := List.mem_filterMap.1 (List.mem_mergeSort.1 hr)
    exact (TextEdit.of_resolve? he).2.2.1
  obtain ⟨spans, hspans, hranges⟩ := exists_fixed_foldl hordered
    (fun r hr => Replacement.stop_le_of_mem_choose hle hr) (Replacement.pairwise_choose hle) rfl
    Fixed.nil (fun s hs => absurd hs List.not_mem_nil)
  refine ⟨applied, spans, happlied, hspans, ?_⟩
  rw [hranges, List.map_nil, List.append_nil]
  exact ((List.reverse_perm ordered).trans hsame).map _

end RazenLint
