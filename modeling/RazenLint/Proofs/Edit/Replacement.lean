import Mathlib.Data.List.Nodup
import Mathlib.Order.Nat
import RazenLint.Edit

/-!
# Replacements made at once

A text can be rewritten in several places at once : every range is cut out of
the text as it was and the new text is put there (`Replacement.rewrite`). The
places come from left to right and do not overlap (`Replacement.InOrder`).

Edits are applied one after the other, from the end of the text backwards, on a
text that has changed already. `foldl_apply_choose` says that this is the rewrite
at once : what is chosen next ends before everything that has changed.
`exists_not_apart_of_mem_leaveOut` says why a replacement is left out : it
overlaps one that is made.
-/

namespace RazenLint.Replacement

/-- Two replacements that can both be made : one ends where the other one begins,
or before. -/
def Apart (a b : Replacement) : Prop :=
  a.stop ≤ b.start ∨ b.stop ≤ a.start

/-- Replacements from left to right between two offsets, where the next one does
not begin before the last one ends. -/
def InOrder (low high : Nat) : List Replacement → Prop
  | [] => low ≤ high
  | r :: rest => low ≤ r.start ∧ r.start ≤ r.stop ∧ InOrder r.stop high rest

/-- The text from an offset on with replacements made at once. -/
def rewriteFrom (low : Nat) (text : List Char) : List Replacement → List Char
  | [] => text.drop low
  | r :: rest =>
    (text.drop low).take (r.start - low) ++ (r.newText ++ rewriteFrom r.stop text rest)

/-- The text with replacements made at once, given from left to right. -/
def rewrite (text : List Char) (replacements : List Replacement) : List Char :=
  rewriteFrom 0 text replacements

/-! ## Lists in order -/

theorem InOrder.le {low high : Nat} : ∀ {rs : List Replacement}, InOrder low high rs → low ≤ high
  | [], h => h
  | _ :: _, ⟨h1, h2, h3⟩ => h1.trans (h2.trans h3.le)

theorem InOrder.append {low mid high : Nat} : ∀ {rs ss : List Replacement},
    InOrder low mid rs → InOrder mid high ss → InOrder low high (rs ++ ss)
  | [], ss, h, hs => by
    cases ss with
    | nil => exact Nat.le_trans h hs
    | cons s ss => exact ⟨Nat.le_trans h hs.1, hs.2⟩
  | _ :: _, _, ⟨h1, h2, h3⟩, hs => ⟨h1, h2, h3.append hs⟩

theorem InOrder.mono {low low' high high' : Nat} (hlow : low' ≤ low) (hhigh : high ≤ high') :
    ∀ {rs : List Replacement}, InOrder low high rs → InOrder low' high' rs
  | [], h => hlow.trans (Nat.le_trans h hhigh)
  | _ :: _, ⟨h1, h2, h3⟩ => ⟨hlow.trans h1, h2, h3.mono le_rfl hhigh⟩

/-- The replacements in front of one and behind it. -/
theorem InOrder.of_append_cons {low high : Nat} {r : Replacement} {ss : List Replacement} :
    ∀ {rs : List Replacement}, InOrder low high (rs ++ r :: ss) →
      InOrder low r.start rs ∧ InOrder r.stop high ss
  | [], ⟨h1, _, h3⟩ => ⟨h1, h3⟩
  | _ :: _, ⟨h1, h2, h3⟩ => ⟨⟨h1, h2, (of_append_cons h3).1⟩, (of_append_cons h3).2⟩

/-- The same replacement further to the right. -/
def shift (distance : Nat) (r : Replacement) : Replacement :=
  ⟨r.start + distance, r.stop + distance, r.newText⟩

theorem InOrder.of_shift {distance : Nat} : ∀ {low high : Nat} {rs : List Replacement},
    InOrder (low + distance) (high + distance) (rs.map (shift distance)) → InOrder low high rs
  | _, _, [], h => Nat.le_of_add_le_add_right h
  | _, _, _ :: _, ⟨h1, h2, h3⟩ =>
    ⟨Nat.le_of_add_le_add_right h1, Nat.le_of_add_le_add_right h2, of_shift h3⟩

/-! ## Rewriting -/

/-- Text before the first replacement is kept. -/
theorem rewriteFrom_append {mid high : Nat} (text : List Char) :
    ∀ (low : Nat) (rs ss : List Replacement), InOrder low mid rs → InOrder mid high ss →
      high ≤ text.length →
      rewriteFrom low text (rs ++ ss) =
        rewriteFrom low (text.take mid) rs ++ rewriteFrom mid text ss
  | low, [], ss, hr, hs, hlen => by
    have hlow : low ≤ mid := hr
    have hmid : mid ≤ text.length := hs.le.trans hlen
    have hsplit : text.drop low = (text.take mid).drop low ++ text.drop mid := by
      rw [List.drop_take]
      conv_lhs => rw [← List.take_append_drop (mid - low) (text.drop low)]
      rw [List.drop_drop, Nat.add_sub_cancel' hlow]
    cases ss with
    | nil => exact hsplit
    | cons s ss =>
      have hstart : mid ≤ s.start := hs.1
      simp only [List.nil_append, rewriteFrom]
      rw [hsplit, List.take_append, List.length_drop, List.length_take, Nat.min_eq_left hmid,
        List.take_of_length_le (by simp; omega), List.append_assoc]
      rw [show s.start - low - (mid - low) = s.start - mid by omega]
  | low, r :: rs, ss, ⟨h1, h2, h3⟩, hs, hlen => by
    simp only [List.cons_append, rewriteFrom]
    rw [rewriteFrom_append text r.stop rs ss h3 hs hlen]
    have := h3.le
    rw [List.drop_take, List.take_take, Nat.min_eq_left (by omega)]
    simp only [List.append_assoc]

/-- A replacement to the right of the others can be made first. -/
theorem rewriteFrom_apply {text : List Char} (r : Replacement) (hlen : r.start ≤ text.length) :
    ∀ (low : Nat) (rs : List Replacement), InOrder low r.start rs →
      rewriteFrom low (r.apply text) rs = rewriteFrom low text (rs ++ [r])
  | low, [], h => by
    have hlow : low ≤ r.start := h
    simp only [List.nil_append, rewriteFrom, apply]
    rw [List.append_assoc, List.drop_append_of_le_length (by simp; omega), List.drop_take]
  | low, q :: rs, ⟨h1, h2, h3⟩ => by
    have hq := h3.le
    simp only [List.cons_append, rewriteFrom]
    rw [rewriteFrom_apply r hlen q.stop rs h3]
    congr 1
    rw [apply, List.append_assoc, List.drop_append_of_le_length (by simp; omega), List.drop_take,
      List.take_append_of_le_length (by simp; omega), List.take_take, Nat.min_eq_left (by omega)]

/-- Text in front of all replacements is kept. -/
theorem rewriteFrom_of_le {text : List Char} {low mid high : Nat} {rs : List Replacement}
    (hlow : low ≤ mid) (h : InOrder mid high rs) (hlen : high ≤ text.length) :
    rewriteFrom low text rs = (text.take mid).drop low ++ rewriteFrom mid text rs :=
  rewriteFrom_append text low [] rs hlow h hlen

/-- Texts that are the same from some offsets on are rewritten in the same way from there on. -/
theorem rewriteFrom_shift {text text' : List Char} {distance high : Nat} :
    ∀ {low : Nat} {rs : List Replacement}, text.drop (low + distance) = text'.drop low →
      InOrder low high rs →
        rewriteFrom (low + distance) text (rs.map (shift distance)) = rewriteFrom low text' rs
  | _, [], hdrop, _ => hdrop
  | low, r :: rs, hdrop, ⟨h1, h2, h3⟩ => by
    have hrest : text.drop (r.stop + distance) = text'.drop r.stop := by
      have h := congrArg (List.drop (r.stop - low)) hdrop
      rw [List.drop_drop, List.drop_drop] at h
      rwa [show low + distance + (r.stop - low) = r.stop + distance by omega,
        show low + (r.stop - low) = r.stop by omega] at h
    rw [List.map_cons, rewriteFrom, rewriteFrom, hdrop]
    simp only [shift]
    rw [rewriteFrom_shift hrest h3, Nat.add_sub_add_right]

/-- One of the replacements can be made beforehand, when the ones behind it are moved to
where their text is then. -/
theorem rewrite_made {pre old new rest : List Char} {distance : Nat} {front back : List Replacement}
    (hlength : old.length = new.length + distance)
    (h : InOrder 0 (pre ++ (old ++ rest)).length
      (front ++ ⟨pre.length, pre.length + old.length, new⟩ :: back.map (shift distance))) :
    rewrite (pre ++ (old ++ rest))
        (front ++ ⟨pre.length, pre.length + old.length, new⟩ :: back.map (shift distance)) =
      rewrite (pre ++ (new ++ rest)) (front ++ back) := by
  obtain ⟨hfront, hbehind⟩ := h.of_append_cons
  have htotal : (pre ++ (old ++ rest)).length = (pre ++ (new ++ rest)).length + distance := by
    simp only [List.length_append, hlength]
    omega
  have hback : InOrder (pre.length + new.length) (pre ++ (new ++ rest)).length back := by
    dsimp only at hbehind
    rw [hlength, ← Nat.add_assoc, htotal] at hbehind
    exact hbehind.of_shift
  have hdrop : (pre ++ (old ++ rest)).drop (pre.length + new.length + distance) =
      (pre ++ (new ++ rest)).drop (pre.length + new.length) := by
    rw [Nat.add_assoc, ← hlength, List.drop_length_add_append, List.drop_length_add_append,
      List.drop_left, List.drop_left]
  have hnew : ((pre ++ (new ++ rest)).take (pre.length + new.length)).drop pre.length = new := by
    rw [List.take_length_add_append, List.take_left, List.drop_left]
  have hmade : InOrder pre.length (pre ++ (old ++ rest)).length
      (⟨pre.length, pre.length + old.length, new⟩ :: back.map (shift distance)) :=
    ⟨Nat.le_refl _, Nat.le_add_right _ _, hbehind⟩
  rw [rewrite, rewrite, rewriteFrom_append _ 0 front _ hfront hmade (Nat.le_refl _),
    rewriteFrom_append _ 0 front _ hfront (hback.mono (Nat.le_add_right _ _) (Nat.le_refl _))
      (Nat.le_refl _)]
  dsimp only
  rw [rewriteFrom_of_le (Nat.le_add_right _ _) hback (Nat.le_refl _), hnew,
    ← rewriteFrom_shift hdrop hback, rewriteFrom, List.take_left, List.take_left, Nat.add_assoc,
    ← hlength, Nat.sub_self, List.take_zero, List.nil_append]

/-- Replacements that end at or before a limit, each of which ends where the one
before it begins, or earlier, are in order when they are read backwards. -/
theorem inOrder_reverse {limit : Nat} : ∀ {rs : List Replacement},
    (∀ r ∈ rs, r.start ≤ r.stop ∧ r.stop ≤ limit) → rs.Pairwise (fun a b => b.stop ≤ a.start) →
      InOrder 0 limit rs.reverse
  | [], _, _ => Nat.zero_le _
  | r :: rs, hle, hp => by
    have hr := hle r List.mem_cons_self
    rw [List.pairwise_cons] at hp
    rw [List.reverse_cons]
    refine (inOrder_reverse (fun q hq => ⟨?_, hp.1 q hq⟩) hp.2).append ⟨le_rfl, hr.1, hr.2⟩
    exact (hle q (List.mem_cons_of_mem _ hq)).1

/-- Replacements made one after the other, from the end of the text backwards, are
made at once. -/
theorem foldl_apply : ∀ {text : List Char} {rs : List Replacement},
    (∀ r ∈ rs, r.start ≤ r.stop ∧ r.stop ≤ text.length) →
      rs.Pairwise (fun a b => b.stop ≤ a.start) → rs.foldl apply text = rewrite text rs.reverse
  | _, [], _, _ => rfl
  | text, r :: rs, hle, hp => by
    have hr := hle r List.mem_cons_self
    rw [List.pairwise_cons] at hp
    have hrest : ∀ q ∈ rs, q.start ≤ q.stop ∧ q.stop ≤ r.start :=
      fun q hq => ⟨(hle q (List.mem_cons_of_mem _ hq)).1, hp.1 q hq⟩
    have hgrown : r.start ≤ (r.apply text).length := by simp [apply]; omega
    rw [List.foldl_cons,
      foldl_apply (fun q hq => ⟨(hrest q hq).1, (hrest q hq).2.trans hgrown⟩) hp.2,
      List.reverse_cons]
    exact rewriteFrom_apply r (by omega) 0 rs.reverse (inOrder_reverse hrest hp.2)

/-! ## What is chosen -/

/-- The replacements that `choose` leaves out. -/
def leaveOut (limit : Nat) : List Replacement → List Replacement
  | [] => []
  | r :: rest => if r.stop ≤ limit then leaveOut r.start rest else r :: leaveOut limit rest

theorem choose_sublist : ∀ (limit : Nat) (rs : List Replacement), (choose limit rs).Sublist rs
  | _, [] => List.Sublist.refl []
  | limit, r :: rest => by
    rw [choose]
    split
    · exact (choose_sublist r.start rest).cons_cons r
    · exact (choose_sublist limit rest).cons r

/-- Every replacement is either chosen or left out. -/
theorem perm_choose_append_leaveOut : ∀ (limit : Nat) (rs : List Replacement),
    rs.Perm (choose limit rs ++ leaveOut limit rs)
  | _, [] => List.Perm.refl []
  | limit, r :: rest => by
    rw [choose, leaveOut]
    split
    · exact (perm_choose_append_leaveOut r.start rest).cons r
    · exact ((perm_choose_append_leaveOut limit rest).cons r).trans List.perm_middle.symm

theorem stop_le_of_mem_choose {q : Replacement} : ∀ {limit : Nat} {rs : List Replacement},
    (∀ r ∈ rs, r.start ≤ r.stop) → q ∈ choose limit rs → q.stop ≤ limit
  | _, [], _, hq => by simp [choose] at hq
  | limit, r :: rest, hle, hq => by
    have hrest : ∀ r ∈ rest, r.start ≤ r.stop := fun p hp => hle p (List.mem_cons_of_mem _ hp)
    rw [choose] at hq
    split at hq
    · rename_i hr
      rcases List.mem_cons.1 hq with rfl | hq
      · exact hr
      · have := stop_le_of_mem_choose hrest hq
        have := hle r List.mem_cons_self
        omega
    · exact stop_le_of_mem_choose hrest hq

/-- What is chosen next ends where the last one chosen begins, or earlier. -/
theorem pairwise_choose : ∀ {limit : Nat} {rs : List Replacement}, (∀ r ∈ rs, r.start ≤ r.stop) →
    (choose limit rs).Pairwise fun a b => b.stop ≤ a.start
  | _, [], _ => List.Pairwise.nil
  | limit, r :: rest, hle => by
    have hrest : ∀ r ∈ rest, r.start ≤ r.stop := fun p hp => hle p (List.mem_cons_of_mem _ hp)
    rw [choose]
    split
    · exact List.Pairwise.cons (fun q hq => stop_le_of_mem_choose hrest hq) (pairwise_choose hrest)
    · exact pairwise_choose hrest

/-- Choosing and applying from the end backwards is rewriting at once. -/
theorem foldl_apply_choose {text : List Char} {rs : List Replacement}
    (hle : ∀ r ∈ rs, r.start ≤ r.stop) :
    (choose text.length rs).foldl apply text = rewrite text (choose text.length rs).reverse :=
  foldl_apply
    (fun r hr => ⟨hle r ((choose_sublist _ _).subset hr), stop_le_of_mem_choose hle hr⟩)
    (pairwise_choose hle)

/-! ## The order in which replacements are looked at -/

theorem comesFirst_iff {a b : Replacement} : a.comesFirst b = true ↔
    b.start < a.start ∨ (a.start = b.start ∧ b.stop ≤ a.stop) := by
  simp [comesFirst]

theorem comesFirst_trans (a b c : Replacement) (hab : a.comesFirst b = true)
    (hbc : b.comesFirst c = true) : a.comesFirst c = true := by
  rw [comesFirst_iff] at *
  omega

theorem comesFirst_total (a b : Replacement) : (a.comesFirst b || b.comesFirst a) = true := by
  rw [Bool.or_eq_true, comesFirst_iff, comesFirst_iff]
  omega

theorem pairwise_mergeSort_comesFirst (rs : List Replacement) :
    (rs.mergeSort comesFirst).Pairwise fun a b => a.comesFirst b = true :=
  List.pairwise_mergeSort comesFirst_trans comesFirst_total rs

/-- Replacements in different ranges have one order, however they were listed. -/
theorem mergeSort_comesFirst_congr {rs ss : List Replacement} (hperm : rs.Perm ss)
    (hranges : (rs.map fun r => (r.start, r.stop)).Nodup) :
    rs.mergeSort comesFirst = ss.mergeSort comesFirst := by
  refine List.Perm.eq_of_pairwise ?_ (pairwise_mergeSort_comesFirst rs)
    (pairwise_mergeSort_comesFirst ss)
    (((List.mergeSort_perm rs _).trans hperm).trans (List.mergeSort_perm ss _).symm)
  intro a b ha hb hab hba
  have ha' : a ∈ rs := List.mem_mergeSort.1 ha
  have hb' : b ∈ rs := hperm.mem_iff.2 (List.mem_mergeSort.1 hb)
  rw [comesFirst_iff] at hab hba
  exact List.inj_on_of_nodup_map hranges ha' hb' (Prod.ext (by omega) (by omega))

/-- What is left out after `a` was chosen overlaps `a` or one that is chosen later. -/
theorem exists_not_apart {q : Replacement} : ∀ {a : Replacement} {rs : List Replacement},
    a.start ≤ a.stop → (∀ r ∈ rs, r.start ≤ r.stop) → (∀ r ∈ rs, a.comesFirst r = true) →
      rs.Pairwise (fun a b => a.comesFirst b = true) → q ∈ leaveOut a.start rs →
      ∃ b ∈ a :: choose a.start rs, ¬b.Apart q
  | _, [], _, _, _, _, hq => by simp [leaveOut] at hq
  | a, r :: rest, ha, hle, hfirst, hp, hq => by
    have hrest : ∀ r ∈ rest, r.start ≤ r.stop := fun p hp => hle p (List.mem_cons_of_mem _ hp)
    have hr := hfirst r List.mem_cons_self
    rw [List.pairwise_cons] at hp
    rw [leaveOut] at hq
    rw [choose]
    split at hq
    · rename_i hstop
      rw [if_pos hstop]
      obtain ⟨b, hb, hbq⟩ := exists_not_apart (hle r List.mem_cons_self) hrest hp.1 hp.2 hq
      exact ⟨b, List.mem_cons_of_mem _ hb, hbq⟩
    · rename_i hstop
      rw [if_neg hstop]
      rcases List.mem_cons.1 hq with rfl | hq
      · refine ⟨a, List.mem_cons_self, ?_⟩
        rw [comesFirst_iff] at hr
        unfold Apart
        omega
      · exact exists_not_apart ha hrest (fun p hp => hfirst p (List.mem_cons_of_mem _ hp)) hp.2 hq

/-- A replacement is left out only if it overlaps one that is made. -/
theorem exists_not_apart_of_mem_leaveOut {limit : Nat} {rs : List Replacement} {q : Replacement}
    (hle : ∀ r ∈ rs, r.start ≤ r.stop ∧ r.stop ≤ limit)
    (hp : rs.Pairwise fun a b => a.comesFirst b = true) (hq : q ∈ leaveOut limit rs) :
    ∃ b ∈ choose limit rs, ¬b.Apart q := by
  cases rs with
  | nil => simp [leaveOut] at hq
  | cons r rest =>
    have hr := hle r List.mem_cons_self
    rw [List.pairwise_cons] at hp
    rw [leaveOut, if_pos hr.2] at hq
    rw [choose, if_pos hr.2]
    exact exists_not_apart hr.1 (fun p hp => (hle p (List.mem_cons_of_mem _ hp)).1) hp.1 hp.2 hq

end RazenLint.Replacement
