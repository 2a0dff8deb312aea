import RazenLint.Proofs.Completion.Items

/-!
# What a cursor sees

The items at a cursor depend on the lines above it and on what stands in front of it on its
line (`complete_congr`). A comment is not seen as one : only a line that holds nothing else is
passed over, and behind a comment sign elsewhere on a line the cursor is taken to be in code,
or in a literal if the comment opens one (`complete_in_comment`).
-/

namespace RazenLint

open Text

section

variable {text other before : List Char} {position : Position}

/-- Variables are known from the lines above. -/
theorem items_congr {line : Nat} (h : (lines text).take line = (lines other).take line)
    (context : Context) : context.items text line = context.items other line := by
  cases context with
  | expression word =>
    rw [Context.items, Context.items, variableItems_eq, variableItems_eq, eventsAbove, h]
    rfl
  | _ => rfl

/-- What stands behind the cursor on its line and on the lines below does not matter. -/
theorem complete_congr (h : position.Follows text before) (h' : position.Follows other before)
    (habove : (lines text).take position.line = (lines other).take position.line) :
    complete text position = complete other position := by
  rw [complete, complete, textBefore?_eq_some_iff.2 h, textBefore?_eq_some_iff.2 h']
  dsimp only
  cases Context.ofText? before with
  | none => rfl
  | some context =>
    dsimp only
    rw [items_congr habove context]

/-- The variable is declared anew below, and a return and a comment follow the cursor. It is offered
with its kind above the cursor all the same. -/
theorem complete_congr_redeclared :
    complete "let n = 1\nput m = n".toList ⟨1, 9⟩ =
        complete "let n = 1\r\nput m = n3 # \"\r\ntake n = \"x\"\n".toList ⟨1, 9⟩ ∧
      (⟨"n", .var, some "numeric", none⟩ : CompletionItem) ∈
        complete "let n = 1\r\nput m = n3 # \"\r\ntake n = \"x\"\n".toList ⟨1, 9⟩ := by
  have hfollows : Position.Follows ⟨1, 9⟩ "let n = 1\nput m = n".toList "put m = n".toList :=
    ⟨[], by decide +kernel, by decide⟩
  have hcongr : complete "let n = 1\nput m = n".toList ⟨1, 9⟩ =
      complete "let n = 1\r\nput m = n3 # \"\r\ntake n = \"x\"\n".toList ⟨1, 9⟩ :=
    complete_congr hfollows ⟨"3 # \"".toList, by decide +kernel, by decide⟩ (by decide +kernel)
  have htyped : Typed "put m = n".toList "put m = ".toList "n".toList :=
    ⟨rfl, List.all_eq_true.1 (by decide +kernel), by decide +kernel⟩
  have hlast : LastDeclaration (eventsAbove "let n = 1\nput m = n".toList 1)
      ⟨"let", .numeric, "n", ⟨0, 4, 5⟩, ⟨0, 0, 9⟩, "1", none⟩ :=
    ⟨[], [], by decide +kernel, by simp⟩
  refine ⟨hcongr, hcongr ▸ (mem_complete_iff hfollows (by decide) (by decide +kernel) htyped
    ((ofText?_eq_some_iff htyped).1 (by decide +kernel : _ = some (.expression "n".toList)))).2 ?_⟩
  exact .var hlast (by decide)

/-! ## Comments -/

/-- Behind a comment sign that stands in code the reading goes on as at the start of a line. -/
theorem after_commentSign {front : List Char} (h : Reading.code.after front = .code)
    (back : List Char) :
    Reading.code.after (front ++ commentSign :: back) = Reading.code.after back := by
  rw [Reading.after_append, h, Reading.after_cons, next_code (by decide)]

/-- Behind a comment sign in code nothing is offered when the line holds nothing else than the
comment, when the comment opens a literal and does not close it again, or when the context that
is asked for has nothing to offer, and in no other case. -/
theorem complete_in_comment {front back outer word : List Char}
    (h : position.Follows text (front ++ commentSign :: back))
    (hfront : Reading.code.after front = .code)
    (htyped : Typed (front ++ commentSign :: back) outer word) :
    complete text position = [] ↔
      isCommentLine (front ++ commentSign :: back) = true ∨
        (Reading.code.after back).isOpen = true ∨
          ∀ context, Asks outer word context → ∀ item, ¬Offers text position.line context item := by
  constructor
  · intro hnil
    by_contra! hoffered
    obtain ⟨hcomment, hliteral, context, hasks, item, hoffers⟩ := hoffered
    rw [ne_eq, Bool.not_eq_true] at hcomment hliteral
    rw [← after_commentSign hfront] at hliteral
    have hitem := (mem_complete_iff h hcomment hliteral htyped hasks).2 hoffers
    rw [hnil] at hitem
    exact absurd hitem List.not_mem_nil
  · intro hreason
    refine List.eq_nil_iff_forall_not_mem.2 fun item hitem => ?_
    obtain ⟨before, outer', word', context, hbefore, hcomment, hliteral, htyped', hasks⟩ :=
      exists_asks_of_mem_complete hitem
    obtain rfl := h.unique hbefore
    obtain ⟨rfl, rfl⟩ := htyped.unique htyped'
    rw [mem_complete_iff h hcomment hliteral htyped hasks] at hitem
    rcases hreason with hreason | hreason | hreason
    · rw [hcomment] at hreason
      cases hreason
    · rw [after_commentSign hfront, hreason] at hliteral
      cases hliteral
    · exact hreason context hasks item hitem

/-- The comment holds an apostrophe. -/
theorem complete_in_comment_apostrophe :
    complete "let x = 1 # don't use mathlib::s".toList ⟨0, 32⟩ = [] := by
  have hfollows : Position.Follows ⟨0, 32⟩ "let x = 1 # don't use mathlib::s".toList
      ("let x = 1 ".toList ++ commentSign :: " don't use mathlib::s".toList) :=
    ⟨[], by decide +kernel, by decide⟩
  refine (complete_in_comment hfollows (by decide +kernel) (typed_lastWord _)).2 ?_
  exact Or.inr (Or.inl (by decide +kernel))

/-- Behind code and a comment sign the functions of a library are offered. -/
theorem exists_complete_in_comment :
    ¬∀ (text front back : List Char) (position : Position),
      position.Follows text (front ++ commentSign :: back) → Reading.code.after front = .code →
        complete text position = [] := by
  intro h
  have hfollows : Position.Follows ⟨0, 22⟩ "let x = 1 # mathlib::s".toList
      ("let x = 1 ".toList ++ commentSign :: " mathlib::s".toList) :=
    ⟨[], by decide +kernel, by decide⟩
  have hnil := h _ _ _ _ hfollows (by decide +kernel)
  have htyped : Typed ("let x = 1 ".toList ++ commentSign :: " mathlib::s".toList)
      "let x = 1 # mathlib::".toList "s".toList :=
    ⟨rfl, List.all_eq_true.1 (by decide +kernel), by decide +kernel⟩
  rw [complete_of_asks hfollows (by decide) (by decide +kernel) htyped
    ((ofText?_eq_some_iff htyped).1 (show _ = some (.function "mathlib".toList "s".toList) by
      decide +kernel))] at hnil
  have hlength := congrArg List.length hnil
  rw [List.length_mergeSort] at hlength
  exact absurd hlength (by decide +kernel)

end

end RazenLint
