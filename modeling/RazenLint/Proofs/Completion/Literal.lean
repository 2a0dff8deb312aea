import RazenLint.Proofs.Completion.Items
import RazenLint.Proofs.LiteralPattern

/-!
# Literals in front of a cursor

Nothing is offered inside a literal. Whether the cursor is in one is told by counting the quotes
that the masked text in front of it shows, and the count is right for every text : it says what
the reading of the text says. In terms of the text alone, a cursor is in no literal when the text
in front of it is code and finished literals (`after_eq_code_iff`), so a finished literal in front
of the cursor makes no difference.
-/

namespace RazenLint

open Text Reading

open scoped Computability

/-- A character of the code that opens no literal. -/
def codeCharacter : Language Char :=
  {cs | ∃ c, isQuote c = false ∧ cs = [c]}

/-- Code in which every literal is closed. -/
def closedPattern : Language Char :=
  (codeCharacter + (quotedPattern '"' + quotedPattern '\''))∗

theorem append_mem_closedPattern {front back : List Char}
    (hfront : front ∈ codeCharacter + (quotedPattern '"' + quotedPattern '\''))
    (hback : back ∈ closedPattern) : front ++ back ∈ closedPattern := by
  obtain ⟨pieces, rfl, hpieces⟩ := Language.mem_kstar.1 hback
  refine Language.mem_kstar.2 ⟨front :: pieces, rfl, fun piece hpiece => ?_⟩
  rcases List.mem_cons.1 hpiece with rfl | hpiece
  · exact hfront
  · exact hpieces piece hpiece

/-- Where an open literal is over at the end of a text, it was closed somewhere. -/
theorem exists_closesLiteral {quote : Char} (h : isQuote quote = true) (cs : List Char) :
    '\n' ∉ cs → (Reading.literal quote).after cs = .code →
      ∃ inner rest, cs = inner ++ rest ∧ closesLiteral quote inner = true ∧
        Reading.code.after rest = .code := by
  induction cs using closesLiteral.induct quote with
  | case1 => exact fun _ hcode => absurd hcode (by simp)
  | case2 cs =>
    intro _ hcode
    rw [Reading.after_cons, next_closing h] at hcode
    exact ⟨[quote], cs, rfl, by simp [closesLiteral_closing], hcode⟩
  | case3 hc => exact fun _ hcode => absurd hcode (by simp [Reading.next])
  | case4 escaped rest hc ih =>
    intro hnewline hcode
    simp only [List.mem_cons, not_or] at hnewline
    rw [Reading.after_cons, next_slash] at hcode
    obtain ⟨inner, rest, rfl, hclose, hrest⟩ := ih hnewline.2.2 hcode
    refine ⟨'\\' :: escaped :: inner, rest, rfl, ?_, hrest⟩
    rw [closesLiteral_escape hc, decide_eq_true (Ne.symm hnewline.2.1), hclose, Bool.and_self]
  | case5 c cs hc hescape ih =>
    intro hnewline hcode
    rw [Reading.after_cons, next_literal hc hescape] at hcode
    obtain ⟨inner, rest, rfl, hclose, hrest⟩ := ih (List.not_mem_of_not_mem_cons hnewline) hcode
    exact ⟨c :: inner, rest, rfl, by rwa [closesLiteral_cons hc hescape], hrest⟩

theorem after_of_isLiteral {cs : List Char} (h : isLiteral cs = true) :
    Reading.code.after cs = .code := by
  cases cs with
  | nil => rfl
  | cons c cs =>
    rw [isLiteral, Bool.and_eq_true] at h
    rw [Reading.after_cons, next_quote h.1]
    exact after_of_closesLiteral h.1 cs h.2

theorem after_of_mem_closedPattern {cs : List Char} (h : cs ∈ closedPattern) :
    Reading.code.after cs = .code := by
  obtain ⟨pieces, rfl, hpieces⟩ := Language.mem_kstar.1 h
  clear h
  induction pieces with
  | nil => rfl
  | cons piece pieces ih =>
    have hrest := fun other hother => hpieces other (List.mem_cons_of_mem piece hother)
    have hpiece : Reading.code.after piece = .code := by
      rcases hpieces piece List.mem_cons_self with ⟨c, hc, rfl⟩ | hquoted
      · exact next_code hc
      · exact after_of_isLiteral ((isLiteral_iff_mem_quotedPattern piece).2 hquoted)
    rw [List.flatten_cons, Reading.after_append, hpiece]
    exact ih hrest

theorem mem_closedPattern_of_after : ∀ {cs : List Char}, '\n' ∉ cs →
    Reading.code.after cs = .code → cs ∈ closedPattern
  | [], _, _ => Language.nil_mem_kstar _
  | c :: cs, hnewline, hcode => by
    have hcs : '\n' ∉ cs := List.not_mem_of_not_mem_cons hnewline
    rw [Reading.after_cons] at hcode
    cases hc : isQuote c with
    | false =>
      rw [next_code hc] at hcode
      exact append_mem_closedPattern (Or.inl ⟨c, hc, rfl⟩) (mem_closedPattern_of_after hcs hcode)
    | true =>
      rw [next_quote hc] at hcode
      obtain ⟨inner, rest, rfl, hclose, hrest⟩ := exists_closesLiteral hc cs hcs hcode
      have hliteral : isLiteral (c :: inner) = true := by rw [isLiteral, hc, hclose, Bool.and_self]
      exact append_mem_closedPattern
        (Or.inr ((isLiteral_iff_mem_quotedPattern _).1 hliteral))
        (mem_closedPattern_of_after (fun hmem => hcs (List.mem_append_right inner hmem)) hrest)
termination_by cs => cs.length

/-- On one line, code goes on behind exactly the texts in which every literal is closed. -/
theorem after_eq_code_iff {cs : List Char} (h : '\n' ∉ cs) :
    Reading.code.after cs = .code ↔ cs ∈ closedPattern :=
  ⟨mem_closedPattern_of_after h, after_of_mem_closedPattern⟩

theorem Text.Reading.isOpen_eq_false_iff {reading : Reading} :
    reading.isOpen = false ↔ reading = .code := by
  cases reading <;> simp [Reading.isOpen]

/-- In an open literal nothing is offered. -/
theorem complete_of_isOpen {text before : List Char} {position : Position}
    (hbefore : position.Follows text before) (hopen : (Reading.code.after before).isOpen = true) :
    complete text position = [] := by
  refine List.eq_nil_iff_forall_not_mem.2 fun item hitem => ?_
  obtain ⟨before', -, -, -, hbefore', -, hclosed, -⟩ := exists_asks_of_mem_complete hitem
  obtain rfl := hbefore.unique hbefore'
  rw [hopen] at hclosed
  exact absurd hclosed (by simp)

/-- The count of quotes tells whether a literal is open at the end of a text. So nothing is
offered at a cursor in a literal, a text of one line in which every literal is closed has none
open, and taking away a finished literal from a text changes nothing for the rest of it. -/
theorem insideLiteral_iff_isOpen (before : List Char) :
    (insideLiteral before = true ↔ (Reading.code.after before).isOpen = true) ∧
      (∀ text position, position.Follows text before →
        (Reading.code.after before).isOpen = true → complete text position = []) ∧
      ('\n' ∉ before → (insideLiteral before = false ↔ before ∈ closedPattern)) ∧
      ∀ front literal back, before = front ++ (literal ++ back) →
        Reading.code.after front = .code → IsWholeLiteral literal →
          insideLiteral before = insideLiteral (front ++ back) := by
  refine ⟨by rw [insideLiteral_eq], fun text position => complete_of_isOpen, fun hnewline => ?_,
    fun front literal back hsplit hfront hliteral => ?_⟩
  · rw [insideLiteral_eq, isOpen_eq_false_iff, after_eq_code_iff hnewline]
  · rw [insideLiteral_eq, insideLiteral_eq, hsplit, Reading.after_append, Reading.after_append,
      Reading.after_append, hfront, hliteral.closes]

/-- An escaped quote leaves a literal open, and a literal that holds a quote of the other kind is
closed in front of a sum. -/
theorem insideLiteral_iff_isOpen_mixedQuotes :
    complete "let s = \"a\\\"b".toList ⟨0, 12⟩ = [] ∧
      insideLiteral ("let s = ".toList ++ ("\"it's\"".toList ++ " + n".toList)) =
        insideLiteral ("let s = ".toList ++ " + n".toList) := by
  have hfollows : Position.Follows ⟨0, 12⟩ "let s = \"a\\\"b".toList "let s = \"a\\\"".toList :=
    ⟨['b'], by decide +kernel, by decide⟩
  have hopen : ∀ n < 6, 1 ≤ n →
      (Reading.code.after ("\"it's\"".toList.take n)).isOpen = true := by decide +kernel
  exact ⟨(insideLiteral_iff_isOpen _).2.1 _ _ hfollows (by decide +kernel),
    (insideLiteral_iff_isOpen _).2.2.2 _ _ _ rfl (by decide +kernel)
      ⟨by decide +kernel, fun n hpos hn => hopen n hn hpos, by decide +kernel⟩⟩

end RazenLint
