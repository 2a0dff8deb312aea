import Mathlib.Data.String.Basic
import RazenLint.Json.Print

/-!
# JSON text stays on one line

The text of a value has no control character in it (`noControls_compact`). The only
control characters that a value can hold are in its strings, where they are escaped
(`noControls_quote`). So the text never has a newline, whatever the value is.
-/

namespace RazenLint.Json

/-- A text without any of the characters below the space. -/
def NoControls (text : String) : Prop :=
  ∀ c ∈ text.toList, ' '.toNat ≤ c.toNat

instance (text : String) : Decidable (NoControls text) :=
  decidable_of_iff (text.toList.all fun c => ' '.toNat ≤ c.toNat) (by simp [NoControls])

namespace NoControls

theorem append {s t : String} (hs : NoControls s) (ht : NoControls t) : NoControls (s ++ t) := by
  intro c hc
  rw [String.toList_append, List.mem_append] at hc
  exact hc.elim (hs c) (ht c)

theorem ofList {cs : List Char} (h : ∀ c ∈ cs, ' '.toNat ≤ c.toNat) :
    NoControls (String.ofList cs) := by
  rwa [NoControls, String.toList_ofList]

theorem ite {p : Prop} [Decidable p] {s t : String} (hs : NoControls s) (ht : NoControls t) :
    NoControls (if p then s else t) := by
  split
  · exact hs
  · exact ht

theorem newline_notMem {text : String} (h : NoControls text) : '\n' ∉ text.toList := by
  intro hmem
  exact absurd (h '\n' hmem) (by decide)

end NoControls

/-! ## Numbers -/

theorem le_of_isDigit {c : Char} (h : c.isDigit) : ' '.toNat ≤ c.toNat := by
  simp only [Char.isDigit, Bool.and_eq_true, decide_eq_true_eq, ge_iff_le] at h
  exact (by decide : ' '.toNat ≤ '0'.toNat).trans h.1

theorem noControls_nat (n : Nat) : NoControls (toString n) := by
  intro c hc
  exact le_of_isDigit (Nat.isDigit_of_mem_toDigits (by decide) (by decide)
    (Nat.toList_repr ▸ hc))

theorem noControls_int (n : Int) : NoControls (toString n) := by
  cases n with
  | ofNat n => exact noControls_nat n
  | negSucc n => exact NoControls.append (by decide) (noControls_nat (n + 1))

theorem noControls_zeros (n : Int) : NoControls (zeros n) :=
  NoControls.ofList fun c hc => by
    rw [List.eq_of_mem_replicate hc]
    decide

theorem noControls_exponentText (e : Int) : NoControls (exponentText e) :=
  ((show NoControls "e" by decide).append (.ite (by decide) (by decide))).append
    (noControls_nat e.natAbs)

theorem noControls_decimal (d : Decimal) : NoControls d.text := by
  have hdigits := noControls_nat d.digits
  have htake : ∀ n, NoControls (String.ofList ((toString d.digits).toList.take n)) :=
    fun n => .ofList fun c hc => hdigits c (List.mem_of_mem_take hc)
  have hdrop : ∀ n, NoControls (String.ofList ((toString d.digits).toList.drop n)) :=
    fun n => .ofList fun c hc => hdigits c (List.mem_of_mem_drop hc)
  -- the four ways to lay out the digits
  refine .ite ?_ (.ite ?_ (.ite ?_ ?_))
  · exact (hdigits.append (noControls_zeros _)).append (by decide)
  · exact ((htake _).append (by decide)).append (hdrop _)
  · exact ((show NoControls "0." by decide).append (noControls_zeros _)).append hdigits
  · have hfraction := (show NoControls "." by decide).append (hdrop 1)
    exact ((htake 1).append (.ite (by decide) hfraction)).append (noControls_exponentText _)

theorem noControls_number (n : Number) : NoControls n.text := by
  cases n with
  | whole value => exact noControls_int value
  | double bits =>
    exact (NoControls.ite (by decide) (by decide)).append
      (.ite (by decide) (noControls_decimal _))

/-! ## Strings -/

theorem le_hexDigit (n : Nat) : ' '.toNat ≤ (hexDigit n).toNat := by
  have hall : NoControls (String.ofList hexDigits) := by decide
  unfold hexDigit
  cases h : hexDigits[n]? with
  | none => decide
  | some c => exact hall c (String.toList_ofList ▸ List.mem_of_getElem? h)

/-- A control character is written by others. -/
theorem le_of_mem_escapeChar {c d : Char} (h : d ∈ escapeChar c) : ' '.toNat ≤ d.toNat := by
  have hshort : ∀ e : Char, ' '.toNat ≤ e.toNat → d ∈ ['\\', e] → ' '.toNat ≤ d.toNat := by
    simp only [List.mem_cons, List.not_mem_nil, or_false]
    rintro e he (rfl | rfl)
    · decide
    · exact he
  unfold escapeChar at h
  split_ifs at h with _ _ _ _ _ _ _ hcontrol
  any_goals exact hshort _ (by decide) h
  · simp only [List.mem_cons, List.not_mem_nil, or_false] at h
    rcases h with rfl | rfl | rfl | rfl | rfl | rfl
    any_goals decide
    · exact le_hexDigit _
    · exact le_hexDigit _
  · obtain rfl := List.mem_singleton.1 h
    exact not_lt.1 hcontrol

theorem noControls_quote (text : String) : NoControls (quote text) := by
  refine NoControls.ofList fun c hc => ?_
  simp only [List.mem_append, List.mem_cons, List.mem_flatMap, List.not_mem_nil, or_false] at hc
  rcases hc with (rfl | ⟨d, -, hc⟩) | rfl
  · decide
  · exact le_of_mem_escapeChar hc
  · decide

/-! ## Values -/

mutual

theorem noControls_compact : ∀ value : Json, NoControls value.compact
  | .null => by decide
  | .bool value => .ite (by decide) (by decide)
  | .number n => noControls_number n
  | .text s => noControls_quote s
  | .list items =>
    ((show NoControls "[" by decide).append (noControls_compactItems items)).append (by decide)
  | .object members =>
    ((show NoControls "\x7b" by decide).append (noControls_compactMembers members)).append
      (by decide)

theorem noControls_compactItems : ∀ items : List Json, NoControls (compactItems items)
  | [] => by decide
  | item :: rest =>
    ((noControls_compact item).append (.ite (by decide) (by decide))).append
      (noControls_compactItems rest)

theorem noControls_compactMembers : ∀ members : List (String × Json),
    NoControls (compactMembers members)
  | [] => by decide
  | (key, value) :: rest =>
    ((((noControls_quote key).append (by decide)).append (noControls_compact value)).append
      (.ite (by decide) (by decide))).append (noControls_compactMembers rest)

end

end RazenLint.Json
