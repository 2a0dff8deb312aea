import Mathlib.Data.String.Basic
import RazenLint.Json.Print
import RazenLint.Json.Read

/-!
# Layouts of JSON text

A text on one line and a text on several lines are the same but for their blanks. A `Layout` says
where the blanks stand, and `Layout.write` is the text of a value in a layout. `compact` and
`pretty` write in two layouts (`toList_compact`, `toList_prettyAt`).
-/

namespace RazenLint.Json

/-- How the text of a value is laid out : what begins a line at a depth, and what stands between
a colon and a value. -/
structure Layout where
  newLine : Nat → List Char
  gap : List Char
  isSpace_newLine : ∀ depth, ∀ c ∈ newLine depth, Scan.isSpace c = true
  isSpace_gap : ∀ c ∈ gap, Scan.isSpace c = true

namespace Layout

variable (layout : Layout)

/-- What stands in front of a closing bracket. -/
def beforeClose (depth : Nat) (isEmpty : Bool) : List Char :=
  if isEmpty then [] else layout.newLine depth

/-- What stands in front of an item. -/
def beforeItem (depth : Nat) (first : Bool) : List Char :=
  (if first then [] else [',']) ++ layout.newLine depth

mutual

/-- The text of a value in this layout. -/
def write (depth : Nat) : Json → List Char
  | null => "null".toList
  | bool value => (if value then "true" else "false").toList
  | number n => n.text.toList
  | text s => (quote s).toList
  | list items =>
    '[' :: (writeItems (depth + 1) true items ++
      (layout.beforeClose depth items.isEmpty ++ [']']))
  | object members =>
    '\x7b' :: (writeMembers (depth + 1) true members ++
      (layout.beforeClose depth members.isEmpty ++ ['\x7d']))

def writeItems (depth : Nat) (first : Bool) : List Json → List Char
  | [] => []
  | item :: rest =>
    layout.beforeItem depth first ++ (write depth item ++ writeItems depth false rest)

def writeMembers (depth : Nat) (first : Bool) : List (String × Json) → List Char
  | [] => []
  | (key, value) :: rest =>
    layout.beforeItem depth first ++ ((quote key).toList ++ (':' :: (layout.gap ++
      (write depth value ++ writeMembers depth false rest))))

end

/-- Everything on one line, without blanks. -/
def compact : Layout where
  newLine _ := []
  gap := []
  isSpace_newLine _ _ h := absurd h List.not_mem_nil
  isSpace_gap _ h := absurd h List.not_mem_nil

/-- A line for each item and each member. -/
def pretty : Layout where
  newLine depth := (Json.newLine depth).toList
  gap := [' ']
  isSpace_newLine depth c h := by
    simp [Json.newLine] at h
    rcases h with rfl | ⟨-, rfl⟩ <;> rfl
  isSpace_gap c h := by
    rw [List.mem_singleton.1 h]
    rfl

end Layout

/-! ## The two layouts in use -/

mutual

theorem toList_compact : ∀ (value : Json) (depth : Nat),
    value.compact.toList = Layout.compact.write depth value
  | null, _ => rfl
  | bool _, _ => rfl
  | number _, _ => rfl
  | text _, _ => rfl
  | list items, depth => by
    have h := toList_compactItems items (depth + 1) true
    simp at h
    rw [compact, Layout.write, String.toList_append, String.toList_append, ← h]
    simp [Layout.beforeClose, Layout.compact]
  | object members, depth => by
    have h := toList_compactMembers members (depth + 1) true
    simp at h
    rw [compact, Layout.write, String.toList_append, String.toList_append, ← h]
    simp [Layout.beforeClose, Layout.compact]

theorem toList_compactItems : ∀ (items : List Json) (depth : Nat) (first : Bool),
    (if first || items.isEmpty then [] else [',']) ++ (compactItems items).toList =
      Layout.compact.writeItems depth first items
  | [], _, first => by simp [compactItems, Layout.writeItems]
  | item :: rest, depth, first => by
    rw [Layout.writeItems, ← toList_compactItems rest depth false, ← toList_compact item depth]
    cases rest <;> cases first <;> simp [compactItems, Layout.beforeItem, Layout.compact]

theorem toList_compactMembers : ∀ (members : List (String × Json)) (depth : Nat) (first : Bool),
    (if first || members.isEmpty then [] else [',']) ++ (compactMembers members).toList =
      Layout.compact.writeMembers depth first members
  | [], _, first => by simp [compactMembers, Layout.writeMembers]
  | (key, value) :: rest, depth, first => by
    rw [Layout.writeMembers, ← toList_compactMembers rest depth false, ← toList_compact value depth]
    cases rest <;> cases first <;> simp [compactMembers, Layout.beforeItem, Layout.compact]

end

mutual

theorem toList_prettyAt : ∀ (value : Json) (depth : Nat),
    (prettyAt depth value).toList = Layout.pretty.write depth value
  | null, _ => rfl
  | bool _, _ => rfl
  | number _, _ => rfl
  | text _, _ => rfl
  | list items, depth => by
    have h := toList_prettyItems items (depth + 1) true
    rw [Layout.write, ← h, prettyAt]
    cases items <;> simp [Layout.beforeClose, Layout.pretty, prettyItems]
  | object members, depth => by
    have h := toList_prettyMembers members (depth + 1) true
    rw [Layout.write, ← h, prettyAt]
    cases members <;> simp [Layout.beforeClose, Layout.pretty, prettyMembers]

theorem toList_prettyItems : ∀ (items : List Json) (depth : Nat) (first : Bool),
    (if first || items.isEmpty then [] else [',']) ++ (prettyItems depth items).toList =
      Layout.pretty.writeItems depth first items
  | [], _, first => by simp [prettyItems, Layout.writeItems]
  | item :: rest, depth, first => by
    rw [Layout.writeItems, ← toList_prettyItems rest depth false, ← toList_prettyAt item depth]
    cases rest <;> cases first <;> simp [prettyItems, Layout.beforeItem, Layout.pretty]

theorem toList_prettyMembers : ∀ (members : List (String × Json)) (depth : Nat) (first : Bool),
    (if first || members.isEmpty then [] else [',']) ++ (prettyMembers depth members).toList =
      Layout.pretty.writeMembers depth first members
  | [], _, first => by simp [prettyMembers, Layout.writeMembers]
  | (key, value) :: rest, depth, first => by
    rw [Layout.writeMembers, ← toList_prettyMembers rest depth false,
      ← toList_prettyAt value depth]
    cases rest <;> cases first <;> simp [prettyMembers, Layout.beforeItem, Layout.pretty]

end

end RazenLint.Json
