/-!
# UTF-8

Bytes are read as characters from the front. The first byte that cannot be
part of the text ends the reading, with the number of bytes before it and the
number of bytes that are wrong, where the text did not just end too early.
-/

namespace RazenLint.Text

/-- Why bytes are not UTF-8. -/
structure Utf8Error where
  /-- Number of bytes that are fine. -/
  validUpTo : Nat
  /-- Number of bytes after them that are wrong, or nothing when the bytes end
  inside a character. -/
  wrongBytes : Option Nat
deriving DecidableEq, Repr

def Utf8Error.message (e : Utf8Error) : String :=
  match e.wrongBytes with
  | some n =>
    "invalid utf-8 sequence of " ++ toString n ++ " bytes from index " ++ toString e.validUpTo
  | none => "incomplete utf-8 byte sequence from index " ++ toString e.validUpTo

/-- The number of bytes that a first byte announces, with the smallest and the
largest second byte that may follow it. -/
def sequenceOf? (first : UInt8) : Option (Nat × UInt8 × UInt8) :=
  if first < 0x80 then some (1, 0, 0)
  else if first < 0xC2 then none
  else if first < 0xE0 then some (2, 0x80, 0xBF)
  else if first = 0xE0 then some (3, 0xA0, 0xBF)
  else if first = 0xED then some (3, 0x80, 0x9F)
  else if first < 0xF0 then some (3, 0x80, 0xBF)
  else if first = 0xF0 then some (4, 0x90, 0xBF)
  else if first < 0xF4 then some (4, 0x80, 0xBF)
  else if first = 0xF4 then some (4, 0x80, 0x8F)
  else none

/-- Takes the given number of bytes that continue a character, of which the
first lies in the given range. Failing, it says how many were fine and whether
the bytes ended. -/
def takeTail : Nat → UInt8 → UInt8 → Nat → List UInt8 → Except (Nat × Bool) (Nat × List UInt8)
  | 0, _, _, value, rest => .ok (value, rest)
  | _ + 1, _, _, _, [] => .error (0, true)
  | n + 1, low, high, value, b :: rest =>
    if low ≤ b ∧ b ≤ high then
      match takeTail n 0x80 0xBF (value * 64 + (b.toNat - 0x80)) rest with
      | .ok result => .ok result
      | .error (fine, ended) => .error (fine + 1, ended)
    else .error (0, false)

/-- The value of the bits that a first byte gives to a character. -/
def firstBits (length : Nat) (first : UInt8) : Nat :=
  match length with
  | 2 => first.toNat - 0xC0
  | 3 => first.toNat - 0xE0
  | 4 => first.toNat - 0xF0
  | _ => first.toNat

theorem length_of_takeTail {n : Nat} {low high : UInt8} {value : Nat} {bytes rest : List UInt8}
    {result : Nat} (h : takeTail n low high value bytes = .ok (result, rest)) :
    rest.length ≤ bytes.length := by
  induction bytes generalizing n low high value with
  | nil => cases n <;> simp_all [takeTail]
  | cons b bytes ih =>
    cases n with
    | zero => simp_all [takeTail]
    | succ n =>
      rw [takeTail] at h
      split at h
      · cases hr : takeTail n 0x80 0xBF (value * 64 + (b.toNat - 0x80)) bytes with
        | ok pair =>
          rw [hr] at h
          have := ih (hr.trans h)
          simp only [List.length_cons]
          omega
        | error e => simp [hr] at h
      · simp at h

/-- The characters of bytes that follow the given number of bytes. -/
def decodeFrom (before : Nat) : List UInt8 → Except Utf8Error (List Char)
  | [] => .ok []
  | first :: rest =>
    match sequenceOf? first with
    | none => .error ⟨before, some 1⟩
    | some (length, low, high) =>
      match h : takeTail (length - 1) low high (firstBits length first) rest with
      | .error (fine, ended) => .error ⟨before, if ended then none else some (fine + 1)⟩
      | .ok (value, rest') =>
        have : rest'.length ≤ rest.length := length_of_takeTail h
        match decodeFrom (before + length) rest' with
        | .ok cs => .ok (Char.ofNat value :: cs)
        | .error e => .error e
termination_by bytes => bytes.length
decreasing_by
  simp only [List.length_cons]
  omega

/-- The characters of UTF-8 bytes. -/
def decodeUtf8 (bytes : List UInt8) : Except Utf8Error (List Char) :=
  decodeFrom 0 bytes

/-- The UTF-8 bytes of characters. -/
def encodeUtf8 (cs : List Char) : List UInt8 :=
  cs.flatMap String.utf8EncodeChar

end RazenLint.Text
