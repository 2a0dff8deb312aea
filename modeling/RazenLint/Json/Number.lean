import RazenLint.Json.Shortest

/-!
# Numbers

A number is a whole number or a double. A double is kept as its bits. In text
it always shows a point or an exponent, so that it is told from a whole number.
-/

namespace RazenLint.Json

inductive Number where
  | whole (value : Int)
  | double (bits : UInt64)
deriving DecidableEq, Repr

/-- How a decimal is laid out : which places of the point are written out. An
exponent takes over elsewhere. -/
structure NumberLayout where
  /-- The most digits before the point. -/
  maxWhole : Int
  /-- The most zeros right after the point. -/
  maxZeros : Int

/-- Up to sixteen digits before the point and four zeros after it are written
out. -/
def numberLayout : NumberLayout := ⟨16, 4⟩

def zeros (n : Int) : String :=
  String.ofList (List.replicate n.toNat '0')

/-- The text of an exponent, which always has a sign. -/
def exponentText (e : Int) : String :=
  "e" ++ (if e < 0 then "-" else "+") ++ toString e.natAbs

/-- The text of a positive decimal. -/
def Decimal.text (d : Decimal) : String :=
  let digits := toString d.digits
  let cs := digits.toList
  -- how many digits stand before the point
  let whole := cs.length + d.exponent
  if 0 ≤ d.exponent ∧ whole ≤ numberLayout.maxWhole then digits ++ zeros d.exponent ++ ".0"
  else if 0 < whole ∧ whole ≤ numberLayout.maxWhole then
    String.ofList (cs.take whole.toNat) ++ "." ++ String.ofList (cs.drop whole.toNat)
  else if -numberLayout.maxZeros ≤ whole ∧ whole ≤ 0 then "0." ++ zeros (-whole) ++ digits
  else
    let fraction := String.ofList (cs.drop 1)
    String.ofList (cs.take 1) ++ (if fraction.isEmpty then "" else "." ++ fraction) ++
      exponentText (whole - 1)

/-- The text of a finite double. -/
def doubleText (bits : UInt64) : String :=
  let sign := if bits >>> 63 = 1 then "-" else ""
  let magnitude := bits &&& 0x7FFFFFFFFFFFFFFF
  sign ++ if magnitude = 0 then "0.0" else (shortest (.ofBits magnitude)).text

def Number.text : Number → String
  | whole value => toString value
  | double bits => doubleText bits

/-! ## From text -/

/-- The largest number of 64 bits. -/
def maxWord : Nat := 0xFFFFFFFFFFFFFFFF

/-- The largest exponent that is read digit by digit. -/
def maxExponent : Nat := 0x7FFFFFFF

/-- A power of ten up to `10 ^ 308`, as a double. -/
def powerOfTen (n : Nat) : Float :=
  Float.ofScientific 1 false n

/-- A double after divisions by `10 ^ 308` for exponents below `-308`. -/
def scaleDown : Nat → Float → Int → Float × Int
  | 0, f, exponent => (f, exponent)
  | steps + 1, f, exponent =>
    if exponent < -308 ∧ f != 0 then scaleDown steps (f / powerOfTen 308) (exponent + 308)
    else (f, exponent)

/-- `significand · 10 ^ exponent` by one rounding of the significand and one of
the product or quotient, `none` when it is too large. The quotient of a number
with an exponent below `-308` is taken in steps. -/
def decimalToDouble? (significand : Nat) (exponent : Int) : Option Float :=
  let f := (UInt64.ofNat significand).toFloat
  if 0 ≤ exponent then
    if exponent ≤ 308 then
      let product := f * powerOfTen exponent.toNat
      if product.isInf then none else some product
    else if f == 0 then some f else none
  else
    -- after three steps every number of 64 bits is zero
    let (f, exponent) := scaleDown 3 f exponent
    if exponent < -308 then some f else some (f / powerOfTen (-exponent).toNat)

/-- The number with a sign. A minus sign before a zero makes it a double. -/
def Number.ofWord (positive : Bool) (significand : Nat) : Number :=
  if positive then whole significand
  else if significand = 0 ∨ 0x8000000000000000 < significand then
    double (-(UInt64.ofNat significand).toFloat).toBits
  else whole (-(significand : Int))

def Number.ofDouble (positive : Bool) (f : Float) : Number :=
  double (if positive then f else -f).toBits

end RazenLint.Json
