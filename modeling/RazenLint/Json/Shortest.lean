/-!
# The shortest decimal of a binary number

A binary floating-point number is `mantissa · 2 ^ exponent`. Every real number
between the two points half way to its neighbours reads back as it, the points
themselves when the mantissa is even. `shortest` finds the coarsest decimal
grid with a point in that interval, and on it the point nearest to the number,
the even one of two equally near.
-/

namespace RazenLint.Json

/-- A number `digits · 10 ^ exponent`. -/
structure Decimal where
  digits : Nat
  exponent : Int
deriving DecidableEq, Repr

/-- A finite positive number of the double format : `mantissa · 2 ^ exponent`. -/
structure Binary where
  mantissa : Nat
  exponent : Int
deriving DecidableEq, Repr

namespace Binary

/-- The smallest exponent of the double format. -/
def leastExponent : Int := -1074

/-- The magnitude in the bits of a finite double. -/
def ofBits (bits : UInt64) : Binary :=
  let fraction := (bits &&& 0xFFFFFFFFFFFFF).toNat
  let biased := ((bits >>> 52) &&& 0x7FF).toNat
  if biased = 0 then ⟨fraction, leastExponent⟩
  else ⟨fraction + Nat.pow 2 52, leastExponent + (biased - 1)⟩

/-- Whether the neighbour below is only half as far away as the one above. -/
def isPowerStep (x : Binary) : Bool :=
  x.mantissa = Nat.pow 2 52 && leastExponent < x.exponent

/-- The number in quarters of its last place, with the quarters down to the
point half way to the neighbour below. -/
def quarters (x : Binary) : Nat × Nat :=
  (4 * x.mantissa, if x.isPowerStep then 1 else 2)

end Binary

/-- `n · base ^ e` as a fraction, for either sign of `e`. -/
def scaled (base n : Nat) (e : Int) : Nat × Nat :=
  if 0 ≤ e then (n * Nat.pow base e.toNat, 1) else (n, Nat.pow base (-e).toNat)

/-- The point of the grid of multiples of `10 ^ p` that reads back as `x`, and
is nearest to it. -/
def gridPoint? (x : Binary) (p : Int) : Option Nat :=
  let (value, below) := x.quarters
  let unit := scaled 2 1 (x.exponent - 2)
  let grid := scaled 10 1 p
  -- one quarter is `unit.1 / unit.2`, one step of the grid is `grid.1 / grid.2`
  let quarter := unit.1 * grid.2
  let step := grid.1 * unit.2
  let floor := value * quarter / step
  let inside (d : Nat) : Bool :=
    let low := (value - below) * quarter
    let high := (value + 2) * quarter
    if x.mantissa % 2 = 0 then low ≤ d * step && d * step ≤ high
    else low < d * step && d * step < high
  let toFloor := value * quarter - floor * step
  let toNext := (floor + 1) * step - value * quarter
  match inside floor, inside (floor + 1) with
  | true, true =>
    if toFloor < toNext || (toFloor = toNext && floor % 2 = 0) then some floor else some (floor + 1)
  | true, false => some floor
  | false, true => some (floor + 1)
  | false, false => none

/-- The first hit on the grids `10 ^ p`, `10 ^ (p - 1)` and so on. -/
def firstGridPoint : Nat → Binary → Int → Decimal
  | 0, _, p => ⟨0, p⟩
  | steps + 1, x, p =>
    match gridPoint? x p with
    | some digits => ⟨digits, p⟩
    | none => firstGridPoint steps x (p - 1)

/-- The shortest decimal that reads back as a positive number. -/
def shortest (x : Binary) : Decimal :=
  let bitLength := Nat.log2 x.mantissa + 1
  let top := ((x.exponent + bitLength) * 30103) / 100000 + 1
  firstGridPoint 25 x top

end RazenLint.Json
