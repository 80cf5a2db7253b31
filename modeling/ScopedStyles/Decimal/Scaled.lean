import ScopedStyles.Decimal.Shortest

namespace ScopedStyles.Decimal

/-- A value with its bounds, times a power of ten, counted in units of `2 ^ -bits`. -/
structure Scaled where
  low : Nat
  value : Nat
  high : Nat
  bits : Nat
  power : Int

def word : Format := ⟨32, -1000, 1000⟩

def wordPower (power : Int) : Nat × Int :=
  let x := (⟨1, 1⟩ : Fraction).scale 10 power
  let scale := word.scaleOf x
  ((x.scale 2 (-scale)).roundEven, scale)

def wordProduct (m n : Nat) : Nat :=
  (m * n + Nat.pow 2 31) / Nat.pow 2 32

def scalingPowers : List Int :=
  (List.range 12).map fun (n : Nat) => 8 * (n : Int) - 36

def scalingPower (scale : Int) : Int :=
  let lifts (power : Int) : Bool :=
    let x := ((⟨Nat.pow 2 31, 1⟩ : Fraction).scale 2 scale).scale 10 power
    4 * x.den ≤ x.num
  (scalingPowers.find? lifts).getD 52

/-- A positive value and the bounds half way to its neighbours. Below a power of two the neighbour
is nearer. -/
def Format.scaled (f : Format) (significand : Nat) (scale : Int) : Scaled :=
  let shift := 31 - significand.log2
  let half := Nat.pow 2 shift / 2
  let value := significand * Nat.pow 2 shift
  let gap := if significand = Nat.pow 2 (f.precision - 1) then half / 2 else half
  let power := scalingPower (scale - shift)
  let (factor, factorScale) := wordPower power
  { low := wordProduct (value - gap) factor + 1
    value := wordProduct value factor
    high := wordProduct (value + half) factor - 1
    bits := (shift - 32 - scale - factorScale).toNat
    power }

/-- The multiple of a power of ten between the bounds that is nearest to the value, as a count. Of
two equally near ones the greater is taken. A fraction at the lower bound is taken only beside
another one. -/
def Scaled.nearest? (s : Scaled) (unit : Int) : Option Nat :=
  let step := Nat.pow 10 unit.toNat * Nat.pow 2 s.bits
  let refine (n : Nat) : Nat := n * Nat.pow 10 (-unit).toNat
  let low := refine s.low
  let value := refine s.value
  let high := refine s.high
  let last := high / step * step
  if low < last ∨ low = last ∧ 0 ≤ unit then
    let count := value / step
    let isNearest := high < (count + 1) * step ∨ 2 * (value % step) < step
    some (if low ≤ count * step ∧ isNearest then count else count + 1)
  else none

def scaledUnits : List Int :=
  (List.range 19).map fun (n : Nat) => 9 - (n : Int)

def Format.scaledDigits (f : Format) (significand : Nat) (scale : Int) : Digits :=
  let s := f.scaled significand scale
  match scaledUnits.findSome? fun unit => (s.nearest? unit).map (·, unit) with
  | some (n, unit) =>
    let digits := (toString n).toList
    ⟨trimZeros digits, digits.length + unit - s.power⟩
  | none => f.shortest significand scale

end ScopedStyles.Decimal
