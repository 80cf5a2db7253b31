import ScopedStyles.Decimal.Format

namespace ScopedStyles.Decimal

structure Digits where
  digits : List Char
  point : Int

def below (ends : Bool) (x y : Fraction) : Bool :=
  if ends then x.num * y.den ≤ y.num * x.den else x.num * y.den < y.num * x.den

/-- The fractions that are read as one value: between two bounds, which belong to them or not. -/
structure Interval where
  low : Fraction
  high : Fraction
  ends : Bool

def Interval.contains (i : Interval) (x : Fraction) : Bool :=
  below i.ends i.low x && below i.ends x i.high

/-- The fractions nearer to a positive value of the format than to its neighbours. Below a power of
two the neighbour is nearer; bounds belong to even significands. -/
def Format.interval (f : Format) (significand : Nat) (scale : Int) : Interval :=
  let quarters (n : Nat) : Fraction := (⟨n, 4⟩ : Fraction).scale 2 scale
  let narrow := significand = Nat.pow 2 (f.precision - 1) ∧ f.minScale < scale
  ⟨quarters (4 * significand - if narrow then 1 else 2), quarters (4 * significand + 2),
    significand % 2 = 0⟩

def pointAbove (x : Fraction) : Nat → Int → Int
  | 0, point => point
  | fuel + 1, point =>
    let y := x.scale 10 (-point)
    if y.num < y.den then point else pointAbove x fuel (point + 1)

def pointOf (x : Fraction) : Int :=
  let bits : Int := (Nat.log2 x.num : Int) - Nat.log2 x.den
  pointAbove x 4 (bits * 301 / 1000 - 1)

/-- The multiple of a power of ten in the interval that is nearest to `x`, as a count. Of two equally
near ones the greater is taken. -/
def nearestIn (i : Interval) (x : Fraction) (unit : Int) : Option Nat :=
  let y := x.scale 10 (-unit)
  let low := y.num / y.den
  let fits (n : Nat) : Bool := i.contains ((⟨n, 1⟩ : Fraction).scale 10 unit)
  match fits low, fits (low + 1) with
  | true, true => some (if 2 * (y.num % y.den) < y.den then low else low + 1)
  | true, false => some low
  | false, true => some (low + 1)
  | false, false => none

def trimZeros (cs : List Char) : List Char :=
  (cs.reverse.dropWhile (· == '0')).reverse

def shortestFrom (i : Interval) (x : Fraction) (point : Int) : Nat → Nat → Digits
  | 0, _ => ⟨[], point⟩
  | fuel + 1, count =>
    match nearestIn i x (point - count) with
    | some n =>
      let digits := (toString n).toList
      ⟨trimZeros digits, point + digits.length - count⟩
    | none => shortestFrom i x point fuel (count + 1)

def Format.shortest (f : Format) (significand : Nat) (scale : Int) : Digits :=
  let x := (⟨significand, 1⟩ : Fraction).scale 2 scale
  shortestFrom (f.interval significand scale) x (pointOf x) 17 1

end ScopedStyles.Decimal
