namespace ScopedStyles.Decimal

/-- Significands have at most `precision` bits; scales lie between `minScale` and `maxScale`. -/
structure Format where
  precision : Nat
  minScale : Int
  maxScale : Int

namespace Format

def single : Format := ⟨24, -149, 104⟩

def double : Format := ⟨53, -1074, 971⟩

end Format

/-- A magnitude of a format: `significand * 2 ^ scale`, beyond all of these, or none. -/
inductive Magnitude where
  | finite (significand : Nat) (scale : Int)
  | infinite
  | undefined
  deriving DecidableEq

structure Fraction where
  num : Nat
  den : Nat

def Fraction.scale (x : Fraction) (base : Nat) : Int → Fraction
  | .ofNat n => ⟨x.num * base.pow n, x.den⟩
  | .negSucc n => ⟨x.num, x.den * base.pow (n + 1)⟩

def Fraction.roundEven (x : Fraction) : Nat :=
  let low := x.num / x.den
  let twice := 2 * (x.num % x.den)
  if twice < x.den then low
  else if x.den < twice then low + 1
  else low + low % 2

/-- The least scale at which the whole part of the fraction fits the precision. -/
def Format.scaleOf (f : Format) (x : Fraction) : Int :=
  let scale := max f.minScale ((Nat.log2 x.num : Int) - Nat.log2 x.den - f.precision)
  let y := x.scale 2 (-scale)
  if y.num / y.den < Nat.pow 2 f.precision then scale else scale + 1

def Format.round (f : Format) (x : Fraction) : Magnitude :=
  if x.num = 0 then .finite 0 f.minScale
  else
    let scale := f.scaleOf x
    let significand := (x.scale 2 (-scale)).roundEven
    let (significand, scale) :=
      if significand = Nat.pow 2 f.precision then (Nat.pow 2 (f.precision - 1), scale + 1)
      else (significand, scale)
    if f.maxScale < scale then .infinite else .finite significand scale

def exactly (significand : Nat) (scale : Int) : Fraction :=
  (⟨significand, 1⟩ : Fraction).scale 2 scale

def Format.plus (f : Format) : Magnitude → Magnitude → Magnitude
  | .finite m p, .finite n q =>
    let x := exactly m p
    let y := exactly n q
    f.round ⟨x.num * y.den + y.num * x.den, x.den * y.den⟩
  | .undefined, _ | _, .undefined => .undefined
  | _, _ => .infinite

def Format.times (f : Format) : Magnitude → Magnitude → Magnitude
  | .finite m p, .finite n q =>
    let x := exactly m p
    let y := exactly n q
    f.round ⟨x.num * y.num, x.den * y.den⟩
  | .undefined, _ | _, .undefined => .undefined
  | .finite 0 _, .infinite | .infinite, .finite 0 _ => .undefined
  | _, _ => .infinite

def Format.scaleBy (f : Format) (x : Fraction) : Magnitude → Magnitude
  | .finite n scale =>
    let y := exactly n scale
    f.round ⟨y.num * x.num, y.den * x.den⟩
  | m => m

end ScopedStyles.Decimal
