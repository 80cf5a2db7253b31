import ScopedStyles.Decimal.Number
import ScopedStyles.Decimal.Scaled

namespace ScopedStyles.Css

open Decimal

structure Numeral where
  signed : Bool
  negative : Bool
  magnitude : Magnitude
  whole : Option Int
  deriving DecidableEq

def timesFraction (m : Magnitude) (x : Fraction) : Magnitude :=
  Format.single.scaleBy x m

def isZero : Magnitude → Bool
  | .finite significand _ => significand == 0
  | _ => false

def isBelow (m : Magnitude) (x : Fraction) : Bool :=
  match m, Format.single.round x with
  | .finite m p, .finite n q => below false (exactly m p) (exactly n q)
  | _, _ => false

def isIntegral : Magnitude → Bool
  | .finite significand scale =>
    let y := exactly significand scale
    y.num % y.den == 0
  | _ => false

def limitDigits (count : Nat) (d : Digits) : Digits :=
  if d.digits.length ≤ count then d
  else
    let kept := natOfDigits (d.digits.take count)
    let digits := (toString (if '5' ≤ d.digits.getD count '0' then kept + 1 else kept)).toList
    ⟨trimZeros digits, d.point + digits.length - count⟩

def scientificChars (whole d : Digits) : List Char :=
  let power := whole.point - 1
  (⟨d.digits, d.point - power⟩ : Digits).positional ++ 'e' :: (toString power).toList

/-- Digits with at most six of them. Numbers with more than 21 digits in front of the point, or more
than five zeros behind it, get a power of ten, which is chosen before the digits are rounded. -/
def digitChars (d : Digits) : List Char :=
  if -6 < d.point ∧ d.point ≤ 21 then (limitDigits 6 d).positional
  else scientificChars d (limitDigits 6 d)

/-- A magnitude with at most six digits. One beyond all others is written like the power of two
behind the greatest, and an undefined one like one and a half times this power. -/
def magnitudeChars : Magnitude → List Char
  | .undefined => "5.10424e38".toList
  | .infinite => "3.40282e38".toList
  | .finite 0 _ => ['0']
  | .finite significand scale => digitChars (Format.single.scaledDigits significand scale)

def dropZeros (cs : List Char) : List Char :=
  cs.dropWhile (· == '0')

def signChars (negative : Bool) : List Char :=
  if negative then ['-'] else []

/-- A minus sign in place of the sign and the zero in front of the point. A text without this zero
keeps its sign behind the new one. -/
def dropSignedZero : List Char → List Char
  | '-' :: '0' :: cs => '-' :: cs
  | cs => '-' :: cs

def trimmedChars (bound : Fraction) (negative : Bool) (m written : Magnitude) : List Char :=
  let cs := signChars negative ++ magnitudeChars written
  if isBelow m bound && !isZero m then (if negative then dropSignedZero cs else dropZeros cs)
  else cs

def one : Fraction := ⟨1, 1⟩

def hundred : Fraction := ⟨100, 1⟩

def numberChars (negative : Bool) (m : Magnitude) : List Char :=
  trimmedChars one (negative && !isZero m) m m

def spelledChars (n : Numeral) (m : Magnitude) : List Char :=
  let cs := magnitudeChars m
  let fraction := n.whole.isNone && isIntegral m && !cs.contains '.' && !cs.contains 'e'
  (if n.signed && !n.negative then ['+'] else signChars n.negative) ++ cs ++
    if fraction then ['.', '0'] else []

/-- The short form of a percentage; `m` is the hundredth of the number that is written. -/
def percentageChars (negative : Bool) (m : Magnitude) : List Char :=
  trimmedChars ⟨1, 100⟩ negative m (timesFraction m hundred) ++ ['%']

def describeMagnitude (m : Magnitude) : List Char :=
  match m with
  | .undefined => "NaN".toList
  | .infinite => "inf".toList
  | .finite 0 _ => "0.0".toList
  | .finite significand scale =>
    let d := Format.single.shortest significand scale
    if -4 < d.point ∧ d.point ≤ 16 then
      let cs := d.positional
      if cs.contains '.' then cs else cs ++ ['.', '0']
    else scientificChars d d

namespace Numeral

def describe (n : Numeral) (valueName : String) : String :=
  let whole :=
    match n.whole with
    | some i => "Some(" ++ toString i ++ ")"
    | none => "None"
  "has_sign: " ++ toString n.signed ++ ", " ++ valueName ++ ": " ++
    String.ofList (signChars (n.negative && n.magnitude != .undefined) ++
      describeMagnitude n.magnitude) ++ ", int_value: " ++ whole

def chars (n : Numeral) : List Char :=
  numberChars n.negative n.magnitude

end Numeral

end ScopedStyles.Css
