import ScopedStyles.Decimal.Shortest

namespace ScopedStyles.Decimal

structure Number where
  negative : Bool
  magnitude : Magnitude
  deriving DecidableEq

def natOfDigits (cs : List Char) : Nat :=
  cs.foldl (fun n c => 10 * n + (c.toNat - 48)) 0

def takeSign : List Char → Bool × List Char
  | '-' :: cs => (true, cs)
  | '+' :: cs => (false, cs)
  | cs => (false, cs)

def readExponent? : List Char → Option Int
  | [] => some 0
  | c :: cs =>
    let (negative, ds) := takeSign cs
    if (c = 'e' ∨ c = 'E') ∧ ds ≠ [] ∧ ds.all Char.isDigit then
      some (if negative then -natOfDigits ds else natOfDigits ds)
    else none

/-- The nearest value to `n * 10 ^ e`. Powers that are out of range for every format are not
computed. -/
def Format.ofScientific (f : Format) (n : Nat) (e : Int) : Magnitude :=
  let size := e + (toString n).length
  if n = 0 ∨ size < -400 then f.round ⟨0, 1⟩
  else if 400 < size then .infinite
  else f.round ((⟨n, 1⟩ : Fraction).scale 10 e)

def Format.readMagnitude? (f : Format) (cs : List Char) : Option Magnitude :=
  let whole := cs.takeWhile Char.isDigit
  let rest := cs.dropWhile Char.isDigit
  let (fraction, rest) :=
    match rest with
    | '.' :: rest => (rest.takeWhile Char.isDigit, rest.dropWhile Char.isDigit)
    | rest => ([], rest)
  if whole = [] ∧ fraction = [] then none
  else (readExponent? rest).map fun e =>
    f.ofScientific (natOfDigits (whole ++ fraction)) (e - fraction.length)

def Format.read? (f : Format) (text : String) : Option Number :=
  let (negative, cs) := takeSign text.toList
  let word := String.ofList (cs.map Char.toLower)
  if word = "nan" then some ⟨negative, .undefined⟩
  else if word = "inf" ∨ word = "infinity" then some ⟨negative, .infinite⟩
  else (f.readMagnitude? cs).map (⟨negative, ·⟩)

def zeros (n : Int) : List Char :=
  List.replicate n.toNat '0'

def Digits.positional (d : Digits) : List Char :=
  if d.point ≤ 0 then '0' :: '.' :: zeros (-d.point) ++ d.digits
  else if d.digits.length ≤ d.point then d.digits ++ zeros (d.point - d.digits.length)
  else d.digits.take d.point.toNat ++ '.' :: d.digits.drop d.point.toNat

def Format.magnitudeChars (f : Format) : Magnitude → List Char
  | .undefined => "NaN".toList
  | .infinite => "inf".toList
  | .finite 0 _ => ['0']
  | .finite significand scale => (f.shortest significand scale).positional

/-- The sign of zero is written, that of an undefined number is not. -/
def Format.write (f : Format) (x : Number) : String :=
  String.ofList ((if x.negative && x.magnitude != .undefined then ['-'] else []) ++
    f.magnitudeChars x.magnitude)

def plainInteger? (text : String) : Option String :=
  let (negative, cs) := takeSign text.toList
  if cs ≠ [] ∧ cs.all Char.isDigit then
    let n := natOfDigits cs
    some (if negative ∧ n ≠ 0 then "-" ++ toString n else toString n)
  else none

def Format.plain? (f : Format) (text : String) : Option String :=
  (f.read? text).map f.write

end ScopedStyles.Decimal
