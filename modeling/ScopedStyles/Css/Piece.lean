import ScopedStyles.Css.Block
import ScopedStyles.Css.Color
import ScopedStyles.Css.Name

namespace ScopedStyles.Css

open Decimal

inductive Piece where
  | plain (t : Token)
  | color (c : Color)
  | link (address : String)
  | variable (name : String) (fallback : Option (List Piece))
  | function (name : String) (arguments : List Piece)

def closingChar : Bracket → Char
  | .round => ')'
  | .square => ']'
  | .curly => '\x7d'

/-- A unit behind a number. One that looks like a power of ten has its `e` escaped. -/
def unitChars (unit : String) : List Char :=
  match unit.toList with
  | e :: cs =>
    if (e = 'e' ∨ e = 'E') ∧ (cs = [] ∨ cs.head? = some '-') then
      "\\65 ".toList ++ restChars (String.ofList cs)
    else nameChars unit
  | [] => []

def Token.chars : Token → List Char
  | .space text => text.toList
  | .comment text => "/*".toList ++ text.toList ++ "*/".toList
  | .ident name => nameChars name
  | .function name => nameChars name ++ ['(']
  | .atKeyword name => '@' :: nameChars name
  | .hash text => '#' :: restChars text
  | .idHash name => '#' :: nameChars name
  | .string text | .badString text => stringChars text
  | .url text | .badUrl text => plainUrlChars text
  | .number n => spelledChars n n.magnitude
  | .percentage n => spelledChars n (timesFraction n.magnitude hundred) ++ ['%']
  | .dimension n unit => spelledChars n n.magnitude ++ unitChars unit
  | .delim c => [c]
  | .includeMatch => ['~', '=']
  | .dashMatch => ['|', '=']
  | .prefixMatch => ['^', '=']
  | .suffixMatch => ['$', '=']
  | .substringMatch => ['*', '=']
  | .cdo => "<!--".toList
  | .cdc => "-->".toList
  | .colon => [':']
  | .semicolon => [';']
  | .comma => [',']
  | .opening .round => ['(']
  | .opening .square => ['[']
  | .opening .curly => ['\x7b']
  | .closing b => [closingChar b]

mutual

def Value.chars : Value → List Char
  | .token t _ => t.chars
  | .block opener _ body _ =>
    opener.chars ++ valuesChars body ++ [(opener.opens?.map closingChar).getD ')']

def valuesChars : List Value → List Char
  | [] => []
  | v :: vs => v.chars ++ valuesChars vs

end

def lengthUnits : List String :=
  ["px", "in", "cm", "mm", "q", "pt", "pc", "em", "rem", "ex", "rex", "ch", "rch", "cap", "rcap",
    "ic", "ric", "lh", "rlh", "vw", "lvw", "svw", "dvw", "cqw", "vh", "lvh", "svh", "dvh", "cqh",
    "vi", "svi", "lvi", "dvi", "cqi", "vb", "svb", "lvb", "dvb", "cqb", "vmin", "svmin", "lvmin",
    "dvmin", "cqmin", "vmax", "svmax", "lvmax", "dvmax", "cqmax"]

def otherUnits : List String :=
  ["deg", "grad", "turn", "dpi", "dpcm"]

def degreesPerRadian : Fraction := ⟨15019744, 262144⟩

def measureChars (negative : Bool) (m : Magnitude) (unit : List Char) : List Char :=
  trimmedChars one negative m m ++ unit

/-- Radians are written as degrees, unless a hundred thousand times as many are out of range. -/
def radianChars (negative : Bool) (m : Magnitude) : List Char :=
  let degrees := timesFraction m degreesPerRadian
  match timesFraction degrees ⟨100000, 1⟩ with
  | .finite _ _ => measureChars negative degrees "deg".toList
  | _ => measureChars negative m "rad".toList

def timeChars (negative : Bool) (m : Magnitude) (milliseconds : Bool) : List Char :=
  if milliseconds then
    if isZero m || !negative && !isBelow m hundred then
      numberChars negative (timesFraction m ⟨1, 1000⟩) ++ ['s']
    else numberChars negative m ++ ['m', 's']
  else if !negative && !isZero m && isBelow m ⟨1, 10⟩ then
    numberChars negative (timesFraction m ⟨1000, 1⟩) ++ ['m', 's']
  else numberChars negative m ++ ['s']

def dimensionChars (n : Numeral) (unit : String) : List Char :=
  let name := unit.toLower
  if name ∈ lengthUnits ∨ name ∈ otherUnits then measureChars n.negative n.magnitude name.toList
  else if name = "rad" then radianChars n.negative n.magnitude
  else if name = "s" ∨ name = "ms" then timeChars n.negative n.magnitude (name == "ms")
  else if name = "dppx" ∨ name = "x" then measureChars n.negative n.magnitude ['x']
  else measureChars n.negative n.magnitude (unitChars unit)

/-- A token in a value. Signs that stand alone have spaces around them. -/
def pieceTokenChars : Token → List Char
  | .delim c => if c = '+' ∨ c = '-' then [' ', c, ' '] else [c]
  | .number n => n.chars
  | .dimension n unit => dimensionChars n unit
  | t => t.chars

mutual

def Piece.chars : Piece → List Char
  | .plain t => pieceTokenChars t
  | .color c => c.chars
  | .link address => urlChars address
  | .variable name fallback =>
    "var(".toList ++ nameChars name ++
      (match fallback with
        | some ps => ',' :: piecesChars ps
        | none => []) ++ [')']
  | .function name arguments => nameChars name ++ '(' :: piecesChars arguments ++ [')']

def piecesChars : List Piece → List Char
  | [] => []
  | p :: ps => p.chars ++ piecesChars ps

end

end ScopedStyles.Css
