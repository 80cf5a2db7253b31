import ScopedStyles.Css.Piece

namespace ScopedStyles.Css

open Decimal

/-- How local names are made unique: those of classes and ids, and those of keyframes if they are
local. A name is given in parts. -/
structure Naming where
  rename : String → List String
  renameKeyframes : Option (String → List String)

def reservedNames : List String :=
  ["none", "initial", "inherit", "unset", "default", "revert", "revert-layer"]

def isReserved (name : String) : Bool :=
  reservedNames.contains name.toLower

inductive AnimationName where
  | none
  | named (name : String)
  | quoted (name : String)
  deriving DecidableEq

namespace AnimationName

def chars (naming : Naming) : AnimationName → List Char
  | none => "none".toList
  | named name => joinedChars ((naming.renameKeyframes.getD (fun n => [n])) name)
  | quoted name =>
    if isReserved name then stringChars name
    else joinedChars ((naming.renameKeyframes.getD (fun n => [n])) name)

def name? : AnimationName → Option String
  | none => Option.none
  | named name => some name
  | quoted name => some name

end AnimationName

inductive Size where
  | auto
  | length (negative : Bool) (m : Magnitude) (unit : String)
  | percentage (negative : Bool) (m : Magnitude)
  deriving DecidableEq

def Size.chars : Size → List Char
  | auto => "auto".toList
  | length negative m unit =>
    if isZero m then ['0'] else measureChars negative m unit.toList
  | percentage negative m => percentageChars negative m

/-- The sizes of four sides without those that follow from others: the left one is like the right
one, the lower like the upper, and all like the upper, unless given. -/
def shortSides : List Size → List Size
  | [top, right, bottom, left] =>
    if right ≠ left then [top, right, bottom, left]
    else if top ≠ bottom then [top, right, bottom]
    else if top ≠ right then [top, right]
    else [top]
  | sizes => sizes

inductive Setting where
  | pieces (ps : List Piece)
  | color (c : Color)
  | word (text : String)
  | number (negative : Bool) (m : Magnitude)
  | sizes (sizes : List Size)
  | animations (names : List AnimationName)

def Setting.chars (naming : Naming) : Setting → List Char
  | pieces ps => piecesChars ps
  | color c => c.chars
  | word text => text.toList
  | number negative m => numberChars negative m
  | sizes ss => [' '].intercalate ((shortSides ss).map Size.chars)
  | animations names => [','].intercalate (names.map (AnimationName.chars naming))

def Setting.keyframeNames : Setting → List String
  | animations names => names.filterMap AnimationName.name?
  | _ => []

structure Declaration where
  property : String
  setting : Setting
  important : Bool

def Declaration.chars (naming : Naming) (d : Declaration) : List Char :=
  nameChars d.property ++ ':' :: d.setting.chars naming ++
    if d.important then "!important".toList else []

/-- Declarations with a semicolon between each two, the important ones last. -/
def declarationsChars (naming : Naming) (ds : List Declaration) : List Char :=
  [';'].intercalate
    ((ds.filter (!·.important) ++ ds.filter (·.important)).map (Declaration.chars naming))

end ScopedStyles.Css
