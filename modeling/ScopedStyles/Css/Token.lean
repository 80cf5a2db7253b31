import ScopedStyles.Css.Numeral
import ScopedStyles.Text.Quoted

namespace ScopedStyles.Css

inductive Bracket where
  | round
  | square
  | curly
  deriving DecidableEq

inductive Token where
  | space (text : String)
  | comment (text : String)
  | ident (name : String)
  | function (name : String)
  | atKeyword (name : String)
  /-- A `#` with a text behind it that could not stand alone as a name. -/
  | hash (text : String)
  | idHash (name : String)
  | string (text : String)
  | badString (text : String)
  | url (text : String)
  | badUrl (text : String)
  | number (n : Numeral)
  | percentage (n : Numeral)
  | dimension (n : Numeral) (unit : String)
  | delim (c : Char)
  | includeMatch
  | dashMatch
  | prefixMatch
  | suffixMatch
  | substringMatch
  | cdo
  | cdc
  | colon
  | semicolon
  | comma
  | opening (b : Bracket)
  | closing (b : Bracket)
  deriving DecidableEq

namespace Token

def describeText (name text : String) : String :=
  name ++ "(" ++ quotedText text ++ ")"

def describeFields (name fields : String) : String :=
  name ++ " \x7b " ++ fields ++ " \x7d"

def describe : Token → String
  | space text => describeText "WhiteSpace" text
  | comment text => describeText "Comment" text
  | ident name => describeText "Ident" name
  | function name => describeText "Function" name
  | atKeyword name => describeText "AtKeyword" name
  | hash text => describeText "Hash" text
  | idHash name => describeText "IDHash" name
  | string text => describeText "String" text
  | badString text => describeText "BadString" text
  | url text => describeText "UnquotedUrl" text
  | badUrl text => describeText "BadUrl" text
  | number n => describeFields "Number" (n.describe "value")
  | percentage n => describeFields "Percentage" (n.describe "unit_value")
  | dimension n unit =>
    describeFields "Dimension" (n.describe "value" ++ ", unit: " ++ quotedText unit)
  | delim c => "Delim(" ++ quotedChar c ++ ")"
  | includeMatch => "IncludeMatch"
  | dashMatch => "DashMatch"
  | prefixMatch => "PrefixMatch"
  | suffixMatch => "SuffixMatch"
  | substringMatch => "SubstringMatch"
  | cdo => "CDO"
  | cdc => "CDC"
  | colon => "Colon"
  | semicolon => "Semicolon"
  | comma => "Comma"
  | opening .round => "ParenthesisBlock"
  | opening .square => "SquareBracketBlock"
  | opening .curly => "CurlyBracketBlock"
  | closing .round => "CloseParenthesis"
  | closing .square => "CloseSquareBracket"
  | closing .curly => "CloseCurlyBracket"

def opens? : Token → Option Bracket
  | function _ => some .round
  | opening b => some b
  | _ => none

def isBroken : Token → Bool
  | badString _ | badUrl _ | closing _ => true
  | _ => false

end Token

/-- A place in a source, given by all that follows it. -/
abbrev Source := List Char

structure Placed where
  token : Token
  place : Source
  deriving DecidableEq

end ScopedStyles.Css
