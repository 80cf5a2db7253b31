import ScopedStyles.Css.Token
import ScopedStyles.Text.Units

namespace ScopedStyles.Css

inductive Cause where
  | endOfInput
  | unexpected (t : Token)
  | unknownRule (name : String)
  | tooDeep
  | emptySelector
  | danglingCombinator
  | classNeedsName (t : Token)
  | pseudoNeedsName (t : Token)
  | namespaceNeedsName (t : Token)
  | ambiguousClass
  | misplaced
  | behindPseudoElement (t : Token)
  | pseudoClassBehindPseudoElement
  | pseudoClassBehindScrollbar
  | pseudoClassNeedsScrollbar
  | attributeNeedsName (t : Token)
  | attributeNeedsBar (t : Token)
  | attributeBadName (t : Token)
  | attributeUnexpected (t : Token)
  | attributeBadValue (t : Token)
  deriving DecidableEq

def Cause.description : Cause → String
  | endOfInput => "Unexpected end of input"
  | unexpected t => "Unexpected token " ++ t.describe
  | unknownRule name => "Unknown at rule: @" ++ name
  | tooDeep => "Overflowed the maximum nesting depth"
  | emptySelector => "Invalid empty selector"
  | danglingCombinator => "Invalid dangling combinator in selector"
  | classNeedsName t => "Expected identifier in class selector, got " ++ t.describe
  | pseudoNeedsName t => "Invalid token in pseudo element: " ++ t.describe
  | namespaceNeedsName t => "Unexpected token in namespace selector: " ++ t.describe
  | ambiguousClass => "Ambiguous CSS module class not supported"
  | misplaced => "Invalid state"
  | behindPseudoElement t =>
    "Pseudo-elements like '::before' or '::after' can't be followed by selectors like '" ++
      t.describe ++ "'"
  | pseudoClassBehindPseudoElement =>
    "Invalid pseudo class after pseudo element, only user action pseudo classes " ++
      "(e.g. :hover, :active) are allowed"
  | pseudoClassBehindScrollbar => "Invalid pseudo class after ::-webkit-scrollbar pseudo element"
  | pseudoClassNeedsScrollbar =>
    "Pseudo class must be prefixed by a ::-webkit-scrollbar pseudo element"
  | attributeNeedsName t => "No qualified name in attribute selector: " ++ t.describe ++ "."
  | attributeNeedsBar t => "Expected | in attribute, got " ++ t.describe
  | attributeBadName t => "Invalid qualified name in attribute selector: " ++ t.describe
  | attributeUnexpected t => "Unexpected token in attribute selector: " ++ t.describe
  | attributeBadValue t => "Invalid value in attribute selector: " ++ t.describe

structure Failure where
  cause : Cause
  place : Source
  deriving DecidableEq

/-- Lines count from 0 and columns from 1, in UTF-16 units. -/
structure Location where
  line : Nat
  column : Nat
  deriving DecidableEq

def Location.after (l : Location) : List Char → Location
  | [] => l
  | '\r' :: '\n' :: cs => Location.after ⟨l.line + 1, 1⟩ cs
  | c :: cs =>
    if c = '\n' ∨ c = '\r' ∨ c = '\x0c' then Location.after ⟨l.line + 1, 1⟩ cs
    else Location.after ⟨l.line, l.column + (unitsOfChar c).length⟩ cs

def locate (source place : Source) : Location :=
  Location.after ⟨0, 1⟩ (source.take (source.length - place.length))

end ScopedStyles.Css
