import ScopedStyles.Css.Name
import ScopedStyles.Css.Progression

namespace ScopedStyles.Css

inductive Combinator where
  | descendant
  | child
  | nextSibling
  | laterSibling
  deriving DecidableEq

inductive Qualifier where
  | any
  | empty
  | named (ns : String)
  deriving DecidableEq

structure AttributeTest where
  operator : String
  value : String
  flag : Option Char
  deriving DecidableEq

inductive Part where
  | combinator (c : Combinator)
  | universal
  | element (name : String)
  | qualified (q : Qualifier) (name : Option String)
  | className (name : String)
  | idName (name : String)
  | nesting
  | attribute (q : Option Qualifier) (name : String) (test : Option AttributeTest)
  | pseudoClass (name : String)
  | pseudoElement (known : Bool) (name : String)
  | functional (colons : Nat) (name : String) (arguments : List Char)
  | parts (names : List String)
  | elementOf (name : String) (selector : List Part)
  | nth (name : String) (positions : Progression) (among : Option (List (List Part)))
  | matching (name : String) (selectors : List (List Part))
  | names (kept : Bool) (selector : List Part)

namespace Combinator

def ofChar? (c : Char) : Option Combinator :=
  if c = '>' then some child
  else if c = '+' then some nextSibling
  else if c = '~' then some laterSibling
  else none

def char : Combinator → Char
  | descendant => ' '
  | child => '>'
  | nextSibling => '+'
  | laterSibling => '~'

end Combinator

def shortPseudoElements : List String :=
  ["before", "after", "first-line", "first-letter"]

def firstNames : List (String × String) :=
  [("nth-child", "first-child"), ("nth-last-child", "last-child"),
    ("nth-of-type", "first-of-type"), ("nth-last-of-type", "last-of-type")]

def Qualifier.chars : Qualifier → List Char
  | any => ['*', '|']
  | empty => ['|']
  | named ns => nameChars ns ++ ['|']

def AttributeTest.chars (quoted : Bool) (t : AttributeTest) : List Char :=
  t.operator.toList ++ (if quoted then stringChars t.value else shorterChars t.value) ++
    match t.flag with
    | some flag => [' ', flag]
    | none => []

/-- The value is quoted behind a name with a namespace or with capital letters. -/
def attributeChars (q : Option Qualifier) (name : String) (test : Option AttributeTest) :
    List Char :=
  '[' :: ((q.map Qualifier.chars).getD []) ++ nameChars name ++
    (match test with
      | some t => t.chars (q.isSome || name.any Char.isUpper)
      | none => []) ++ [']']

inductive Standing where
  | first
  | nested
  | later
  | inside
  deriving DecidableEq

def Standing.behind (s : Standing) : Part → Standing
  | .nesting => if s = .first then .nested else .inside
  | .combinator _ => if s = .first then .first else .later
  | _ => .inside

/-- Whether a compound ends here. The parts of a component are no longer of the compound that they
belong to. -/
def endsCompound : List Part → Bool
  | [] => true
  | .combinator _ :: _ | .parts _ :: _ => true
  | _ => false

def hasType : List Part → Bool
  | .element _ :: _ | .universal :: _ | .qualified _ _ :: _ => true
  | _ => false

def isCompound (s : List Part) : Bool :=
  s.all fun
    | .combinator _ | .pseudoElement true _ | .parts _ | .elementOf _ _ => false
    | _ => true

/-- Whether `:is(…)` around the selectors says nothing. -/
def isPlain : List (List Part) → Bool
  | [s] => !hasType s && isCompound s
  | _ => false

mutual

def Part.chars (rename : String → List String) : Part → List Char
  | .combinator c => [c.char]
  | .universal => ['*']
  | .element name => nameChars name
  | .qualified q name => q.chars ++ ((name.map nameChars).getD ['*'])
  | .className name => '.' :: joinedChars (rename name)
  | .idName name => '#' :: joinedChars (rename name)
  | .nesting => ['&']
  | .attribute q name test => attributeChars q name test
  | .pseudoClass name => ':' :: name.toList
  | .pseudoElement _ name =>
    if name ∈ shortPseudoElements then ':' :: name.toList else ':' :: ':' :: name.toList
  | .functional colons name arguments =>
    List.replicate colons ':' ++ name.toList ++ '(' :: arguments ++ [')']
  | .parts names => "::part(".toList ++ [' '].intercalate (names.map nameChars) ++ [')']
  | .elementOf name selector =>
    ':' :: ':' :: name.toList ++ '(' :: selectorChars rename .first selector ++ [')']
  | .nth name positions among =>
    match among, positions.isFirst, firstNames.lookup name with
    | none, true, some first => ':' :: first.toList
    | among, _, _ =>
      ':' :: name.toList ++ '(' :: positions.text.toList ++
        (match among with
          | some selectors => " of ".toList ++ selectorsChars rename selectors
          | none => []) ++ [')']
  | .matching name selectors =>
    if name = "is" ∧ isPlain selectors then selectorsChars rename selectors
    else ':' :: name.toList ++ '(' :: selectorsChars rename selectors ++ [')']
  | .names true selector => selectorChars (fun name => [name]) .first selector
  | .names false selector => selectorChars rename .first selector

/-- A universal selector is left out where other parts stand beside it, but with a namespace only
behind an ampersand that is not at the very beginning. -/
def selectorChars (rename : String → List String) (s : Standing) : List Part → List Char
  | [] => []
  | .universal :: ps =>
    (if s != .inside && endsCompound ps then ['*'] else []) ++ selectorChars rename .inside ps
  | .qualified q none :: ps =>
    q.chars ++ (if s = .inside then [] else ['*']) ++ selectorChars rename .inside ps
  | p :: ps => p.chars rename ++ selectorChars rename (s.behind p) ps

def selectorsChars (rename : String → List String) : List (List Part) → List Char
  | [] => []
  | [s] => selectorChars rename .first s
  | s :: t :: ss => selectorChars rename .first s ++ ',' :: selectorsChars rename (t :: ss)

end

mutual

def Part.localNames : Part → List String
  | .className name => [name]
  | .idName name => [name]
  | .matching _ selectors => selectorsNames selectors
  | .nth _ _ (some selectors) => selectorsNames selectors
  | .names false selector => selectorNames selector
  | .elementOf _ selector => selectorNames selector
  | _ => []

def selectorNames : List Part → List String
  | [] => []
  | p :: ps => p.localNames ++ selectorNames ps

def selectorsNames : List (List Part) → List String
  | [] => []
  | s :: ss => selectorNames s ++ selectorsNames ss

end

end ScopedStyles.Css
