import ScopedStyles.Selector.Basic

namespace ScopedStyles.Selector

def Namespace.chars : Namespace → List Char
  | named name => name.toList ++ ['|']
  | bar => ['|']

def prefixChars : Option Namespace → List Char
  | none => []
  | some ns => ns.chars

/-- An operator is written only together with a value. -/
def Match.chars (m : Match) : List Char :=
  (match m.operator, m.value with
    | some operator, some value => operator.toList ++ value.toList
    | _, _ => []) ++
  (match m.flag with
    | some flag => ' ' :: flag.toList
    | none => [])

def Label.chars (l : Label) : List Char :=
  match l.kind with
  | .root | .selector => []
  | .tag => prefixChars l.ns ++ l.value.toList
  | .universal => prefixChars l.ns ++ ['*']
  | .className => '.' :: l.value.toList
  | .idName => '#' :: l.value.toList
  | .attribute m => '[' :: (prefixChars l.ns ++ l.value.toList ++ m.chars) ++ [']']
  | .pseudo _ | .combinator | .string => l.value.toList
  | .nesting => ['&']

mutual

/-- The written form of a tree. Only roots, selectors and pseudos with parentheses show their
children. -/
def Tree.chars : Tree → List Char
  | .node l ts =>
    match l.kind with
    | .root => listChars ts
    | .selector => compoundChars ts
    | .pseudo true => l.chars ++ '(' :: listChars ts ++ [')']
    | _ => l.chars

def listChars : List Tree → List Char
  | [] => []
  | t :: ts => t.chars ++ laterChars ts

def laterChars : List Tree → List Char
  | [] => []
  | t :: ts => ',' :: t.chars ++ laterChars ts

def compoundChars : List Tree → List Char
  | [] => []
  | t :: ts => t.chars ++ compoundChars ts

end

def Tree.render (t : Tree) : String :=
  String.ofList t.chars

end ScopedStyles.Selector
