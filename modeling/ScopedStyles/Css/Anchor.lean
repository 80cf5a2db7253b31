namespace ScopedStyles.Css

/-- Where a source is read: how many blocks are open, in which string, and whether a backslash stands
in front of the next character of the string. -/
structure Place where
  depth : Nat
  quote : Option Char
  escaped : Bool
  deriving DecidableEq

namespace Place

def outside : Place := ⟨0, none, false⟩

def next (p : Place) (c : Char) : Place :=
  match p.quote with
  | some q =>
    if p.escaped then { p with escaped := false }
    else if c = '\\' then { p with escaped := true }
    else if c = q then { p with quote := none }
    else p
  | none =>
    if c = '"' ∨ c = '\'' then { p with quote := some c }
    else if c = '\x7b' then { p with depth := p.depth + 1 }
    else if c = '\x7d' then { p with depth := p.depth - 1 }
    else p

def isTop (p : Place) : Bool :=
  p.quote.isNone && p.depth == 0

end Place

/-- Replaces the ampersands for the anchor in a source that is read from the place `p` on. -/
def expandFrom (replacement : List Char) (p : Place) : List Char → List Char
  | [] => []
  | c :: cs =>
    (if p.isTop && c == '&' then replacement else [c]) ++ expandFrom replacement (p.next c) cs

def expandAnchor (replacement source : List Char) : List Char :=
  expandFrom replacement .outside source

end ScopedStyles.Css
