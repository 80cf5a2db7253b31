import ScopedStyles.Css.Block
import ScopedStyles.Css.Error

namespace ScopedStyles.Css

/-- The values that are left, and the place where they end. -/
structure Cursor where
  values : List Value
  stop : Source

namespace Cursor

def place (c : Cursor) : Source :=
  (c.values.head?.map Value.place).getD c.stop

def moveTo (c : Cursor) (values : List Value) : Cursor :=
  { c with values }

def dropWhile (c : Cursor) (p : Value → Bool) : Cursor :=
  c.moveTo (c.values.dropWhile p)

def skipTrivia (c : Cursor) : Cursor :=
  c.dropWhile Value.isTrivia

def skipComments (c : Cursor) : Cursor :=
  c.dropWhile Value.isComment

def isEnd (c : Cursor) : Bool :=
  c.values.isEmpty

def splitAt (c : Cursor) (p : Value → Bool) : Cursor × Cursor :=
  let rest := c.dropWhile (!p ·)
  (⟨c.values.takeWhile (!p ·), rest.place⟩, rest)

def placeBehind (v : Value) (c : Cursor) : Source :=
  match v with
  | .block _ _ body stop => (⟨body, stop⟩ : Cursor).place
  | .token _ _ => c.place

/-- The failure for a value that may not stand where it does, trivia in front of it included. -/
def expectEnd (c : Cursor) : Except Failure Unit :=
  match c.skipTrivia.values with
  | [] => .ok ()
  | v :: _ => .error ⟨.unexpected v.head, c.place⟩

def splitCommas (c : Cursor) : List Cursor :=
  go c.stop c.values
where
  go (stop : Source) : List Value → List Cursor
    | [] => [⟨[], stop⟩]
    | v :: vs =>
      if v.isComma then ⟨[], v.place⟩ :: go stop vs
      else
        match go stop vs with
        | piece :: pieces => piece.moveTo (v :: piece.values) :: pieces
        | [] => []

end Cursor

end ScopedStyles.Css
