import ScopedStyles.Selector.Reader

namespace ScopedStyles.Css

open Selector (isQuote)

inductive Context where
  | plain
  | slash
  | escaped
  | string (quote : Char) (escaped : Bool)
  /-- In a comment, and whether the star that may end it has been read. -/
  | comment (star : Bool)
  deriving DecidableEq

namespace Context

def behind (c : Char) : Context :=
  if isQuote c then string c false
  else if c = '\\' then escaped
  else if c = '/' then slash
  else plain

def next : Context → Char → Context
  | plain, c => behind c
  | slash, c => if c = '*' then comment false else behind c
  | escaped, _ => plain
  | string quote true, _ => string quote false
  | string quote false, c =>
    if c = '\\' then string quote true else if c = quote then plain else string quote false
  | comment star, c => if star && c == '/' then plain else comment (c == '*')

def isOpen : Context → Bool
  | plain | slash => true
  | escaped | string _ _ | comment _ => false

def after (x : Context) (cs : List Char) : Context :=
  cs.foldl next x

theorem after_cons (x : Context) (c : Char) (cs : List Char) : x.after (c :: cs) = (x.next c).after cs :=
  rfl

end Context

/-- A comment, closed by the first `*/` behind its opening. -/
structure Comment where
  text : List Char
  closed : ¬ ['*', '/'] <:+: text

def Comment.chars (c : Comment) : List Char :=
  '/' :: '*' :: (c.text ++ ['*', '/'])

end ScopedStyles.Css
