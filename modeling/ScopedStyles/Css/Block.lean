import ScopedStyles.Css.Lexer

namespace ScopedStyles.Css

inductive Value where
  | token (t : Token) (place : Source)
  | block (opener : Token) (place : Source) (body : List Value) (stop : Source)

namespace Value

instance : Inhabited Value := ⟨token .comma []⟩

def place : Value → Source
  | token _ p => p
  | block _ p _ _ => p

def head : Value → Token
  | token t _ => t
  | block opener _ _ _ => opener

def isSpace : Value → Bool
  | token (.space _) _ => true
  | _ => false

def isComment : Value → Bool
  | token (.comment _) _ => true
  | _ => false

def isTrivia (v : Value) : Bool :=
  v.isSpace || v.isComment

def isComma (v : Value) : Bool :=
  v.head == .comma

def isSemicolon (v : Value) : Bool :=
  v.head == .semicolon

def isCurly (v : Value) : Bool :=
  v.head == .opening .curly

end Value

/-- An open bracket with the values in front of it, newest first. -/
structure OpenBlock where
  opener : Token
  place : Source
  before : List Value

/-- Ends all open brackets. `current` holds the values of the innermost one, newest first. -/
def closeAll (current : List Value) : List OpenBlock → List Value
  | [] => current.reverse
  | o :: outer => closeAll (.block o.opener o.place current.reverse [] :: o.before) outer

def nest (current : List Value) (outer : List OpenBlock) : List Placed → List Value
  | [] => closeAll current outer
  | ⟨t, p⟩ :: ts =>
    match t.opens?, outer with
    | some _, _ => nest [] (⟨t, p, current⟩ :: outer) ts
    | none, [] => nest (.token t p :: current) [] ts
    | none, o :: outer =>
      if o.opener.opens?.any fun b => t = .closing b then
        nest (.block o.opener o.place current.reverse p :: o.before) outer ts
      else nest (.token t p :: current) (o :: outer) ts

def valuesOf (cs : Source) : List Value :=
  nest [] [] (lex cs)

end ScopedStyles.Css
