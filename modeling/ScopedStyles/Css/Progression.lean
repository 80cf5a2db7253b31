import ScopedStyles.Css.Cursor

namespace ScopedStyles.Css

structure Progression where
  step : Int
  start : Int
  deriving DecidableEq

namespace Progression

def signedText (n : Int) : String :=
  if n < 0 then toString n else "+" ++ toString n

def stepText (step : Int) : String :=
  if step = 1 then "n" else if step = -1 then "-n" else toString step ++ "n"

def text (p : Progression) : String :=
  if p.step = 0 then toString p.start
  else if p.start = 0 then stepText p.step
  else if p = ⟨2, 1⟩ then "odd"
  else stepText p.step ++ signedText p.start

def isFirst (p : Progression) : Bool :=
  p.step == 0 && p.start == 1

def dashDigits? (name : String) : Option Int :=
  match name.toList with
  | n :: '-' :: ds =>
    if (n = 'n' ∨ n = 'N') ∧ ds ≠ [] ∧ ds.all Char.isDigit then
      some (clamp32 (-(Decimal.natOfDigits ds : Int)))
    else none
  | _ => none

/-- A number without sign, which is taken `sign` times. -/
def readUnsigned (step sign : Int) (c : Cursor) : Except Failure (Progression × Cursor) :=
  let d := c.skipTrivia
  match d.values with
  | v :: rest =>
    let d := d.moveTo rest
    match v with
    | .token (.number ⟨false, _, _, some n⟩) _ => .ok (⟨step, sign * n⟩, d)
    | v => .error ⟨.unexpected v.head, d.placeBehind v⟩
  | [] => .error ⟨.endOfInput, c.stop⟩

def readStart (step : Int) (c : Cursor) : Except Failure (Progression × Cursor) :=
  match c.skipTrivia.values with
  | .token (.delim '+') _ :: rest => readUnsigned step 1 (c.moveTo rest)
  | .token (.delim '-') _ :: rest => readUnsigned step (-1) (c.moveTo rest)
  | .token (.number ⟨true, _, _, some n⟩) _ :: rest => .ok (⟨step, n⟩, c.moveTo rest)
  | _ => .ok (⟨step, 0⟩, c)

def readName (step : Int) (name : String) (c : Cursor) : Except Failure (Progression × Cursor) :=
  let word := name.toLower
  if word = "n" then readStart step c
  else if word = "n-" then readUnsigned step (-1) c
  else
    match dashDigits? name with
    | some n => .ok (⟨step, n⟩, c)
    | none => .error ⟨.unexpected (.ident name), c.place⟩

/-- A name that begins with a minus sign counts downwards. -/
def readIdent (name : String) (c : Cursor) : Except Failure (Progression × Cursor) :=
  if name.toLower = "even" then .ok (⟨2, 0⟩, c)
  else if name.toLower = "odd" then .ok (⟨2, 1⟩, c)
  else
    match name.toList with
    | '-' :: cs =>
      (readName (-1) (String.ofList cs) c).mapError fun f =>
        if f.cause = .unexpected (.ident (String.ofList cs)) then { f with cause := .unexpected (.ident name) }
        else f
    | _ => readName 1 name c

def read (c : Cursor) : Except Failure (Progression × Cursor) :=
  let c := c.skipTrivia
  match c.values with
  | [] => .error ⟨.endOfInput, c.stop⟩
  | v :: rest =>
    let c := c.moveTo rest
    match v with
    | .token (.number ⟨_, _, _, some n⟩) _ => .ok (⟨0, n⟩, c)
    | .token (.dimension ⟨_, _, _, some step⟩ unit) _ => readName step unit c
    | .token (.ident name) _ => readIdent name c
    | .token (.delim '+') _ =>
      let c := c.skipComments
      match c.values with
      | .token (.ident name) _ :: rest => readName 1 name (c.moveTo rest)
      | v :: rest => .error ⟨.unexpected v.head, (c.moveTo rest).placeBehind v⟩
      | [] => .error ⟨.endOfInput, c.stop⟩
    | v => .error ⟨.unexpected v.head, c.placeBehind v⟩

end Progression

end ScopedStyles.Css
