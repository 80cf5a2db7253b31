import ScopedStyles.Selector.Parser

namespace ScopedStyles.Selector

/-- Where a walk stands in the text, and the positions it has stood at, latest first. -/
structure Cursor where
  pos : Nat
  passed : List Nat

inductive Halt where
  | failed (e : Error)
  | offBoundary
  | unfinished
  deriving DecidableEq

/-- A walk is given the number of rounds that each of its loops may take. -/
abbrev Walk := ReaderT Nat (ExceptT Halt (StateM Cursor))

def Walk.outcome {α : Type} (x : Walk α) (rounds : Nat) (c : Cursor) : Except Halt α × Cursor :=
  (x rounds).run.run c

/-- The characters from a byte position on, if a character begins there or the text ends. -/
def charsFrom? : List Char → Nat → Option (List Char)
  | cs, 0 => some cs
  | [], _ + 1 => none
  | c :: cs, n + 1 => if c.utf8Size ≤ n + 1 then charsFrom? cs (n + 1 - c.utf8Size) else none

/-- How many bytes stand in front of the first occurrence of a pattern. -/
def offset? (pattern : List Char) : List Char → Option Nat
  | [] => none
  | c :: cs =>
    if pattern.isPrefixOf (c :: cs) then some 0 else (offset? pattern cs).map (c.utf8Size + ·)

namespace Cursor

def start : Cursor :=
  ⟨0, [0]⟩

def moveTo (p : Nat) : Walk Unit :=
  modify fun c => ⟨p, p :: c.passed⟩

def fail {α : Type} (cause : Cause) : Walk α := do
  throw (.failed ⟨cause, (← get).pos⟩)

variable (text : String)

def slice (p : Nat) : Walk (List Char) :=
  match charsFrom? text.toList p with
  | some cs => pure cs
  | none => throw .offBoundary

def between (p q : Nat) : Walk String :=
  match charsFrom? text.toList p, charsFrom? text.toList q with
  | some cs, some ds =>
    if p ≤ q then pure (String.ofList (cs.take (cs.length - ds.length))) else throw .offBoundary
  | _, _ => throw .offBoundary

def peek : Walk (Option Char) := do
  return (← slice text (← get).pos).head?

def peekSecond : Walk (Option Char) := do
  return (← slice text (← get).pos)[1]?

def bump : Walk (Option Char) := do
  match ← peek text with
  | some c =>
    moveTo ((← get).pos + c.utf8Size)
    return some c
  | none => return none

def bumpAll : Nat → Walk Unit
  | 0 => return ()
  | n + 1 => do
    let _ ← bump text
    bumpAll n

def skipAll : Nat → Walk Unit
  | 0 => throw .unfinished
  | rounds + 1 => do
    match ← peek text with
    | some c =>
      if isBlank c then
        let _ ← bump text
        skipAll rounds
      else if c = '/' then
        match ← peekSecond text with
        | some '*' =>
          match offset? ['*', '/'] (← slice text ((← get).pos + 2)) with
          | some n =>
            moveTo ((← get).pos + (2 + n + 2))
            skipAll rounds
          | none => fail .unclosedComment
        | _ => return ()
      else return ()
    | none => return ()

def skipTrivia : Walk Bool := do
  let start := (← get).pos
  skipAll text (← read)
  return (← get).pos != start

def skipName : Nat → Walk Unit
  | 0 => throw .unfinished
  | rounds + 1 => do
    match ← peek text with
    | some c =>
      if c = '\\' then
        let _ ← bump text
        let _ ← bump text
        skipName rounds
      else if isNameChar c then
        let _ ← bump text
        skipName rounds
      else return ()
    | none => return ()

def readRun : Walk String := do
  let start := (← get).pos
  skipName text (← read)
  between text start (← get).pos

def readName (what : Expected) : Walk String := do
  let name ← readRun text
  if name.isEmpty then fail (.expected what) else return name

def skipQuoted (quote : Option Char) : Nat → Walk Bool
  | 0 => throw .unfinished
  | rounds + 1 => do
    match ← bump text with
    | some c =>
      if c = '\\' then
        let _ ← bump text
        skipQuoted quote rounds
      else if some c = quote then return true
      else skipQuoted quote rounds
    | none => return false

def readString : Walk String := do
  let start := (← get).pos
  let quote ← bump text
  if ← skipQuoted text quote (← read) then between text start (← get).pos
  else throw (.failed ⟨.unclosedString, start⟩)

def atBar : Walk Bool := do
  match ← peek text with
  | some '|' =>
    let second ← peekSecond text
    return second != some '=' && second != some '|'
  | _ => return false

def readElement (ns : Namespace) : Walk Tree := do
  match ← peek text with
  | some '*' =>
    let _ ← bump text
    return .node ⟨.universal, "*", some ns⟩ []
  | _ =>
    let name ← readName text .elementName
    return .node ⟨.tag, name, some ns⟩ []

def readPlainName : Walk (Option Namespace × String) := do
  let first ← readName text .attributeName
  if ← atBar text then
    let _ ← bump text
    let name ← readName text .attributeName
    return (some (.named first), name)
  else return (none, first)

def readAttributeName : Walk (Option Namespace × String) := do
  match ← peek text, ← peekSecond text with
  | some '*', some '|' =>
    let _ ← bump text
    let _ ← bump text
    let name ← readName text .attributeName
    return (some (.named "*"), name)
  | some '|', some '=' => readPlainName text
  | some '|', _ =>
    let _ ← bump text
    let name ← readName text .attributeName
    return (none, name)
  | _, _ => readPlainName text

def operator? : Walk (Option String) := do
  match ← peek text, ← peekSecond text with
  | some '=', _ => return some "="
  | some '~', some '=' => return some "~="
  | some '|', some '=' => return some "|="
  | some '^', some '=' => return some "^="
  | some '$', some '=' => return some "$="
  | some '*', some '=' => return some "*="
  | _, _ => return none

def readValue : Walk String := do
  match ← peek text with
  | some c =>
    if isQuote c then readString text
    else if isNameChar c then readRun text
    else fail (.expected .attributeValue)
  | none => fail (.expected .attributeValue)

def readFlag : Walk (Option String) := do
  match ← peek text with
  | some c =>
    if isNameChar c then
      let flag ← readRun text
      let _ ← skipTrivia text
      return some flag
    else return none
  | none => return none

/-- An operator is moved over byte by byte, as its characters have one each. -/
def readMatch : Walk Match := do
  match ← operator? text with
  | some operator =>
    bumpAll text operator.utf8ByteSize
    let _ ← skipTrivia text
    let value ← readValue text
    let _ ← skipTrivia text
    let flag ← readFlag text
    return ⟨some operator, some value, flag⟩
  | none => return .presence

def readAttribute : Walk Tree := do
  let _ ← bump text
  let _ ← skipTrivia text
  let (ns, name) ← readAttributeName text
  let _ ← skipTrivia text
  let criterion ← readMatch text
  match ← bump text with
  | some ']' => return .node ⟨.attribute criterion, name, ns⟩ []
  | some c => fail (.unexpectedInAttribute c)
  | none => fail .unclosedBracket

def readPseudoName : Walk String := do
  let _ ← bump text
  match ← peek text with
  | some ':' =>
    let _ ← bump text
    let name ← readName text .pseudoName
    return "::" ++ name
  | _ =>
    let name ← readName text .pseudoName
    return ":" ++ name

def readLeaf (kind : Kind) (what : Expected) : Walk Tree := do
  let _ ← bump text
  let name ← readName text what
  return .leaf kind name

def readMark (kind : Kind) (value : String) : Walk Tree := do
  let _ ← bump text
  return .leaf kind value

def readUniversal : Walk Tree := do
  let _ ← bump text
  if ← atBar text then
    let _ ← bump text
    readElement text (.named "*")
  else return .leaf .universal "*"

def readTag : Walk Tree := do
  let name ← readRun text
  if ← atBar text then
    let _ ← bump text
    readElement text (.named name)
  else return .leaf .tag name

def closeArguments (name : String) (selectors : List Tree) : Walk Tree := do
  match ← bump text with
  | some ')' => return .functional name selectors
  | _ => fail .unclosedParenthesis

section Arguments

-- `list` reads the selectors of an argument list.

variable (list : Walk (List Tree))

def readArguments : Walk (List Tree) := do
  match ← peek text with
  | some ')' => return []
  | _ => list

def readPseudo : Walk Tree := do
  let name ← readPseudoName text
  match ← peek text with
  | some '(' =>
    let _ ← bump text
    let _ ← skipTrivia text
    closeArguments text name (← readArguments text list)
  | _ => return .leaf (.pseudo false) name

def readNode (c : Char) : Walk Tree := do
  if isRelation c || c == '|' then readMark text .combinator c.toString
  else if c = '.' then readLeaf text .className .className
  else if c = '#' then readLeaf text .idName .idName
  else if c = '[' then readAttribute text
  else if c = ':' then readPseudo text list
  else if c = '&' then readMark text .nesting "&"
  else if isQuote c then return .leaf .string (← readString text)
  else if c = '*' then readUniversal text
  else if isNameChar c then readTag text
  else fail (.unexpected c)

def readSelector : Nat → Frame → Walk Frame
  | 0, _ => throw .unfinished
  | rounds + 1, f => do
    let spaced ← skipTrivia text
    match ← peek text with
    | some c =>
      if c = ',' ∨ c = ')' then return f
      else
        let t ← readNode text list c
        readSelector rounds ((f.separate spaced c).push t)
    | none => return f

end Arguments

/-- What follows a selector ends the list, or separates the next selector, from which `next` goes on. -/
def readEnd (next : Frame → Walk (List Tree)) (nested : Bool) (f : Frame) : Walk (List Tree) := do
  if f.nodes.isEmpty then fail .emptySelector
  else
    match ← peek text with
    | some c =>
      if c = ',' then
        let _ ← bump text
        next f.next
      else if c = ')' ∧ nested then return f.close
      else fail (.unexpected c)
    | none => if nested then fail .unclosedParenthesis else return f.close

/-- Reads selectors up to the end of the text, or within a pseudo up to its closing parenthesis. A round
is spent on each selector, and on each list around it. -/
def readList : Nat → Bool → Frame → Walk (List Tree)
  | 0, _, _ => throw .unfinished
  | rounds + 1, nested, f => do
    let f ← readSelector text (readList rounds true .empty) (← read) f
    readEnd text (readList rounds nested) nested f

def readAll : Walk Tree := do
  let selectors ← readList text (← read) false .empty
  match ← peek text with
  | some c => fail (.unexpected c)
  | none => return .root selectors

end Cursor

end ScopedStyles.Selector
