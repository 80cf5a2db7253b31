import ScopedStyles.Text.Quoted
import ScopedStyles.Text.SipHash

namespace ScopedStyles.Css

inductive Segment where
  | localName
  | literal (text : String)
  | fileName
  | fileHash
  | sourceHash
  deriving DecidableEq

def placeholders : List (String × Segment) :=
  [("[local]", .localName), ("[name]", .fileName), ("[hash]", .fileHash),
    ("[content-hash]", .sourceHash)]

abbrev Pattern := List Segment

/-- Positions count bytes of the pattern. -/
inductive PatternError where
  | unclosedBrackets (position : Nat)
  | unknownPlaceholder (placeholder : String) (position : Nat)
  deriving DecidableEq

def PatternError.message : PatternError → String
  | unclosedBrackets position =>
    "invalid class pattern: UnclosedBrackets(" ++ toString position ++ ")"
  | unknownPlaceholder placeholder position =>
    "invalid class pattern: UnknownPlaceholder(" ++ quotedText placeholder ++ ", " ++
      toString position ++ ")"

namespace Pattern

def parseFrom : Nat → Nat → List Char → Except PatternError Pattern
  | fuel + 1, position, '[' :: cs =>
    let placeholder := String.ofList ('[' :: cs.takeWhile (· != ']') ++ [']'])
    match cs.dropWhile (· != ']') with
    | [] => .error (.unclosedBrackets position)
    | _ :: rest =>
      match placeholders.lookup placeholder with
      | some segment => do
        .ok (segment :: (← parseFrom fuel (position + placeholder.utf8ByteSize) rest))
      | none => .error (.unknownPlaceholder placeholder position)
  | fuel + 1, position, c :: cs => do
    let text := String.ofList ((c :: cs).takeWhile (· != '['))
    let rest := (c :: cs).dropWhile (· != '[')
    .ok (.literal text :: (← parseFrom fuel (position + text.utf8ByteSize) rest))
  | _, _, _ => .ok []

def parse (text : String) : Except PatternError Pattern :=
  parseFrom text.length 0 text.toList

end Pattern

/-- The last part of a path without its ending, in which points become hyphens. -/
def stemOf (path : String) : String :=
  let name := ((path.splitOn "/").getLast?.getD "").toList
  let ending := name.reverse.takeWhile (· != '.')
  let stem := name.take (name.length - ending.length - 1)
  String.ofList ((if stem = [] then name else stem).map fun c => if c = '.' then '-' else c)

/-- How local names are made unique: the parts of a name, in which `none` stands for the local one. -/
abbrev Template := List (Option String)

def Pattern.template (p : Pattern) (file source : String) : Template :=
  p.map fun
    | .localName => none
    | .literal text => some text
    | .fileName => some (stemOf file)
    | .fileHash => some (SipHash.shortText file)
    | .sourceHash => some (SipHash.shortText source)

def Template.parts (t : Template) (name : String) : List String :=
  t.map fun part => part.getD name

def Template.apply (t : Template) (name : String) : String :=
  String.join (t.parts name)

end ScopedStyles.Css
