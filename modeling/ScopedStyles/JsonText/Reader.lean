import ScopedStyles.JsonText.Escape

namespace ScopedStyles.JsonText

inductive Part where
  | value
  | object
  | list
  | string
  deriving DecidableEq

inductive Cause where
  | endOfText (within : Part)
  | expectedValue
  | expectedColon
  | expectedObjectEnd
  | expectedListEnd
  | keyNotText
  | trailingComma
  | trailingCharacters
  | controlCharacter
  | invalidEscape
  | loneSurrogate
  | invalidNumber
  | wrongType (expected : String)
  | wrongLength (length : Nat) (expected : String)
  | missingField (name : String)
  | duplicateField (name : String)
  deriving DecidableEq

def Cause.description : Cause → String
  | endOfText .value => "EOF while parsing a value"
  | endOfText .object => "EOF while parsing an object"
  | endOfText .list => "EOF while parsing a list"
  | endOfText .string => "EOF while parsing a string"
  | expectedValue => "expected value"
  | expectedColon => "expected `:`"
  | expectedObjectEnd => "expected `,` or `\x7d`"
  | expectedListEnd => "expected `,` or `]`"
  | keyNotText => "key must be a string"
  | trailingComma => "trailing comma"
  | trailingCharacters => "trailing characters"
  | controlCharacter => "control character (\\u0000-\\u001F) found while parsing a string"
  | invalidEscape => "invalid escape"
  | loneSurrogate => "lone leading surrogate in hex escape"
  | invalidNumber => "invalid number"
  | wrongType expected => "invalid type, expected " ++ expected
  | wrongLength length expected => "invalid length " ++ toString length ++ ", expected " ++ expected
  | missingField name => "missing field `" ++ name ++ "`"
  | duplicateField name => "duplicate field `" ++ name ++ "`"

structure Failure where
  cause : Cause
  rest : List Char

/-- The failure at the next character, which counts as read. -/
def stop {α : Type} (cause : Cause) (cs : List Char) : Except Failure α :=
  .error ⟨cause, cs.tail⟩

def isSpace (c : Char) : Bool :=
  c == ' ' || c == '\n' || c == '\t' || c == '\r'

def skipSpace (cs : List Char) : List Char :=
  cs.dropWhile isSpace

def takeString : List Char → Except Failure (List Char × List Char)
  | '"' :: rest => .ok ([], rest)
  | '\\' :: 'u' :: a :: b :: c :: d :: rest =>
    match hexValue4? a b c d with
    | some _ => do
      let (raw, rest) ← takeString rest
      .ok ('\\' :: 'u' :: a :: b :: c :: d :: raw, rest)
    | none => .error ⟨.invalidEscape, rest⟩
  | '\\' :: c :: rest =>
    match shortEscape? c with
    | some _ => do
      let (raw, rest) ← takeString rest
      .ok ('\\' :: c :: raw, rest)
    | none => .error ⟨.invalidEscape, rest⟩
  | c :: rest =>
    if c.toNat < 0x20 then .error ⟨.controlCharacter, rest⟩
    else do
      let (raw, rest) ← takeString rest
      .ok (c :: raw, rest)
  | [] => .error ⟨.endOfText .string, []⟩

def decode (raw rest : List Char) : Except Failure String :=
  match unescape? raw with
  | some cs => .ok (String.ofList cs)
  | none => .error ⟨.loneSurrogate, rest⟩

def readText (cs : List Char) : Except Failure (String × List Char) :=
  match skipSpace cs with
  | '"' :: rest => do
    let (raw, rest) ← takeString rest
    .ok (← decode raw rest, rest)
  | [] => stop (.endOfText .value) []
  | cs => stop (.wrongType "a string") cs

section Entries

variable {σ : Type} (entry : σ → List Char → List Char → Except Failure (σ × List Char))

def readEntry (s : σ) (cs : List Char) : Except Failure (σ × List Char) :=
  match cs with
  | '"' :: rest => do
    let (key, rest) ← takeString rest
    match skipSpace rest with
    | ':' :: rest => entry s key rest
    | [] => stop (.endOfText .object) []
    | rest => stop .expectedColon rest
  | [] => stop (.endOfText .value) []
  | '\x7d' :: _ => stop .trailingComma cs
  | _ => stop .keyNotText cs

def readEntries : Nat → σ → List Char → Except Failure (σ × List Char)
  | 0, _, cs => stop (.endOfText .object) cs
  | fuel + 1, s, cs =>
    match skipSpace cs with
    | '\x7d' :: rest => .ok (s, rest)
    | ',' :: rest => do
      let (s, rest) ← readEntry entry s (skipSpace rest)
      readEntries fuel s rest
    | [] => stop (.endOfText .object) []
    | cs => stop .expectedObjectEnd cs

def readObject (s : σ) (cs : List Char) : Except Failure (σ × List Char) :=
  match skipSpace cs with
  | '\x7d' :: rest => .ok (s, rest)
  | [] => stop (.endOfText .object) []
  | cs => do
    let (s, rest) ← readEntry entry s cs
    readEntries entry (rest.length + 1) s rest

end Entries

section Items

variable {σ : Type} (item : σ → List Char → Except Failure (σ × List Char))

def readItems : Nat → σ → List Char → Except Failure (σ × List Char)
  | 0, _, cs => stop (.endOfText .list) cs
  | fuel + 1, s, cs =>
    match skipSpace cs with
    | ']' :: rest => .ok (s, rest)
    | ',' :: rest =>
      match skipSpace rest with
      | ']' :: rest => stop .trailingComma (']' :: rest)
      | rest => do
        let (s, rest) ← item s rest
        readItems fuel s rest
    | [] => stop (.endOfText .list) []
    | cs => stop .expectedListEnd cs

def readArray (s : σ) (cs : List Char) : Except Failure (σ × List Char) :=
  match skipSpace cs with
  | ']' :: rest => .ok (s, rest)
  | [] => stop (.endOfText .list) []
  | cs => do
    let (s, rest) ← item s cs
    readItems item (rest.length + 1) s rest

end Items

def skipDigits (cs : List Char) : Except Failure (List Char) :=
  match cs with
  | c :: rest => if c.isDigit then .ok (rest.dropWhile Char.isDigit) else stop .invalidNumber cs
  | [] => stop .invalidNumber []

def skipWhole (cs : List Char) : Except Failure (List Char) :=
  match cs with
  | '0' :: rest => if rest.head?.any Char.isDigit then stop .invalidNumber rest else .ok rest
  | cs => skipDigits cs

def skipFraction (cs : List Char) : Except Failure (List Char) :=
  match cs with
  | '.' :: rest => skipDigits rest
  | cs => .ok cs

def skipExponent (cs : List Char) : Except Failure (List Char) :=
  match cs with
  | c :: rest =>
    if c = 'e' ∨ c = 'E' then
      match rest with
      | '+' :: rest => skipDigits rest
      | '-' :: rest => skipDigits rest
      | rest => skipDigits rest
    else .ok (c :: rest)
  | [] => .ok []

def skipNumber (cs : List Char) : Except Failure (List Char) := do
  let rest ← skipWhole (match cs with
    | '-' :: rest => rest
    | cs => cs)
  skipExponent (← skipFraction rest)

def skipScalar (cs : List Char) : Except Failure (List Char) :=
  match ["null", "true", "false"].findSome? fun word => word.toList.isPrefixOf? cs with
  | some rest => .ok rest
  | none =>
    if cs.head?.any fun c => c.isDigit || c == '-' then skipNumber cs else stop .expectedValue cs

/-- Passes over a value of any shape nested at most `depth` deep. -/
def skipValue : Nat → List Char → Except Failure (Unit × List Char)
  | 0, cs => stop .expectedValue cs
  | depth + 1, cs =>
    match skipSpace cs with
    | [] => stop (.endOfText .value) []
    | '"' :: rest => do
      let (_, rest) ← takeString rest
      .ok ((), rest)
    | '[' :: rest => readArray (fun _ cs => skipValue depth cs) () rest
    | '\x7b' :: rest => readObject (fun _ _ cs => skipValue depth cs) () rest
    | cs => do .ok ((), ← skipScalar cs)

def endOfValue (cs : List Char) : Except Failure Unit :=
  match skipSpace cs with
  | [] => .ok ()
  | cs => stop .trailingCharacters cs

/-- Lines count from 1; the column counts the bytes read of the line. -/
structure Location where
  line : Nat
  column : Nat
  deriving DecidableEq

/-- Where in `text` its end `rest` begins. -/
def locate (text rest : List Char) : Location :=
  let read := text.take (text.length - rest.length)
  ⟨1 + read.count '\n', (String.ofList (read.reverse.takeWhile (· != '\n'))).utf8ByteSize⟩

structure Error where
  cause : Cause
  location : Location
  deriving DecidableEq

def Error.message (e : Error) : String :=
  e.cause.description ++ " at line " ++ toString e.location.line ++
    " column " ++ toString e.location.column

end ScopedStyles.JsonText
