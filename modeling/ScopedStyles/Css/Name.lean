import ScopedStyles.Text.Hex

namespace ScopedStyles.Css

def hexEscape (c : Char) : List Char :=
  let n := c.toNat
  '\\' :: (if n < 16 then [] else [hexDigit (n / 16)]) ++ [hexDigit (n % 16), ' ']

def nameChar (c : Char) : List Char :=
  if c.isAlphanum ∨ c = '_' ∨ c = '-' ∨ 0x80 ≤ c.toNat then [c]
  else if c = '\x00' then ['\ufffd']
  else if c.toNat < 0x20 ∨ c = '\x7f' then hexEscape c
  else ['\\', c]

def restChars (text : String) : List Char :=
  text.toList.flatMap nameChar

/-- The written form of a name. A digit that would begin it is escaped. -/
def nameChars (name : String) : List Char :=
  match name.toList with
  | ['-'] => ['\\', '-']
  | '-' :: '-' :: cs => '-' :: '-' :: cs.flatMap nameChar
  | '-' :: c :: cs => '-' :: (if c.isDigit then hexEscape c else nameChar c) ++ cs.flatMap nameChar
  | c :: cs => (if c.isDigit then hexEscape c else nameChar c) ++ cs.flatMap nameChar
  | [] => []

def joinedChars : List String → List Char
  | [] => []
  | part :: parts => nameChars part ++ parts.flatMap restChars

def stringChars (text : String) : List Char :=
  '"' :: (text.toList.flatMap fun c =>
    if c = '"' ∨ c = '\\' then ['\\', c]
    else if c = '\x00' then ['\ufffd']
    else if c.toNat < 0x20 ∨ c = '\x7f' then hexEscape c
    else [c]) ++ ['"']

/-- A text without quotes if that is shorter and not empty, and a string otherwise. -/
def shorterChars (text : String) : List Char :=
  let plain := nameChars text
  let string := stringChars text
  let size (cs : List Char) : Nat := (String.ofList cs).utf8ByteSize
  if plain ≠ [] ∧ size plain < size string then plain else string

def plainUrlChars (address : String) : List Char :=
  "url(".toList ++ (address.toList.flatMap fun c =>
    if c.toNat ≤ 0x20 ∨ c = '\x7f' then hexEscape c
    else if c = '(' ∨ c = ')' ∨ c = '"' ∨ c = '\'' ∨ c = '\\' then ['\\', c]
    else [c]) ++ [')']

def urlChars (address : String) : List Char :=
  let plain := plainUrlChars address
  let quoted := "url(".toList ++ stringChars address ++ [')']
  if quoted.length < plain.length then quoted else plain

end ScopedStyles.Css
