import ScopedStyles.Css.Token
import ScopedStyles.Text.Hex

namespace ScopedStyles.Css

open Decimal

def isNewline (c : Char) : Bool :=
  c == '\n' || c == '\r' || c == '\x0c'

def isSpace (c : Char) : Bool :=
  c == ' ' || c == '\t' || isNewline c

def isNameStart (c : Char) : Bool :=
  c.isAlpha || c == '_' || c == '\x00' || 0x80 ≤ c.toNat

def isNameChar (c : Char) : Bool :=
  isNameStart c || c.isDigit || c == '-'

def replaceNul (c : Char) : Char :=
  if c = '\x00' then '\ufffd' else c

def hexNumber (cs : List Char) : Nat :=
  cs.foldl (fun n c => 16 * n + (hexValue? c).getD 0) 0

def dropOneSpace : List Char → List Char
  | '\r' :: '\n' :: rest => rest
  | c :: rest => if isSpace c then rest else c :: rest
  | [] => []

def takeEscape (cs : List Char) : Char × List Char :=
  let hex := (cs.take 6).takeWhile fun c => (hexValue? c).isSome
  match hex, cs with
  | [], c :: rest => (replaceNul c, rest)
  | [], [] => ('\ufffd', [])
  | _, _ =>
    let n := hexNumber hex
    let c :=
      if n = 0 ∨ 0x10ffff < n ∨ (0xd800 ≤ n ∧ n ≤ 0xdfff) then '\ufffd' else Char.ofNat n
    (c, dropOneSpace (cs.drop hex.length))

def startsEscape (cs : List Char) : Bool :=
  !cs.head?.any isNewline

/-- Whether a name begins here. A hyphen in front of a backslash is one even where the backslash
escapes nothing. -/
def startsName : List Char → Bool
  | '-' :: '-' :: _ => true
  | '-' :: '\\' :: _ => true
  | '-' :: c :: _ => isNameStart c
  | '\\' :: cs => startsEscape cs
  | c :: _ => isNameStart c
  | [] => false

def takeName : Nat → List Char → List Char × List Char
  | fuel + 1, '\\' :: cs =>
    if startsEscape cs then
      let (c, rest) := takeEscape cs
      let (name, rest) := takeName fuel rest
      (c :: name, rest)
    else ([], '\\' :: cs)
  | fuel + 1, c :: cs =>
    if isNameChar c then
      let (name, rest) := takeName fuel cs
      (replaceNul c :: name, rest)
    else ([], c :: cs)
  | _, cs => ([], cs)

def lexName (fuel : Nat) (cs : List Char) : String × List Char :=
  let (name, rest) := takeName fuel cs
  (String.ofList name, rest)

inductive StringEnd where
  | closed
  | broken
  deriving DecidableEq

/-- A string up to its closing quote, the end of the line or the end of the text. A backslash in
front of a line end, or at the end of the text, stands for nothing. -/
def takeString (quote : Char) : Nat → List Char → List Char × StringEnd × List Char
  | fuel + 1, '\\' :: cs =>
    match cs with
    | [] => ([], .closed, [])
    | '\r' :: '\n' :: rest => takeString quote fuel rest
    | c :: rest =>
      if isNewline c then takeString quote fuel rest
      else
        let (c, rest) := takeEscape (c :: rest)
        let (text, ending, rest) := takeString quote fuel rest
        (c :: text, ending, rest)
  | fuel + 1, c :: cs =>
    if c = quote then ([], .closed, cs)
    else if isNewline c then ([], .broken, c :: cs)
    else
      let (text, ending, rest) := takeString quote fuel cs
      (replaceNul c :: text, ending, rest)
  | _, cs => ([], .closed, cs)

def lexString (fuel : Nat) (quote : Char) (cs : List Char) : Token × List Char :=
  match takeString quote fuel cs with
  | (text, .closed, rest) => (.string (String.ofList text), rest)
  | (text, .broken, rest) => (.badString (String.ofList text), rest)

def takeComment : List Char → List Char × List Char
  | '*' :: '/' :: rest => ([], rest)
  | c :: cs =>
    let (text, rest) := takeComment cs
    (c :: text, rest)
  | [] => ([], [])

def startsNumber : List Char → Bool
  | '.' :: c :: _ => c.isDigit
  | s :: '.' :: c :: _ => if s = '+' ∨ s = '-' then c.isDigit else s.isDigit
  | s :: c :: _ => if s = '+' ∨ s = '-' then c.isDigit else s.isDigit
  | c :: [] => c.isDigit
  | [] => false

def takeFraction : List Char → List Char × List Char
  | '.' :: c :: cs =>
    if c.isDigit then ((c :: cs).takeWhile Char.isDigit, (c :: cs).dropWhile Char.isDigit)
    else ([], '.' :: c :: cs)
  | cs => ([], cs)

def takeExponent : List Char → Option Int × List Char
  | [] => (none, [])
  | e :: cs =>
    let (negative, ds) := takeSign cs
    if (e = 'e' ∨ e = 'E') ∧ ds.head?.any Char.isDigit then
      let n : Int := natOfDigits (ds.takeWhile Char.isDigit)
      (some (if negative then -n else n), ds.dropWhile Char.isDigit)
    else (none, e :: cs)

def clamp32 (n : Int) : Int :=
  max (-2147483648) (min 2147483647 n)

def digitMagnitude (c : Char) : Magnitude :=
  Format.double.round ⟨c.toNat - 48, 1⟩

def wholeMagnitude (digits : List Char) : Magnitude :=
  digits.foldl
    (fun m c => Format.double.plus (Format.double.scaleBy ⟨10, 1⟩ m) (digitMagnitude c))
    (.finite 0 0)

def fractionMagnitude (sum place : Magnitude) : List Char → Magnitude
  | [] => sum
  | c :: cs =>
    let double := Format.double
    let tenth := double.ofScientific 1 (-1)
    fractionMagnitude (double.plus sum (double.times (digitMagnitude c) place))
      (double.times place tenth) cs

/-- Numbers are gathered in double precision, in which each step rounds, before they are rounded to
single precision. -/
def decimalMagnitude (whole fraction : List Char) (exponent : Option Int) : Magnitude :=
  let double := Format.double
  let m :=
    double.plus (wholeMagnitude whole)
      (fractionMagnitude (.finite 0 0) (double.ofScientific 1 (-1)) fraction)
  match exponent with
  | some e => double.times m (double.ofScientific 1 e)
  | none => m

/-- A number with its sign, point and power of ten, and the token that it is. Where zero meets a
power out of range the number is undefined and counts as negative. -/
def lexNumber (fuel : Nat) (cs : List Char) : Token × List Char :=
  let signed := cs.head? = some '+' ∨ cs.head? = some '-'
  let (negative, cs) := takeSign cs
  let digits := cs.takeWhile Char.isDigit
  let (fraction, rest) := takeFraction (cs.dropWhile Char.isDigit)
  let (exponent, rest) := takeExponent rest
  let whole : Option Int :=
    if fraction.isEmpty && exponent.isNone then
      let n := natOfDigits digits
      some (clamp32 (if negative then -n else n))
    else none
  let m := decimalMagnitude digits fraction exponent
  let numeral (m : Magnitude) : Numeral :=
    ⟨signed, negative || m == .undefined, Format.single.scaleBy one m, whole⟩
  match rest with
  | '%' :: rest => (.percentage (numeral (Format.double.scaleBy ⟨1, 100⟩ m)), rest)
  | rest =>
    if startsName rest then
      let (unit, rest) := lexName fuel rest
      (.dimension (numeral m) unit, rest)
    else (.number (numeral m), rest)

def breaksUrl (c : Char) : Bool :=
  c == '"' || c == '\'' || c == '(' || c.toNat == 0x7f || c.toNat < 0x20 && c != '\x00'

/-- An address up to its parenthesis or the end of the text, or `none` when it is broken. -/
def takeUrl : Nat → List Char → Option (List Char × List Char)
  | fuel + 1, c :: cs =>
    if c = ')' then some ([], cs)
    else if isSpace c then
      match cs.dropWhile isSpace with
      | [] => some ([], [])
      | ')' :: rest => some ([], rest)
      | _ => none
    else if c = '\\' then
      if startsEscape cs then
        let (c, rest) := takeEscape cs
        (takeUrl fuel rest).map fun (text, rest) => (c :: text, rest)
      else none
    else if breaksUrl c then none
    else (takeUrl fuel cs).map fun (text, rest) => (replaceNul c :: text, rest)
  | _, cs => some ([], cs)

def takeBadUrl : List Char → List Char × List Char
  | [] => ([], [])
  | ')' :: rest => ([], rest)
  | '\\' :: c :: cs =>
    if c = ')' ∨ c = '\\' then
      let (text, rest) := takeBadUrl cs
      ('\\' :: c :: text, rest)
    else
      let (text, rest) := takeBadUrl (c :: cs)
      ('\\' :: text, rest)
  | c :: cs =>
    let (text, rest) := takeBadUrl cs
    (c :: text, rest)
termination_by cs => cs.length

/-- An address without quotes; one with quotes is the argument of a function. -/
def lexUrl (fuel : Nat) (name : String) (cs : List Char) : Token × List Char :=
  let inside := cs.dropWhile isSpace
  if inside.head? = some '"' ∨ inside.head? = some '\'' then (.function name, cs)
  else
    match takeUrl fuel inside with
    | some (text, rest) => (.url (String.ofList text), rest)
    | none =>
      let (text, rest) := takeBadUrl inside
      (.badUrl (String.ofList text), rest)

def lexWord (fuel : Nat) (cs : List Char) : Token × List Char :=
  match lexName fuel cs with
  | (name, '(' :: rest) =>
    if name.toLower = "url" then lexUrl fuel name rest else (.function name, rest)
  | (name, rest) => (.ident name, rest)

def lexHash (fuel : Nat) (cs : List Char) : Token × List Char :=
  let (name, rest) := lexName fuel cs
  if startsName cs then (.idHash name, rest)
  else if cs.head?.any fun c => c.isDigit || c == '-' then (.hash name, rest)
  else (.delim '#', cs)

def fixedTokens : List (String × Token) :=
  [("<!--", .cdo), ("-->", .cdc), ("~=", .includeMatch), ("|=", .dashMatch), ("^=", .prefixMatch),
    ("$=", .suffixMatch), ("*=", .substringMatch), ("(", .opening .round), (")", .closing .round),
    ("[", .opening .square), ("]", .closing .square), ("\x7b", .opening .curly),
    ("\x7d", .closing .curly), (":", .colon), (";", .semicolon), (",", .comma)]

def lexFixed? (cs : List Char) : Option (Token × List Char) :=
  fixedTokens.findSome? fun (spelling, token) =>
    (spelling.toList.isPrefixOf? cs).map fun rest => (token, rest)

def lexToken (fuel : Nat) (c : Char) (cs : List Char) : Token × List Char :=
  if isSpace c then
    (.space (String.ofList ((c :: cs).takeWhile isSpace)), cs.dropWhile isSpace)
  else if c = '/' ∧ cs.head? = some '*' then
    let (text, rest) := takeComment cs.tail
    (.comment (String.ofList text), rest)
  else if c = '"' ∨ c = '\'' then lexString fuel c cs
  else if startsNumber (c :: cs) then lexNumber fuel (c :: cs)
  else
    match lexFixed? (c :: cs) with
    | some found => found
    | none =>
      if startsName (c :: cs) then lexWord fuel (c :: cs)
      else if c = '#' then lexHash fuel cs
      else if c = '@' ∧ startsName cs then
        let (name, rest) := lexName fuel cs
        (.atKeyword name, rest)
      else (.delim c, cs)

def lexFrom : Nat → Source → List Placed
  | fuel + 1, c :: cs =>
    let (token, rest) := lexToken (fuel + 1) c cs
    ⟨token, c :: cs⟩ :: lexFrom fuel rest
  | _, _ => []

def lex (cs : Source) : List Placed :=
  lexFrom cs.length cs

end ScopedStyles.Css
