import ScopedStyles.Css.Piece.Reader
import ScopedStyles.Css.Property
import ScopedStyles.Css.Property.Known

namespace ScopedStyles.Css

inductive Grammar where
  | color
  | weight
  | opacity
  | display
  | size
  | sides
  | animations
  deriving DecidableEq

def grammars : List (String × Grammar) :=
  [("color", .color), ("background-color", .color), ("border-top-color", .color),
    ("border-right-color", .color), ("border-bottom-color", .color), ("border-left-color", .color),
    ("outline-color", .color), ("text-decoration-color", .color), ("font-weight", .weight),
    ("opacity", .opacity), ("display", .display), ("margin-top", .size), ("margin-right", .size),
    ("margin-bottom", .size), ("margin-left", .size), ("padding-top", .size),
    ("padding-right", .size), ("padding-bottom", .size), ("padding-left", .size), ("top", .size),
    ("right", .size), ("bottom", .size), ("left", .size), ("width", .size), ("height", .size),
    ("min-width", .size), ("min-height", .size), ("margin", .sides), ("padding", .sides),
    ("inset", .sides), ("animation-name", .animations), ("-webkit-animation-name", .animations),
    ("-moz-animation-name", .animations), ("-o-animation-name", .animations)]

def readColor? : Value → Option Color
  | .token (.ident name) _ => Color.ofName? name
  | .token (.hash text) _ => Color.ofDigits? text
  | .token (.idHash text) _ => Color.ofDigits? text
  | _ => none

def weightNames : List (String × String) :=
  [("normal", "400"), ("bold", "700"), ("bolder", "bolder"), ("lighter", "lighter")]

def readWeight? : Value → Option Setting
  | .token (.ident name) _ => (weightNames.lookup name.toLower).map .word
  | .token (.number n) _ => some (.number n.negative n.magnitude)
  | _ => none

def readOpacity? : Value → Option Setting
  | .token (.number n) _ => some (.number n.negative n.magnitude)
  | .token (.percentage n) _ => some (.number n.negative n.magnitude)
  | _ => none

def readSize? : Value → Option Size
  | .token (.ident name) _ => if name.toLower = "auto" then some .auto else none
  | .token (.number n) _ => some (.length (n.negative && !isZero n.magnitude) n.magnitude "px")
  | .token (.dimension n unit) _ =>
    if unit.toLower ∈ lengthUnits then
      some (.length (n.negative && !isZero n.magnitude) n.magnitude unit.toLower)
    else none
  | .token (.percentage n) _ => some (.percentage n.negative n.magnitude)
  | _ => none

def spreadSides? : List Size → Option (List Size)
  | [a] => some [a, a, a, a]
  | [a, b] => some [a, b, a, b]
  | [a, b, c] => some [a, b, c, b]
  | [a, b, c, d] => some [a, b, c, d]
  | _ => none

def boxNames : List String :=
  ["none", "contents", "table-row-group", "table-header-group", "table-footer-group", "table-row",
    "table-cell", "table-column-group", "table-column", "table-caption", "ruby-base", "ruby-text",
    "ruby-base-container", "ruby-text-container"]

def outerNames : List String :=
  ["block", "inline", "run-in"]

def innerNames : List String :=
  ["flow", "flow-root", "table", "flex", "-webkit-flex", "-ms-flexbox", "-webkit-box", "-moz-box",
    "grid", "ruby"]

def inlineNames : List (String × String) :=
  [("inline-block", "flow-root"), ("inline-table", "table"), ("inline-flex", "flex"),
    ("-webkit-inline-flex", "-webkit-flex"), ("-ms-inline-flexbox", "-ms-flexbox"),
    ("-webkit-inline-box", "-webkit-box"), ("-moz-inline-box", "-moz-box"), ("inline-grid", "grid")]

/-- The shortest form of a box with an outer and an inner layout, as a list item or not. -/
def boxText (outer inner : String) (item : Bool) : String :=
  match inlineNames.find? fun (_, name) => outer = "inline" ∧ name = inner ∧ !item with
  | some (short, _) => short
  | none =>
    let implied := if inner = "ruby" then "inline" else "block"
    let words :=
      (if outer ≠ implied ∨ (inner = "flow" ∧ !item) then [outer] else []) ++
        (if inner ≠ "flow" then [inner] else []) ++ if item then ["list-item"] else []
    " ".intercalate words

/-- The outer, the inner and the item word among `words`, each at most once but for the last. -/
def splitBox (outer inner : Option String) (item : Bool) :
    List String → Option (Option String × Option String × Bool)
  | [] => some (outer, inner, item)
  | word :: words =>
    if word = "list-item" then splitBox outer inner true words
    else if outer.isNone ∧ word ∈ outerNames then splitBox (some word) inner item words
    else if inner.isNone ∧ word ∈ innerNames then splitBox outer (some word) item words
    else none

def displayText? (words : List String) : Option String :=
  match words with
  | [] => none
  | [word] =>
    if word ∈ boxNames then some word
    else if (inlineNames.lookup word).isSome then some word
    else box words
  | words => box words
where
  box (words : List String) : Option String := do
    let (outer, inner, item) ← splitBox none none false words
    let inner := inner.getD "flow"
    if item ∧ inner ≠ "flow" ∧ inner ≠ "flow-root" then none
    else some (boxText (outer.getD (if inner = "ruby" then "inline" else "block")) inner item)

def word? : Value → Option String
  | .token (.ident name) _ => some name.toLower
  | _ => none

def readAnimation? (c : Cursor) : Option AnimationName :=
  match c.values with
  | [.token (.ident name) _] =>
    if name.toLower = "none" then some .none
    else if isReserved name then none
    else some (.named name)
  | [.token (.string name) _] => some (.quoted name)
  | _ => none

def Grammar.read? (g : Grammar) (vs : List Value) : Option Setting :=
  match g, vs with
  | color, [v] => (readColor? v).map .color
  | weight, [v] => readWeight? v
  | opacity, [v] => readOpacity? v
  | display, vs => do some (.word (← displayText? (← vs.mapM word?)))
  | size, [v] => do some (.sizes [← readSize? v])
  | sides, vs => do some (.sizes (← spreadSides? (← vs.mapM readSize?)))
  | animations, vs => do
    some (.animations (← (⟨vs, []⟩ : Cursor).splitCommas.mapM readAnimation?))
  | _, _ => none

def wideWords : List String :=
  ["initial", "inherit", "unset", "revert", "revert-layer"]

def readWideWord (c : Cursor) : Except Failure Setting :=
  match c.skipTrivia.values with
  | [] => .error ⟨.endOfInput, c.stop⟩
  | v :: rest => do
    match v with
    | .token (.ident name) _ =>
      if wideWords.contains name.toLower then
        (c.moveTo rest).expectEnd
        .ok (.word name.toLower)
      else .error ⟨.unexpected v.head, c.place⟩
    | v => .error ⟨.unexpected v.head, c.place⟩

/-- The value of a property. What sets all properties at once takes a single word. -/
def readSetting (fuel : Nat) (name : String) (c : Cursor) : Except Failure Setting :=
  let understood : Option Setting := do
    (← grammars.lookup name).read? (c.values.filter (!·.isTrivia))
  if name = "all" then readWideWord c
  else
    match understood with
    | some s => .ok s
    | none => (readPieceList fuel 0 c).map .pieces

def readColon (c : Cursor) : Except Failure Cursor :=
  match c.skipTrivia.values with
  | .token .colon _ :: rest => .ok (c.moveTo rest)
  | v :: _ => .error ⟨.unexpected v.head, c.place⟩
  | [] => .error ⟨.endOfInput, c.stop⟩

def isMark (v : Value) : Bool :=
  v.head == .delim '!'

def readImportance (c : Cursor) : Bool × Cursor :=
  match c.skipTrivia.values with
  | mark :: rest =>
    match (c.moveTo rest).skipTrivia.values with
    | .token (.ident word) _ :: rest =>
      if isMark mark ∧ word.toLower = "important" then (true, c.moveTo rest) else (false, c)
    | _ => (false, c)
  | [] => (false, c)

/-- The declaration of a property, from behind its name to the end. Only custom properties take
values with braces outside of brackets. -/
def readDeclaration (fuel : Nat) (name : String) (c : Cursor) : Except Failure Declaration := do
  let c ← readColon c
  let ends (v : Value) : Bool := isMark v || (v.isCurly && !isCustomName name)
  let (value, rest) := c.splitAt ends
  let property := propertyName name
  let setting ← readSetting fuel property value
  let (important, rest) := readImportance rest
  rest.expectEnd
  .ok ⟨property, setting, important⟩

end ScopedStyles.Css
