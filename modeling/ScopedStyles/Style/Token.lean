import ScopedStyles.OrderedMap

namespace ScopedStyles.Style

abbrev ClassNames := OrderedMap String

abbrev Variables := OrderedMap String

structure CompiledStyle where
  hash : String
  css : String
  tokens : ClassNames
  deriving DecidableEq

def CompiledStyle.describe (s : CompiledStyle) : String :=
  "Hash: " ++ s.hash ++ "\n" ++
    String.join (s.tokens.entries.map fun e => "  ." ++ e.1 ++ " -> ." ++ e.2 ++ "\n") ++ s.css

/-- The result of a call. `entry` is the place of its style in the cache. -/
structure Token where
  entry : Nat
  style : CompiledStyle
  vars : Variables
  deriving DecidableEq

namespace Token

def hash (t : Token) : String :=
  t.style.hash

def className? (t : Token) (name : String) : Option String :=
  t.style.tokens.get? name

def shares (t u : Token) : Bool :=
  t.entry == u.entry

end Token

abbrev Declarations := List (String × String)

def Declarations.toCss (d : Declarations) : String :=
  String.join (d.map fun e => e.1 ++ ":" ++ e.2 ++ ";")

inductive Interpolation where
  | empty
  | mixin (token : Token)
  | declarations (d : Declarations)
  | value (text : String)
  deriving DecidableEq

/-- The empty text interpolates nothing. -/
def Interpolation.ofText (s : String) : Interpolation :=
  if s = "" then empty else value s

/-- Why a call has no token. A compiler may fail with any of these. -/
inductive Error where
  | compile (text : String)
  | templateArity (fragments interpolations : Nat)
  | selector (detail : String) (position : Nat)
  deriving DecidableEq

def Error.message : Error → String
  | compile text => "css compile error: " ++ text
  | templateArity fragments interpolations =>
    "template has " ++ toString fragments ++ " fragments but " ++ toString interpolations ++
      " interpolations"
  | selector detail position => "invalid selector at byte " ++ toString position ++ ": " ++ detail

end ScopedStyles.Style
