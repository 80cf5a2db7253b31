import ScopedStyles.Hash
import ScopedStyles.Style.Cache
import ScopedStyles.Style.Compiler
import ScopedStyles.Style.Sink
import ScopedStyles.Text.Alphanumeric

namespace ScopedStyles.Style

/-- What an engine remembers: compiled styles, registered styles and all compile calls. -/
structure Engine where
  cache : Cache
  sink : Sink
  calls : List Call
  deriving DecidableEq

def Engine.new : Engine :=
  ⟨.empty, .empty, []⟩

inductive Slot where
  | css (text : String)
  | var (name : String)
  deriving DecidableEq

def Slot.text : Slot → String
  | css text => text
  | var name => "var(" ++ name ++ ")"

def assemble : List String → List Slot → String
  | [], _ => ""
  | f :: fs, [] => f ++ assemble fs []
  | f :: fs, s :: ss => f ++ s.text ++ assemble fs ss

def isPropertyChar (c : Char) : Bool :=
  isAlphanumeric c || c == '-' || c == '_'

/-- Whether the source begins with a declaration and not with a rule: a name, a colon, and no block
opened in front of the first semicolon. -/
def isDeclarationBlock (source : String) : Bool :=
  let cs := trimStart source.toList
  !(cs.takeWhile isPropertyChar).isEmpty &&
    (trimStart (cs.dropWhile isPropertyChar)).head? == some ':' &&
    !(cs.takeWhile (· != ';')).contains '\x7b'

/-- Declarations are compiled as a block of the anchor. -/
def callOf (key source : String) : Call :=
  if isDeclarationBlock source then
    ⟨"& \x7b" ++ source ++ "\x7d", key, .declarations⟩
  else ⟨source, key, .rules⟩

def bareBlock (key css : String) : String :=
  "&" ++ replaceText (replaceText css ("." ++ anchorClass key) "&") "\x7d\x7b" "\x7d&\x7b"

def startsBlock (css : String) : Bool :=
  css.toList.head? == some '\x7b'

variable (c : Compiler)

/-- Asks the compiler. Rules are registered globally, blocks are kept for their users. -/
def compile (e : Engine) (key source : String) : Except Error CompiledStyle × Engine :=
  let call := callOf key source
  let asked : Engine := { e with calls := e.calls ++ [call] }
  match c e.calls call with
  | .error error => (.error error, asked)
  | .ok out =>
    if startsBlock out.css then (.ok ⟨key, bareBlock key out.css, out.tokens⟩, asked)
    else (.ok ⟨key, out.css, out.tokens⟩, { asked with sink := e.sink.insert key out.css })

def obtain (e : Engine) (key source : String) (vars : Variables) : Except Error Token × Engine :=
  match e.cache.find? key with
  | some (entry, style) => (.ok ⟨entry, style, vars⟩, e)
  | none =>
    match compile c e key source with
    | (.ok style, e) => (.ok ⟨e.cache.size, style, vars⟩, { e with cache := e.cache.push key style })
    | (.error error, e) => (.error error, e)

def declare (e : Engine) (d : Declarations) : Except Error Token × Engine :=
  obtain c e (shortHash (shortHash d.toCss)) d.toCss ∅

structure Parts where
  mixins : String
  vars : Variables
  slots : List Slot
  deriving DecidableEq

namespace Parts

def empty : Parts := ⟨"", ∅, []⟩

def addCss (p : Parts) (text : String) : Parts :=
  { p with slots := p.slots ++ [.css text] }

def addMixin (p : Parts) (t : Token) : Parts :=
  ⟨p.mixins ++ "_" ++ t.hash, p.vars.override t.vars, p.slots ++ [.css t.style.css]⟩

def addValue (p : Parts) (name value : String) : Parts :=
  { p with vars := p.vars.insert name value, slots := p.slots ++ [.var name] }

end Parts

def variableName (hash : String) (position : Nat) : String :=
  "--" ++ hash ++ "_" ++ toString position

def gather (hash : String) (e : Engine) :
    Nat → Parts → List Interpolation → Except Error Parts × Engine
  | _, parts, [] => (.ok parts, e)
  | position, parts, .empty :: rest => gather hash e (position + 1) (parts.addCss "") rest
  | position, parts, .value text :: rest =>
    gather hash e (position + 1) (parts.addValue (variableName hash position) text) rest
  | position, parts, .mixin token :: rest =>
    gather hash e (position + 1) (parts.addMixin token) rest
  | position, parts, .declarations d :: rest =>
    match declare c e d with
    | (.ok token, e) => gather hash e (position + 1) (parts.addMixin token) rest
    | (.error error, e) => (.error error, e)

def templateHash (fragments : List String) : String :=
  shortHash (String.join fragments)

/-- Calls a template. The engine is returned also when the call fails, since mappings may have been
compiled before. -/
def css (e : Engine) (fragments : List String) (interpolations : List Interpolation) :
    Except Error Token × Engine :=
  if fragments.length ≠ interpolations.length + 1 then
    (.error (.templateArity fragments.length interpolations.length), e)
  else
    let hash := templateHash fragments
    match gather c hash e 1 .empty interpolations with
    | (.ok parts, e) =>
      obtain c e (shortHash (hash ++ parts.mixins)) (assemble fragments parts.slots) parts.vars
    | (.error error, e) => (.error error, e)

end ScopedStyles.Style
