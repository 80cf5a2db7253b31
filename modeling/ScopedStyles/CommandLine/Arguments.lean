import ScopedStyles.Scope.Scoping

namespace ScopedStyles.CommandLine

open Scope

inductive Command where
  | resolve (input : String) (config : Config) (registry : Option String)
  | compile (input : String)
  deriving DecidableEq

inductive Flag where
  | scope
  | behaviour
  | registry
  deriving DecidableEq

namespace Flag

def ofName? (name : List Char) : Option Flag :=
  if name = "scope".toList then some scope
  else if name = "behaviour".toList then some behaviour
  else if name = "registry".toList then some registry
  else none

def ofLetter? (c : Char) : Option Flag :=
  if c = 's' then some scope
  else if c = 'b' then some behaviour
  else if c = 'r' then some registry
  else none

end Flag

inductive Word where
  | plain (text : String)
  /-- All later arguments are plain. -/
  | escape
  | flag (f : Flag) (value : Option String)
  | unknown
  deriving DecidableEq

def longFlag (cs : List Char) : Word :=
  match Flag.ofName? (cs.takeWhile (· != '=')) with
  | some f => .flag f ((cs.dropWhile (· != '=')).tail? |>.map String.ofList)
  | none => .unknown

def shortFlag (c : Char) (cs : List Char) : Word :=
  match Flag.ofLetter? c, cs with
  | some f, [] => .flag f none
  | some f, '=' :: value => .flag f (some (String.ofList value))
  | some f, value => .flag f (some (String.ofList value))
  | none, _ => .unknown

def Word.ofArgument (text : String) : Word :=
  match text.toList with
  | ['-', '-'] => .escape
  | '-' :: '-' :: cs => longFlag cs
  | '-' :: c :: cs => shortFlag c cs
  | _ => .plain text

structure Given where
  positional : List String
  flags : List (Flag × String)
  deriving DecidableEq

def Given.addFlag (g : Given) (f : Flag) (value : String) : Option Given :=
  if (g.flags.lookup f).isSome then none else some { g with flags := g.flags ++ [(f, value)] }

def Given.addPlain (g : Given) (text : String) : Given :=
  { g with positional := g.positional ++ [text] }

/-- Sorts arguments. A flag without attached value takes the next argument, which must be plain. -/
def gather : Given → List String → Option Given
  | g, [] => some g
  | g, arg :: args =>
    match Word.ofArgument arg with
    | .plain text => gather (g.addPlain text) args
    | .escape => some (args.foldl Given.addPlain g)
    | .flag f (some value) => (g.addFlag f value).bind fun g => gather g args
    | .flag f none =>
      match args with
      | [] => none
      | value :: args =>
        match Word.ofArgument value with
        | .plain value => (g.addFlag f value).bind fun g => gather g args
        | _ => none
    | .unknown => none

def modeOf? (text : String) : Option Mode :=
  if text = "local" then some .locally
  else if text = "global" then some .globally
  else none

def pathOf? (text : String) : Option String :=
  if text = "" then none else some text

def resolveOf? (g : Given) : Option Command := do
  let [input] := g.positional | none
  let input ← pathOf? input
  let scope ← g.flags.lookup .scope
  let mode ← modeOf? ((g.flags.lookup .behaviour).getD "local")
  match g.flags.lookup .registry with
  | some registry => some (.resolve input ⟨scope, mode⟩ (some (← pathOf? registry)))
  | none => some (.resolve input ⟨scope, mode⟩ none)

def compileOf? (g : Given) : Option Command := do
  let [input] := g.positional | none
  if g.flags.isEmpty then some (.compile (← pathOf? input)) else none

/-- The command that arguments give by the rules that clap documents for a derived parser: a value stands
behind its flag or is attached to it, each flag is given once, and behind `--` nothing is a flag. What asks
for help gives no command. -/
def Command.parse? : List String → Option Command
  | "resolve" :: args => (gather ⟨[], []⟩ args).bind resolveOf?
  | "compile" :: args => (gather ⟨[], []⟩ args).bind compileOf?
  | _ => none

end ScopedStyles.CommandLine
