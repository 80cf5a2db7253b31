import ScopedStyles.CommandLine.Arguments
import ScopedStyles.CommandLine.Files
import ScopedStyles.Css.Modules
import ScopedStyles.Scope.Registry.Printer
import ScopedStyles.Scope.Registry.Reader
import ScopedStyles.Scope.Resolver
import ScopedStyles.Style.Engine
import ScopedStyles.Text.Lines

namespace ScopedStyles.CommandLine

open Scope

inductive Fault where
  | unreadable (path : String) (o : Obstacle)
  | unwritable (path : String) (o : Obstacle)
  | invalidRegistry (path : String) (e : JsonText.Error)
  | badLine (path : String) (line : Nat) (e : Selector.Error)
  | badStyle (path : String) (e : Style.Error)

def Fault.message : Fault → String
  | unreadable path o => "cannot read " ++ path ++ ": " ++ o.message
  | unwritable path o => "cannot write " ++ path ++ ": " ++ o.message
  | invalidRegistry path e => "invalid registry " ++ path ++ ": " ++ e.message
  | badLine path line e => path ++ ":" ++ toString line ++ ": " ++ e.message
  | badStyle path e => path ++ ": " ++ e.message

structure Outcome where
  exitCode : UInt8
  output : String
  /-- The messages that are logged as errors. Nothing below the level of a warning is kept. -/
  logged : List String
  errors : String
  files : Files

namespace Outcome

def success (output : String) (files : Files) : Outcome :=
  ⟨0, output, [], "", files⟩

def failure (output : String) (fault : Fault) (files : Files) : Outcome :=
  ⟨1, output, [fault.message], "Error: " ++ fault.message ++ "\n", files⟩

def usage (files : Files) : Outcome :=
  ⟨2, "", [], "", files⟩

/-- The text on standard error, where the logger writes `line message` for a message. The log comes first,
as a message is logged before the run ends with it. -/
def standardError (line : String → String) (o : Outcome) : String :=
  String.join (o.logged.map line) ++ o.errors

end Outcome

def isBlankLine (l : List Char) : Bool :=
  l.all isBlank

/-- The scoped lines up to the first rejected one, and the resolver or the rejected line. Blank
lines are counted and passed over. -/
def resolveLines (r : Resolver) : Nat → List (List Char) →
    List String × Except (Nat × Selector.Error) Resolver
  | _, [] => ([], .ok r)
  | number, l :: ls =>
    if isBlankLine l then resolveLines r (number + 1) ls
    else
      match r.run (String.ofList l) with
      | .error e => ([], .error (number, e))
      | .ok (out, r) =>
        let (outs, result) := resolveLines r (number + 1) ls
        (out :: outs, result)

def printLines (ls : List String) : String :=
  String.join (ls.map (· ++ "\n"))

/-- The registry to begin with. A file that is not there holds an empty one. -/
def loadRegistry (files : Files) : Option String → Except Fault Registry
  | none => .ok ∅
  | some path =>
    if files.exists? path then
      match files.read path with
      | .error o => .error (.unreadable path o)
      | .ok text => (Registry.parse text).mapError (.invalidRegistry path)
    else .ok ∅

def saveRegistry (files : Files) (elements : Registry) : Option String → Except Fault Files
  | none => .ok files
  | some path =>
    (files.write path elements.render).mapError (.unwritable path)

def loadResolve (files : Files) (input : String) (registry : Option String) :
    Except Fault (List (List Char) × Registry) := do
  let text ← (files.read input).mapError (.unreadable input)
  .ok (lines text.toList, ← loadRegistry files registry)

def runResolve (files : Files) (input : String) (config : Config) (registry : Option String) :
    Outcome :=
  match loadResolve files input registry with
  | .error fault => .failure "" fault files
  | .ok (ls, elements) =>
    match resolveLines { Resolver.new config with elements } 1 ls with
    | (outs, .error (number, e)) => .failure (printLines outs) (.badLine input number e) files
    | (outs, .ok r) =>
      match saveRegistry files r.elements registry with
      | .error fault => .failure (printLines outs) fault files
      | .ok files => .success (printLines outs) files

def describeStyle (t : Style.Token) (sink : Style.Sink) : String :=
  let global := sink.toCss
  printLines (t.style.describe :: if global = "" then [] else ["-- global --", global])

def runCompile (files : Files) (input : String) : Outcome :=
  match files.read input with
  | .error o => .failure "" (.unreadable input o) files
  | .ok text =>
    match Style.css Css.compiler .new [text] [] with
    | (.error e, _) => .failure "" (.badStyle input e) files
    | (.ok t, engine) => .success (describeStyle t engine.sink) files

def run (files : Files) (args : List String) : Outcome :=
  match Command.parse? args with
  | none => .usage files
  | some (.resolve input config registry) => runResolve files input config registry
  | some (.compile input) => runCompile files input

end ScopedStyles.CommandLine
