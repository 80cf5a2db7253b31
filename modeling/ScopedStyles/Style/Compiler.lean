import ScopedStyles.Style.Token
import ScopedStyles.Text.Blank
import ScopedStyles.Text.Replace

namespace ScopedStyles.Style

structure Options where
  keyframes : Bool
  anchored : Bool
  deriving DecidableEq

namespace Options

def rules : Options := ⟨true, true⟩

def declarations : Options := ⟨false, false⟩

end Options

structure Call where
  source : String
  key : String
  options : Options
  deriving DecidableEq

structure CompiledCss where
  css : String
  tokens : ClassNames
  deriving DecidableEq

/-- Answers a call after the given earlier calls, failed ones included. -/
abbrev Compiler := List Call → Call → Except Error CompiledCss

def anchorClass (key : String) : String :=
  "___" ++ key

namespace Compiler

def ofFunction (f : Call → Except Error CompiledCss) : Compiler :=
  fun _ call => f call

def failingAt (c : Compiler) (count : Nat) (text : String) : Compiler :=
  fun earlier call => if earlier.length = count then .error (.compile text) else c earlier call

def echo : Compiler :=
  ofFunction fun call => .ok ⟨call.source, ∅⟩

/-- Scopes the class `button` in anchored sources; in others takes the ampersands off the front. -/
def counting : Compiler :=
  ofFunction fun call =>
    if call.options.anchored then
      let generated := "button_" ++ call.key
      .ok ⟨replaceText call.source ".button" ("." ++ generated),
        if occursIn ".button".toList call.source.toList then .ofList [("button", generated)] else ∅⟩
    else
      .ok ⟨String.ofList (trimStart (call.source.toList.dropWhile (· == '&'))), ∅⟩

inductive Reply where
  | fail (text : String)
  | css (css : String) (tokens : ClassNames)

def fill (call : Call) (s : String) : String :=
  let s := replaceText s "\x7bkey\x7d" call.key
  let s := replaceText s "\x7banchor\x7d" (anchorClass call.key)
  replaceText s "\x7bsource\x7d" call.source

/-- Gives one reply per call and the last one ever after; echoes when there are none. -/
def scripted (replies : List Reply) : Compiler :=
  fun earlier call =>
    match replies[earlier.length]?.or replies.getLast? with
    | some (.fail text) => .error (.compile text)
    | some (.css css tokens) =>
      .ok ⟨fill call css, .ofList (tokens.entries.map fun e => (e.1, fill call e.2))⟩
    | none => echo earlier call

end Compiler

end ScopedStyles.Style
