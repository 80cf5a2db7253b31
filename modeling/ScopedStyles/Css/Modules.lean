import ScopedStyles.Css.Anchor
import ScopedStyles.Css.Pattern
import ScopedStyles.Css.Rule.Reader
import ScopedStyles.Style.Compiler

namespace ScopedStyles.Css

open Style

/-- The file in which the source with a cache key is taken to stand. -/
def fileOf (key : String) : String :=
  key ++ ".css"

def Failure.message (f : Failure) (key : String) (source : List Char) : String :=
  let place := locate source f.place
  f.cause.description ++ " at " ++ fileOf key ++ ":" ++ toString place.line ++ ":" ++
    toString place.column

def dropAnchor (key : String) (css : List Char) : List Char :=
  match ('.' :: (anchorClass key).toList).isPrefixOf? css with
  | some ('\x7b' :: rest) => '\x7b' :: rest
  | _ => css

def classNamesOf (t : Template) (names : List String) : ClassNames :=
  .ofList (names.map fun name => (name, t.apply name))

def compileCall (call : Call) : Except String CompiledCss :=
  let source :=
    expandAnchor (":global(." ++ anchorClass call.key ++ ")").toList call.source.toList
  match Pattern.parse ("[local]_" ++ call.key) with
  | .error e => .error e.message
  | .ok pattern =>
    match parseSheet source with
    | .error f => .error (f.message call.key source)
    | .ok sheet =>
      let keyframes := call.options.keyframes
      let template := pattern.template (fileOf call.key) (String.ofList source)
      let naming : Naming := ⟨template.parts, if keyframes then some template.parts else none⟩
      let css := sheet.chars naming
      .ok ⟨String.ofList (if call.options.anchored then css else dropAnchor call.key css),
        classNamesOf template (rulesNames keyframes sheet.rules)⟩

/-- The compiler behind engines that are given no other. It fails with compile errors alone. -/
def compiler : Compiler :=
  .ofFunction fun call => (compileCall call).mapError .compile

end ScopedStyles.Css
