import ScopedStyles.JsonText.Reader
import ScopedStyles.Scope.Registry

namespace ScopedStyles.Scope

open JsonText

def readTextSet (cs : List Char) : Except Failure (TextSet × List Char) :=
  match skipSpace cs with
  | '[' :: rest =>
    readArray (fun (s : TextSet) cs => do
      let (x, rest) ← readText cs
      .ok (s.insert x, rest)) ∅ rest
  | [] => stop (.endOfText .value) []
  | cs => stop (.wrongType "a sequence") cs

def readAttributes (cs : List Char) : Except Failure (Attributes × List Char) :=
  match skipSpace cs with
  | '\x7b' :: rest =>
    readObject (fun (m : Attributes) key cs => do
      let name ← decode key cs
      let (s, rest) ← readTextSet cs
      .ok (m.insert name s, rest)) ∅ rest
  | [] => stop (.endOfText .value) []
  | cs => stop (.wrongType "a map") cs

structure ElementFields where
  mods : Option Attributes
  props : Option Attributes

/-- Reads one field. The two known ones may be given once; others are passed over. -/
def readElementField (e : ElementFields) (key cs : List Char) :
    Except Failure (ElementFields × List Char) := do
  let name ← decode key cs
  if name = "mods" then
    if e.mods.isSome then .error ⟨.duplicateField name, cs⟩
    else
      let (m, rest) ← readAttributes cs
      .ok ({ e with mods := some m }, rest)
  else if name = "props" then
    if e.props.isSome then .error ⟨.duplicateField name, cs⟩
    else
      let (m, rest) ← readAttributes cs
      .ok ({ e with props := some m }, rest)
  else
    let (_, rest) ← skipValue (cs.length + 1) cs
    .ok (e, rest)

def readElement (cs : List Char) : Except Failure (Element × List Char) :=
  match skipSpace cs with
  | '\x7b' :: rest => do
    let (e, rest) ← readObject readElementField ⟨none, none⟩ rest
    match e with
    | ⟨some mods, some props⟩ => .ok (⟨mods, props⟩, rest)
    | ⟨none, _⟩ => .error ⟨.missingField "mods", rest⟩
    | ⟨some _, none⟩ => .error ⟨.missingField "props", rest⟩
  | '[' :: rest => do
    let (parts, rest) ← readArray (fun (parts : List Attributes) cs => do
      let (m, rest) ← readAttributes cs
      .ok (parts ++ [m], rest)) [] rest
    match parts with
    | [mods, props] => .ok (⟨mods, props⟩, rest)
    | _ => .error ⟨.wrongLength parts.length "two attribute maps", rest⟩
  | [] => stop (.endOfText .value) []
  | cs => stop (.wrongType "an element") cs

def readElements (cs : List Char) : Except Failure (Registry × List Char) :=
  match skipSpace cs with
  | '\x7b' :: rest =>
    readObject (fun (r : Registry) key cs => do
      let name ← decode key cs
      let (e, rest) ← readElement cs
      .ok (r.insert name e, rest)) ∅ rest
  | [] => stop (.endOfText .value) []
  | cs => stop (.wrongType "a map") cs

/-- Reads a whole text as a registry by the rules that serde_json documents for a derived structure: both
fields are required and given once, others are passed over, an array may hold them in their order, and of
equal keys in a map the last entry stays. -/
def Registry.parse (text : String) : Except JsonText.Error Registry :=
  let cs := text.toList
  match (do
    let (r, rest) ← readElements cs
    endOfValue rest
    .ok r : Except Failure Registry) with
  | .ok r => .ok r
  | .error f => .error ⟨f.cause, locate cs f.rest⟩

end ScopedStyles.Scope
