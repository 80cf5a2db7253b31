import ScopedStyles.JsonText.Escape
import ScopedStyles.Scope.Registry

namespace ScopedStyles.Scope

open JsonText

def newline (depth : Nat) : List Char :=
  '\n' :: List.replicate (2 * depth) ' '

def laterItems (depth : Nat) : List (List Char) → List Char
  | [] => []
  | item :: items => ',' :: newline depth ++ item ++ laterItems depth items

/-- A bracketed list at the given depth. The empty one has nothing between its brackets. -/
def bracketed (opening closing : Char) (depth : Nat) : List (List Char) → List Char
  | [] => [opening, closing]
  | item :: items =>
    opening :: newline (depth + 1) ++ item ++ laterItems (depth + 1) items ++
      newline depth ++ [closing]

def textChars (s : String) : List Char :=
  '"' :: escape s.toList ++ ['"']

def entryChars (key : String) (value : List Char) : List Char :=
  textChars key ++ ':' :: ' ' :: value

def objectChars (depth : Nat) (entries : List (String × List Char)) : List Char :=
  bracketed '\x7b' '\x7d' depth (entries.map fun e => entryChars e.1 e.2)

def textSetChars (depth : Nat) (s : TextSet) : List Char :=
  bracketed '[' ']' depth (s.toList.map textChars)

def attributesChars (depth : Nat) (m : Attributes) : List Char :=
  objectChars depth (m.entries.map fun e => (e.1, textSetChars (depth + 1) e.2))

def elementChars (depth : Nat) (e : Element) : List Char :=
  objectChars depth
    [("mods", attributesChars (depth + 1) e.mods), ("props", attributesChars (depth + 1) e.props)]

/-- Writes a registry as serde_json documents its pretty printer: two spaces a level, one entry a line in
the order of the map, empty maps and sets as `{}` and `[]`. -/
def Registry.render (r : Registry) : String :=
  String.ofList (objectChars 0 (r.entries.map fun e => (e.1, elementChars 1 e.2)))

end ScopedStyles.Scope
