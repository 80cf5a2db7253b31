import ScopedStyles.Forest.Edit
import ScopedStyles.Scope.Registry
import ScopedStyles.Selector.Reader

namespace ScopedStyles.Scope

open Selector

inductive Mode where
  | locally
  | globally
  deriving DecidableEq

namespace Mode

def ofText (s : String) : Mode :=
  if s = "global" then globally else locally

def escape : Mode → String
  | locally => ":global"
  | globally => ":local"

def scopesEscaped : Mode → Bool
  | locally => false
  | globally => true

end Mode

structure Config where
  scope : String
  mode : Mode
  deriving DecidableEq

/-- What stays from one selector list to the next. -/
structure Memory where
  elements : Registry
  hashes : TextSet
  lifted : List (Nat × Bool)

namespace Memory

def empty : Memory := ⟨∅, ∅, []⟩

/-- Numbers of nodes mean nothing in the next forest, so only the registry is kept for it. -/
def refresh (m : Memory) : Memory :=
  { m with hashes := ∅, lifted := [] }

end Memory

structure Pass extends Memory where
  forest : Forest

def isOpaquePseudo (name : String) : Bool :=
  name == ":dir" || ":nth-".toList.isPrefixOf name.toList

/-- The selector that holds the node, and the pseudo that directly holds that selector. -/
def holder? (f : Forest) (i : Nat) : Option (Nat × Nat) := do
  let selector ← (f.get i).parent
  let pseudo ← (f.get selector).parent
  if (f.label pseudo).isPseudo then some (selector, pseudo) else none

def scopesNamespace (c : Config) (ns : Option Namespace) : Bool :=
  match c.mode, ns with
  | .globally, _ => false
  | .locally, some (.named name) => name == "" || name == c.scope
  | .locally, _ => true

/-- Puts the content of the argument `selector` where `pseudo` stands and keeps `decision` for each
lifted node. A pseudo with several argument selectors stays. -/
def Pass.lift (p : Pass) (pseudo selector : Nat) (decision : Bool) : Pass :=
  if (p.forest.children pseudo).length = 1 then
    { p with
      forest := p.forest.replaceWithChildren pseudo selector
      lifted := (p.forest.children selector).reverse.map (·, decision) ++ p.lifted }
  else p

def Pass.decide (c : Config) (p : Pass) (i : Nat) : Bool × Pass :=
  match p.lifted.lookup i with
  | some decision => (decision, p)
  | none =>
    match holder? p.forest i with
    | some (selector, pseudo) =>
      let name := (p.forest.label pseudo).value
      if name = c.mode.escape then
        (c.mode.scopesEscaped, p.lift pseudo selector c.mode.scopesEscaped)
      else if isOpaquePseudo name then (false, p)
      else (scopesNamespace c (p.forest.label i).ns, p)
    | none => (scopesNamespace c (p.forest.label i).ns, p)

def scopedName (c : Config) (ns : Option Namespace) (name : String) : String :=
  if ns.any (·.isSet) then c.scope ++ "--" ++ name else name

def stripQuotes (value : String) : String :=
  let cs := value.toList
  let cs := if cs.head?.any isQuote then cs.tail else cs
  String.ofList (if cs.getLast?.any isQuote then cs.dropLast else cs)

/-- The value of the nearest tag or id from `current` backwards, with no combinator in between. -/
def ownerFrom (f : Forest) : Nat → Option Nat → Option String
  | fuel + 1, some i =>
    let l := f.label i
    if l.kind = .tag ∨ l.kind = .idName then some l.value
    else if l.isCombinator then none
    else ownerFrom f fuel (f.get i).prev
  | _, _ => none

def owner (f : Forest) (i : Nat) : String :=
  (ownerFrom f f.size (f.get i).prev).getD Registry.commonElement

def rawValue (l : Label) : String :=
  match l.kind with
  | .attribute m => m.value.getD ""
  | _ => ""

def attributeHash (l : Label) : String :=
  (l.ns.map Namespace.hashFragment).getD "" ++ l.value ++ rawValue l

def attributeKind (l : Label) : AttributeKind :=
  if l.ns.any (·.isSet) then .mod else .prop

/-- The classes of an attribute: one for its name and, unless the value is empty, one for both. -/
def attributeClass (c : Config) (l : Label) : String :=
  let name := "_" ++ scopedName c l.ns l.value
  let value := stripQuotes (rawValue l)
  if value = "" then name else name ++ "." ++ name ++ "_" ++ value

def attributeSighting (c : Config) (owner : String) (l : Label) : Sighting :=
  .attribute owner (attributeKind l) (scopedName c l.ns l.value) (stripQuotes (rawValue l))

def replaceByClass (f : Forest) (i : Nat) (name : String) : Forest :=
  let (f, replacement) := f.create ⟨.className, name, none⟩
  f.replaceWith i replacement

def Pass.scopeAttribute (c : Config) (p : Pass) (i : Nat) : Pass :=
  if p.forest.isAttached i then
    match p.decide c i with
    | (false, p) => p
    | (true, p) =>
      let l := p.forest.label i
      { p with
        forest := replaceByClass p.forest i (attributeClass c l)
        elements := p.elements.record (attributeSighting c (owner p.forest i) l)
        hashes := p.hashes.insert (attributeHash l) }
  else p

/-- A bare bar in front of a tag becomes the mark of the tag. -/
def absorbBar (f : Forest) (i : Nat) : Forest :=
  match (f.get i).prev with
  | some b =>
    if (f.label b).isCombinator ∧ (f.label b).value = "|" then
      (f.setValue b "").setNamespace i (some .bar)
    else f
  | none => f

def Pass.scopeTag (c : Config) (p : Pass) (i : Nat) : Pass :=
  if p.forest.isAttached i then
    match Pass.decide c { p with forest := absorbBar p.forest i } i with
    | (false, p) => p
    | (true, p) =>
      let l := p.forest.label i
      let name := scopedName c l.ns l.value
      { p with
        forest := replaceByClass p.forest i ("__" ++ name)
        elements := p.elements.record (.element name) }
  else p

def unwrap (f : Forest) (pseudo : Nat) : Forest :=
  if f.isAttached pseudo then
    match f.children pseudo with
    | [selector] => f.replaceWithChildren pseudo selector
    | _ => f
  else f

def isEscape (c : Config) (l : Label) : Bool :=
  l.isPseudo && l.value == c.mode.escape

def Pass.scopeAttributes (c : Config) (p : Pass) : Pass :=
  (p.forest.collect Label.isAttribute).foldl (Pass.scopeAttribute c) p

def Pass.scopeTags (c : Config) (p : Pass) : Pass :=
  (p.forest.collect Label.isTag).foldl (Pass.scopeTag c) p

def unwrapEscapes (c : Config) (f : Forest) : Forest :=
  (f.collect (isEscape c)).foldl unwrap f

def scopeForest (c : Config) (m : Memory) (f : Forest) : Pass :=
  let p := (Pass.scopeAttributes c ⟨m.refresh, f⟩).scopeTags c
  { p with forest := unwrapEscapes c p.forest }

end ScopedStyles.Scope
