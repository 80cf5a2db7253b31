import ScopedStyles.OrderedMap

namespace ScopedStyles.Scope

/-- A *mod* is an attribute of the scope's namespace, a *prop* one without namespace. -/
inductive AttributeKind where
  | mod
  | prop
  deriving DecidableEq

abbrev Attributes := OrderedMap TextSet

structure Element where
  mods : Attributes
  props : Attributes
  deriving DecidableEq

namespace Element

def empty : Element := ⟨∅, ∅⟩

def record (e : Element) (kind : AttributeKind) (name value : String) : Element :=
  let add (attributes : Attributes) : Attributes :=
    attributes.alter name fun values => (values.getD ∅).insert value
  match kind with
  | .mod => { e with mods := add e.mods }
  | .prop => { e with props := add e.props }

end Element

/-- What resolving a selector tells about the elements of a stylesheet. -/
inductive Sighting where
  | element (name : String)
  | attribute (owner : String) (kind : AttributeKind) (name value : String)
  deriving DecidableEq

abbrev Registry := OrderedMap Element

namespace Registry

def commonElement : String := "__common__"

/-- An element that is not known yet is added first. -/
def record (r : Registry) : Sighting → Registry
  | .element name => r.alter name fun e => e.getD .empty
  | .attribute owner kind name value =>
    r.alter owner fun e => (e.getD .empty).record kind name value

def recordAll (r : Registry) (sightings : List Sighting) : Registry :=
  sightings.foldl record r

theorem recordAll_append (r : Registry) (xs ys : List Sighting) :
    r.recordAll (xs ++ ys) = (r.recordAll xs).recordAll ys :=
  List.foldl_append

end Registry

end ScopedStyles.Scope
