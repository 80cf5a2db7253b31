import ScopedStyles.Forest.Basic

namespace ScopedStyles.Forest

open Selector

def siblingsFrom (f : Forest) : Nat → Option Nat → List Nat
  | fuel + 1, some i => i :: f.siblingsFrom fuel (f.get i).next
  | _, _ => []

def children (f : Forest) (i : Nat) : List Nat :=
  f.siblingsFrom f.size (f.get i).firstChild

def preorder (f : Forest) : Nat → List Nat → List Nat
  | fuel + 1, i :: pending => i :: f.preorder fuel (f.children i ++ pending)
  | _, _ => []

def descendants (f : Forest) (i : Nat) : List Nat :=
  f.preorder f.size (f.children i)

def climbsToRoot (f : Forest) : Nat → Nat → Bool
  | fuel, i =>
    if i = root then true
    else
      match fuel, (f.get i).parent with
      | fuel + 1, some p => f.climbsToRoot fuel p
      | _, _ => false

def isAttached (f : Forest) (i : Nat) : Bool :=
  f.climbsToRoot f.size i

/-- The attached nodes that satisfy `p`, in document order. -/
def collectNodes (f : Forest) (p : Node → Bool) : List Nat :=
  (f.descendants root).filter fun i => p (f.get i)

def collect (f : Forest) (p : Label → Bool) : List Nat :=
  f.collectNodes fun n => p n.label

theorem collect_eq_filter (f : Forest) (p : Label → Bool) :
    f.collect p = (f.descendants root).filter fun i => p (f.label i) := rfl

/-- The tree at `i`, `depth` levels below it included. -/
def treeTo (f : Forest) : Nat → Nat → Tree
  | 0, i => .node (f.label i) []
  | depth + 1, i => .node (f.label i) ((f.children i).map (f.treeTo depth))

def tree (f : Forest) (i : Nat) : Tree :=
  f.treeTo f.size i

end ScopedStyles.Forest
