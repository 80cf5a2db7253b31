import ScopedStyles.Selector.Basic

namespace ScopedStyles

open Selector

structure Node where
  label : Label
  parent : Option Nat
  prev : Option Nat
  next : Option Nat
  firstChild : Option Nat
  lastChild : Option Nat
  deriving DecidableEq, Inhabited

def Node.alone (label : Label) : Node :=
  ⟨label, none, none, none, none, none⟩

/-- All nodes ever made, detached ones included. A node is named by its number, the root by 0. -/
structure Forest where
  nodes : Array Node

namespace Forest

def root : Nat := 0

def single (label : Label) : Forest :=
  ⟨#[Node.alone label]⟩

def empty : Forest :=
  single default

instance : Inhabited Forest := ⟨empty⟩

def size (f : Forest) : Nat :=
  f.nodes.size

def get (f : Forest) (i : Nat) : Node :=
  f.nodes.getD i default

def label (f : Forest) (i : Nat) : Label :=
  (f.get i).label

def modify (f : Forest) (i : Nat) (change : Node → Node) : Forest :=
  ⟨f.nodes.modify i change⟩

/-- Adds a node without links; its number is the former size. -/
def create (f : Forest) (label : Label) : Forest × Nat :=
  (⟨f.nodes.push (Node.alone label)⟩, f.size)

def setValue (f : Forest) (i : Nat) (value : String) : Forest :=
  f.modify i fun n => { n with label := { n.label with value := value } }

def setNamespace (f : Forest) (i : Nat) (ns : Option Namespace) : Forest :=
  f.modify i fun n => { n with label := { n.label with ns := ns } }

@[simp]
theorem size_modify (f : Forest) (i : Nat) (change : Node → Node) :
    (f.modify i change).size = f.size := by
  simp [size, modify]

theorem get_modify (f : Forest) (i j : Nat) (change : Node → Node) (h : i < f.size) :
    (f.modify i change).get j = if i = j then change (f.get i) else f.get j := by
  have hi : i < f.nodes.size := h
  simp only [get, modify, Array.getD_eq_getD_getElem?, Array.getElem?_modify]
  split
  · next hij => subst hij; simp [hi]
  · rfl

theorem get_create (f : Forest) (l : Label) (i : Nat) :
    (f.create l).1.get i = if i = f.size then Node.alone l else f.get i := by
  simp only [get, create, size, Array.getD_eq_getD_getElem?, Array.getElem?_push]
  split <;> rfl

end Forest

end ScopedStyles
