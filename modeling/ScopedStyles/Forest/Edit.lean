import ScopedStyles.Forest.Traversal

namespace ScopedStyles.Forest

open Selector

def linkAfter (f : Forest) (parent prev next : Option Nat) : Forest :=
  match prev, parent with
  | some p, _ => f.modify p fun n => { n with next := next }
  | none, some q => f.modify q fun n => { n with firstChild := next }
  | none, none => f

def linkBefore (f : Forest) (parent next prev : Option Nat) : Forest :=
  match next, parent with
  | some s, _ => f.modify s fun n => { n with prev := prev }
  | none, some q => f.modify q fun n => { n with lastChild := prev }
  | none, none => f

def detach (f : Forest) (i : Nat) : Forest :=
  let n := f.get i
  ((f.linkAfter n.parent n.prev n.next).linkBefore n.parent n.next n.prev).modify i fun m =>
    { m with parent := none, prev := none, next := none }

def append (f : Forest) (parent child : Nat) : Forest :=
  let f := f.detach child
  let last := (f.get parent).lastChild
  let f := f.modify child fun n => { n with parent := some parent, prev := last }
  (f.linkAfter (some parent) last (some child)).modify parent fun n =>
    { n with lastChild := some child }

def insertBefore (f : Forest) (reference child : Nat) : Forest :=
  let f := f.detach child
  let n := f.get reference
  let f := f.modify child fun m =>
    { m with parent := n.parent, prev := n.prev, next := some reference }
  (f.modify reference fun m => { m with prev := some child }).linkAfter n.parent n.prev (some child)

def replaceWith (f : Forest) (old replacement : Nat) : Forest :=
  if old = replacement then f else (f.insertBefore old replacement).detach old

/-- Moves the children of `container` to where `old` stands and detaches `old`. The moved nodes are
returned in order. -/
def liftChildren (f : Forest) (old container : Nat) : Forest × List Nat :=
  let moved := f.children container
  ((moved.foldl (fun f child => f.insertBefore old child) f).detach old, moved)

def replaceWithChildren (f : Forest) (old container : Nat) : Forest :=
  (f.liftChildren old container).1

mutual

def plant (f : Forest) (parent : Nat) : Tree → Forest
  | .node l ts =>
    let (f, i) := f.create l
    (f.append parent i).plantAll i ts

def plantAll (f : Forest) (parent : Nat) : List Tree → Forest
  | [] => f
  | t :: ts => (f.plant parent t).plantAll parent ts

end

def ofTree : Tree → Forest
  | .node l ts => (single l).plantAll root ts

end ScopedStyles.Forest
