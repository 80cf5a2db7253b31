import ScopedStyles.Css.Cursor
import ScopedStyles.Css.Selector

namespace ScopedStyles.Css

inductive NameStart where
  | name (name : String)
  | star
  | bar (q : Qualifier)

def readNameStart? (c : Cursor) : Option (NameStart × Cursor) :=
  let bar? (c : Cursor) : Option Cursor :=
    match c.skipComments.values with
    | .token (.delim '|') _ :: rest => some (c.moveTo rest)
    | _ => none
  match c.skipComments.values with
  | .token (.ident name) _ :: rest =>
    match bar? (c.moveTo rest) with
    | some c => some (.bar (.named name), c)
    | none => some (.name name, c.moveTo rest)
  | .token (.delim '*') _ :: rest =>
    match bar? (c.moveTo rest) with
    | some c => some (.bar .any, c)
    | none => some (.star, c.moveTo rest)
  | .token (.delim '|') _ :: rest => some (.bar .empty, c.moveTo rest)
  | _ => none

/-- An element or the universal selector. A bar at the end names nothing. -/
def readType (c : Cursor) : Except Failure (Option Part × Cursor) :=
  match readNameStart? c with
  | none => .ok (none, c)
  | some (.name name, c) => .ok (some (.element name), c)
  | some (.star, c) => .ok (some .universal, c)
  | some (.bar q, c) =>
    match c.skipComments.values with
    | .token (.ident name) _ :: rest => .ok (some (.qualified q (some name)), c.moveTo rest)
    | .token (.delim '*') _ :: rest => .ok (some (.qualified q none), c.moveTo rest)
    | v :: _ => .error ⟨.namespaceNeedsName v.head, c.place⟩
    | [] => .ok (none, c.moveTo [])

/-- A bar without a namespace in front of an attribute says nothing. -/
def Qualifier.forAttribute? : Qualifier → Option Qualifier
  | empty => none
  | q => some q

def readAttributeName (c : Cursor) : Except Failure (Option Qualifier × String × Cursor) :=
  let c := c.skipTrivia
  match readNameStart? c with
  | some (.name name, c) => .ok (none, name, c)
  | some (.bar q, c) =>
    match c.skipComments.values with
    | .token (.ident name) _ :: rest => .ok (q.forAttribute?, name, c.moveTo rest)
    | v :: _ => .error ⟨.attributeBadName v.head, c.place⟩
    | [] => .error ⟨.endOfInput, c.stop⟩
  | some (.star, c) =>
    match c.skipComments.values with
    | v :: _ => .error ⟨.attributeNeedsBar v.head, c.place⟩
    | [] => .error ⟨.endOfInput, c.stop⟩
  | none =>
    match c.values with
    | v :: _ => .error ⟨.attributeNeedsName v.head, c.place⟩
    | [] => .error ⟨.endOfInput, c.stop⟩

def operator? : Token → Option String
  | .delim '=' => some "="
  | .includeMatch => some "~="
  | .dashMatch => some "|="
  | .prefixMatch => some "^="
  | .suffixMatch => some "$="
  | .substringMatch => some "*="
  | _ => none

def readFlag (c : Cursor) : Except Failure (Option Char × Cursor) :=
  match c.skipTrivia.values with
  | [] => .ok (none, c)
  | v :: rest =>
    match v with
    | .token (.ident "i") _ | .token (.ident "I") _ => .ok (some 'i', c.moveTo rest)
    | .token (.ident "s") _ | .token (.ident "S") _ => .ok (some 's', c.moveTo rest)
    | v => .error ⟨.unexpected v.head, c.place⟩

def readAttribute (c : Cursor) : Except Failure Part := do
  let (q, name, c) ← readAttributeName c
  match c.skipTrivia.values with
  | [] => .ok (.attribute q name none)
  | v :: rest =>
    match operator? v.head with
    | none => .error ⟨.attributeUnexpected v.head, c.place⟩
    | some operator =>
      let c := c.moveTo rest
      let behind (value : String) (rest : List Value) : Except Failure Part := do
        let (flag, c) ← readFlag (c.moveTo rest)
        c.expectEnd
        .ok (.attribute q name (some ⟨operator, value, flag⟩))
      match c.skipTrivia.values with
      | .token (.ident value) _ :: rest => behind value rest
      | .token (.string value) _ :: rest => behind value rest
      | v :: _ => .error ⟨.attributeBadValue v.head, c.place⟩
      | [] => .error ⟨.endOfInput, c.stop⟩

end ScopedStyles.Css
