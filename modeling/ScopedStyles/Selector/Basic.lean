namespace ScopedStyles.Selector

inductive Namespace where
  | named (name : String)
  /-- The mark of a tag that stood behind a bare `|` combinator. -/
  | bar
  deriving DecidableEq

namespace Namespace

def isSet : Namespace → Bool
  | named name => name != ""
  | bar => true

def hashFragment : Namespace → String
  | named name => name
  | bar => "true"

end Namespace

/-- The matching part of an attribute selector. The value keeps its quotes. -/
structure Match where
  operator : Option String
  value : Option String
  flag : Option String
  deriving DecidableEq, Inhabited

def Match.presence : Match := ⟨none, none, none⟩

inductive Kind where
  | root
  | selector
  | tag
  | className
  | idName
  | attribute (criterion : Match)
  /-- `arguments` tells whether it was written with parentheses. -/
  | pseudo (arguments : Bool)
  | combinator
  | universal
  | nesting
  | string
  deriving DecidableEq

structure Label where
  kind : Kind
  value : String
  ns : Option Namespace
  deriving DecidableEq

namespace Label

instance : Inhabited Label := ⟨⟨.root, "", none⟩⟩

def isTag (l : Label) : Bool :=
  l.kind == .tag

def isAttribute (l : Label) : Bool :=
  match l.kind with
  | .attribute _ => true
  | _ => false

def isPseudo (l : Label) : Bool :=
  match l.kind with
  | .pseudo _ => true
  | _ => false

def isCombinator (l : Label) : Bool :=
  l.kind == .combinator

end Label

inductive Tree where
  | node (label : Label) (children : List Tree)

namespace Tree

instance : Inhabited Tree := ⟨node default []⟩

def label : Tree → Label
  | node l _ => l

def children : Tree → List Tree
  | node _ ts => ts

def leaf (kind : Kind) (value : String) : Tree :=
  node ⟨kind, value, none⟩ []

def selector (nodes : List Tree) : Tree :=
  node ⟨.selector, "", none⟩ nodes

def functional (name : String) (selectors : List Tree) : Tree :=
  node ⟨.pseudo true, name, none⟩ selectors

def root (selectors : List Tree) : Tree :=
  node ⟨.root, "", none⟩ selectors

end Tree

end ScopedStyles.Selector
