import ScopedStyles.Style.Token

namespace ScopedStyles.Style

structure Cache where
  entries : List (String × CompiledStyle)
  deriving DecidableEq

namespace Cache

def empty : Cache := ⟨[]⟩

/-- The first entry under `key`, with its place when places are counted from `i`. -/
def findFrom (key : String) : Nat → List (String × CompiledStyle) → Option (Nat × CompiledStyle)
  | _, [] => none
  | i, (k, style) :: rest => if k = key then some (i, style) else findFrom key (i + 1) rest

def find? (c : Cache) (key : String) : Option (Nat × CompiledStyle) :=
  findFrom key 0 c.entries

def get? (c : Cache) (key : String) : Option CompiledStyle :=
  (c.find? key).map (·.2)

def contains (c : Cache) (key : String) : Bool :=
  (c.find? key).isSome

def size (c : Cache) : Nat :=
  c.entries.length

def keys (c : Cache) : List String :=
  c.entries.map (·.1)

def push (c : Cache) (key : String) (style : CompiledStyle) : Cache :=
  ⟨c.entries ++ [(key, style)]⟩

end Cache

end ScopedStyles.Style
