namespace ScopedStyles.Style

structure Sink where
  entries : List (String × String)
  deriving DecidableEq

namespace Sink

def empty : Sink := ⟨[]⟩

def get? (s : Sink) (key : String) : Option String :=
  s.entries.lookup key

/-- A key that is known keeps its css. -/
def insert (s : Sink) (key css : String) : Sink :=
  if (s.get? key).isSome then s else ⟨s.entries ++ [(key, css)]⟩

def toCss (s : Sink) : String :=
  "\n".intercalate ((s.entries.map (·.2)).filter (· != ""))

end Sink

end ScopedStyles.Style
