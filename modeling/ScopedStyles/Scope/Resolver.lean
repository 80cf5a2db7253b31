import ScopedStyles.Scope.Scoping
import ScopedStyles.Selector.Parser
import ScopedStyles.Selector.Printer

namespace ScopedStyles.Scope

open Selector

structure Resolver extends Memory where
  config : Config

namespace Resolver

def new (c : Config) : Resolver :=
  ⟨.empty, c⟩

def transform (r : Resolver) (f : Forest) : Forest × Resolver :=
  let p := scopeForest r.config r.toMemory f
  (p.forest, { r with toMemory := p.toMemory })

/-- The scoped form of a selector list. A rejected list changes nothing. -/
def run (r : Resolver) (rule : String) : Except Error (String × Resolver) := do
  let t ← parse rule
  let (f, r) := r.transform (.ofTree t)
  .ok ((f.tree Forest.root).render, r)

end Resolver

end ScopedStyles.Scope
