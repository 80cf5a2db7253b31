import ScopedStyles.Style.Engine

namespace ScopedStyles.Style

structure Pending where
  id : Nat
  args : List String
  deriving DecidableEq

structure Record where
  created : Nat
  entries : List (Option Pending × Option Token)
  /-- The arguments of each built component; none where a pending one was finished. -/
  components : List (Option (List String))
  deriving DecidableEq

namespace Record

def empty : Record := ⟨0, [], []⟩

def register (r : Record) (pending : Option Pending) (token : Option Token) : Record :=
  { r with entries := r.entries ++ [(pending, token)] }

def build (r : Record) (args : Option (List String)) : Record :=
  { r with components := r.components ++ [args] }

end Record

structure Composer where
  engine : Engine
  record : Record
  pending : Option Pending
  deriving DecidableEq

namespace Composer

def new (e : Engine) : Composer :=
  ⟨e, .empty, none⟩

def component (s : Composer) (args : List String) : Composer :=
  let pending : Pending := ⟨s.record.created + 1, args⟩
  { s with
    record := { s.record with created := s.record.created + 1 }.register (some pending) none
    pending := some pending }

/-- Styles the pending component if there is one. A failed call records nothing. -/
def finish (c : Compiler) (s : Composer) (fragments : List String)
    (interpolations : List Interpolation) : Except Error Token × Composer :=
  match css c s.engine fragments interpolations with
  | (.error error, e) => (.error error, { s with engine := e })
  | (.ok token, e) =>
    let record := if s.pending.isSome then s.record.build none else s.record
    (.ok token, { s with engine := e, record := record.register s.pending (some token) })

def style (c : Compiler) (s : Composer) (fragments : List String)
    (interpolations : List Interpolation) : Except Error Token × Composer :=
  finish c { s with pending := none } fragments interpolations

def passthrough (s : Composer) (args : List String) : Composer :=
  { s with record := s.record.build (some args) }

end Composer

end ScopedStyles.Style
