import ScopedStyles.Text.Base36
import ScopedStyles.Text.Units

namespace ScopedStyles

def hashSeed : UInt32 := 5381

def hashStep (unit : UInt16) (word : UInt32) : UInt32 :=
  word * 33 ^^^ unit.toUInt32

/-- The last unit enters first. -/
def hashUnits (us : List UInt16) : UInt32 :=
  us.foldr hashStep hashSeed

def textHash (s : String) : UInt32 :=
  hashUnits (units s)

/-- The hash as a base-36 numeral: the form used in class and variable names. -/
def shortHash (s : String) : String :=
  Base36.encode (textHash s).toNat

theorem textHash_append (s t : String) :
    textHash (s ++ t) = (units s).foldr hashStep (textHash t) := by
  simp [textHash, hashUnits, units_append]

end ScopedStyles
