namespace ScopedStyles

/-- A character is one unit inside the Basic Multilingual Plane and a surrogate pair beyond it. -/
def unitsOfChar (c : Char) : List UInt16 :=
  if c.toNat < 0x10000 then [c.toNat.toUInt16]
  else
    let n := c.toNat - 0x10000
    [(0xd800 + n / 0x400).toUInt16, (0xdc00 + n % 0x400).toUInt16]

def units (s : String) : List UInt16 :=
  s.toList.flatMap unitsOfChar

theorem units_append (s t : String) : units (s ++ t) = units s ++ units t := by
  simp [units]

end ScopedStyles
