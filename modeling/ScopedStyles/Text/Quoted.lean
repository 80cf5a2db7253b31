import ScopedStyles.Text.Hidden

namespace ScopedStyles

def escapeIn (quote : Char) (c : Char) : String :=
  if c = quote ∨ c = '\\' then "\\" ++ c.toString
  else if c = '\x00' then "\\0"
  else if c = '\t' then "\\t"
  else if c = '\n' then "\\n"
  else if c = '\r' then "\\r"
  else if isHidden c then
    "\\u\x7b" ++ String.ofList (Nat.toDigits 16 c.toNat) ++ "\x7d"
  else c.toString

def quotedText (s : String) : String :=
  "\"" ++ String.join (s.toList.map (escapeIn '"')) ++ "\""

def quotedChar (c : Char) : String :=
  "'" ++ escapeIn '\'' c ++ "'"

end ScopedStyles
