namespace ScopedStyles

/-- A line ends in a line feed, with which one carriage return in front of it is dropped. A line feed at the
end of the text begins no other line. -/
def lines : List Char → List (List Char)
  | [] => []
  | '\n' :: cs => [] :: lines cs
  | '\r' :: '\n' :: cs => [] :: lines cs
  | c :: cs =>
    match lines cs with
    | [] => [[c]]
    | l :: ls => (c :: l) :: ls

end ScopedStyles
