/-! # Lines

A line ends at a line feed, together with a carriage return just before it. The
last line needs no end; a carriage return elsewhere is an ordinary character. -/

namespace EntityScript.Text

/-- The lines of a text, without their ends. -/
def lineChars : List Char → List (List Char)
  | [] => []
  | '\r' :: '\n' :: cs => [] :: lineChars cs
  | '\n' :: cs => [] :: lineChars cs
  | c :: cs =>
    match lineChars cs with
    | [] => [[c]]
    | line :: rest => (c :: line) :: rest

def lines (s : String) : List String :=
  (lineChars s.toList).map String.ofList

end EntityScript.Text
