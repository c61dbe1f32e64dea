import EntityScript.Record.Blank
import EntityScript.Text.NameChar

/-! # Names in a record

A name is a run of name characters. Behind `r#` it may also hold points and signs and
start with any of them. A name never starts where a string or a byte does. -/

namespace EntityScript.Record

open Text (isNameStart isNamePart)

/-- A character of a name behind `r#`. -/
def isRawNamePart (c : Char) : Bool :=
  isNamePart c || c == '.' || c == '+' || c == '-'

def word (cs : List Char) : String := String.ofList (cs.takeWhile isNamePart)

def takeWord? (expected : String) (cs : List Char) : Option (List Char) :=
  if word cs = expected then some (cs.dropWhile isNamePart) else none

/-- The beginnings of strings and bytes that look like the beginning of a name. -/
def literalStarts : List String :=
  ["b\"", "b'", "br#", "br\"", "r\"", "r#\"", "r##"]

def name? (cs : List Char) : Option (String × List Char) :=
  if literalStarts.any (·.toList.isPrefixOf cs) then none
  else
    match cs with
    | 'r' :: '#' :: rest =>
      let part := rest.takeWhile isRawNamePart
      if part.isEmpty then none
      else some (String.ofList part, rest.dropWhile isRawNamePart)
    | c :: _ =>
      if isNameStart c then some (word cs, cs.dropWhile isNamePart) else none
    | [] => none

end EntityScript.Record
