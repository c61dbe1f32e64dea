import EntityScript.Text.Line

/-! # Positions

A place in a source text as line and column, both counted from one; columns count
characters. -/

namespace EntityScript.Source

structure Position where
  line : Nat
  column : Nat
  deriving DecidableEq, Repr

namespace Position

def start : Position := ⟨1, 1⟩

def after (p : Position) (c : Char) : Position :=
  if c = '\n' then ⟨p.line + 1, 1⟩ else ⟨p.line, p.column + 1⟩

/-- The characters that lie within the first `offset` bytes. -/
def charsBefore : Nat → List Char → List Char
  | _, [] => []
  | offset, c :: cs =>
    if c.utf8Size ≤ offset then c :: charsBefore (offset - c.utf8Size) cs else []

/-- The position of a byte. Beyond the end it is the position of the end. -/
def ofOffset (source : String) (offset : Nat) : Position :=
  (charsBefore offset source.toList).foldl after start

/-- The line of a position with a caret under the column. -/
def context (p : Position) (source : String) : String :=
  let line := (Text.lineChars source.toList)[p.line - 1]?.getD []
  let pad := min (p.column - 1) line.length
  String.ofList (line ++ '\n' :: List.replicate pad ' ' ++ ['^'])

end Position

end EntityScript.Source
