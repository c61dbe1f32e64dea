/-! # Blanks and comments of a record

Records are texts such as `Point(x: 1, y: [2, 3])`. Blanks and comments may stand
between all their parts. Reading is on lists of characters: a reader takes the
characters ahead and gives those behind what it read, or nothing when it refuses. -/

namespace EntityScript.Record

def isSpace (c : Char) : Bool :=
  [' ', '\t', '\n', '\r', '\x0b', '\x0c', '\u0085', '\u200e', '\u200f', '\u2028',
    '\u2029'].contains c

inductive Gap where
  | blank
  | line
  /-- In a block comment that stands in `depth` others. -/
  | block (depth : Nat)
  deriving DecidableEq, Repr

/-- Skip the rest of the blanks and comments. Block comments nest, and one that is not
closed is refused. -/
def skipIn : Gap → List Char → Option (List Char)
  | .block _, [] => none
  | _, [] => some []
  | .blank, '/' :: '/' :: cs => skipIn .line cs
  | .blank, '/' :: '*' :: cs => skipIn (.block 0) cs
  | .blank, c :: cs => if isSpace c then skipIn .blank cs else some (c :: cs)
  | .line, c :: cs => skipIn (if c = '\n' then .blank else .line) cs
  | .block 0, '*' :: '/' :: cs => skipIn .blank cs
  | .block (depth + 1), '*' :: '/' :: cs => skipIn (.block depth) cs
  | .block depth, '/' :: '*' :: cs => skipIn (.block (depth + 1)) cs
  | .block depth, _ :: cs => skipIn (.block depth) cs

def skip (cs : List Char) : Option (List Char) := skipIn .blank cs

def take? (expected : String) (cs : List Char) : Option (List Char) :=
  if expected.toList.isPrefixOf cs then some (cs.drop expected.length) else none

/-- Take a text that must come next, and the blanks and comments on both sides. -/
def expect? (expected : String) (cs : List Char) : Option (List Char) := do
  skip (← take? expected (← skip cs))

end EntityScript.Record
