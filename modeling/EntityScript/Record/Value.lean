import EntityScript.Record.Feature
import EntityScript.Record.Number

/-! # Values in a record

A value is a truth value, a number, a string, a character, an optional value, a list, a
map, a tuple or a structure. Here values are only skipped: what the text holds is not
kept, but it has to be well formed and nest no deeper than `maxDepth`.

A bracket uses up two levels, one for itself and one for each thing in it, and an
optional value uses up one. So the readers of the levels below are handed down as a
list, the next level first; a level that is not in the list refuses. -/

namespace EntityScript.Record

abbrev Skip := List Char → Option (List Char)

/-- The reader `n` levels further down. -/
def level (below : List Skip) (n : Nat) : Skip := below.getD n fun _ => none

/-! ## Things between brackets -/

/-- Skip items up to a closing mark, with commas between them and possibly one behind
the last. -/
def skipItems? (item : Skip) (close : Char) : (fuel : Nat) → Skip
  | 0, _ => none
  | fuel + 1, cs => do
    let cs ← skip cs
    if cs.head? = some close then some cs
    else
      match ← skip (← item cs) with
      | ',' :: rest => skipItems? item close fuel rest
      | rest => if rest.head? = some close then some rest else none

def skipClosed? (item : Skip) (close : Char) (cs : List Char) : Option (List Char) :=
  (skipItems? item close (cs.length + 1) cs).map (List.drop 1)

def skipPair? (key value : Skip) (cs : List Char) : Option (List Char) := do
  value (← expect? ":" (← key cs))

def skipName? (cs : List Char) : Option (List Char) := (name? cs).map Prod.snd

def startsField (cs : List Char) : Bool :=
  ((name? cs).bind fun (_, rest) => skip rest).bind List.head? = some ':'

/-- The reader of the parts of a tuple or structure that starts here. When the first
part has a name, all have. -/
def part (value : Skip) (cs : List Char) : Skip :=
  if ((skip cs).map startsField).getD false then skipPair? skipName? value else value

def skipParts? (value : Skip) (cs : List Char) : Option (List Char) :=
  skipClosed? (part value cs) ')' cs

/-! ## Optional values -/

def skipLiteral (cs : List Char) : List Char :=
  let behind := match cs with
    | '\'' :: rest => skipChar? rest
    | 'b' :: rest => skipBytes? rest
    | _ => (string? cs).map Prod.snd
  behind.getD cs

/-- Whether a comma and something more come before the bracket that closes the parts
ahead, inside of which `depth` further brackets are open. -/
def severalAhead : (fuel depth : Nat) → List Char → Bool
  | 0, _, _ => false
  | fuel + 1, depth, cs =>
    match (skip cs).map skipLiteral with
    | some (c :: rest) =>
      if ['(', '[', '\x7b'].contains c then severalAhead fuel (depth + 1) rest
      else if [')', ']', '\x7d'].contains c then
        match depth with
        | 0 => false
        | depth + 1 => severalAhead fuel depth rest
      else if c = ',' ∧ depth = 0 then (skip rest).bind List.head? != some ')'
      else severalAhead fuel depth rest
    | _ => false

/-- Skip one value, possibly with a comma, and the closing parenthesis. -/
def skipSole? (value : Skip) (cs : List Char) : Option (List Char) := do
  match ← skip (← value cs) with
  | ')' :: rest => some rest
  | ',' :: rest => take? ")" (← skip rest)
  | _ => none

/-- Skip what an optional value holds, behind its opening parenthesis, where that may
be parts without parentheses of their own. -/
def skipUnwrapped? (below : List Skip) (cs : List Char) : Option (List Char) :=
  if cs.head? = some ')' then some (cs.drop 1)
  else if startsField cs || severalAhead cs.length 0 cs then
    if below.length < 2 then none else skipParts? (level below 2) cs
  else skipSole? (level below 0) cs

def skipSome? (enabled : List Feature) (below : List Skip) (cs : List Char) :
    Option (List Char) := do
  match ← skip cs with
  | '(' :: rest =>
    let inside ← skip rest
    if enabled.contains .unwrapVariantNewtypes then skipUnwrapped? below inside
    else skipSole? (level below 0) inside
  | rest => if enabled.contains .implicitSome then level below 0 rest else none

/-! ## Values -/

def skipBody? (below : List Skip) (cs : List Char) : Option (List Char) := do
  match ← skip cs with
  | '(' :: rest => if below.isEmpty then none else skipParts? (level below 1) rest
  | _ => some cs

def skipMarked? (below : List Skip) (cs : List Char) : Option (List Char) :=
  match cs with
  | '(' :: ')' :: rest => some rest
  | '(' :: _ => skipBody? below cs
  | '[' :: rest => if below.isEmpty then none else skipClosed? (level below 1) ']' rest
  | '\x7b' :: rest =>
    if below.isEmpty then none
    else skipClosed? (skipPair? (level below 1) (level below 1)) '\x7d' rest
  | '\'' :: rest => skipChar? rest
  | 'b' :: '\'' :: rest => skipByte? rest
  | 'b' :: rest => skipBytes? rest
  | '"' :: _ => (string? cs).map Prod.snd
  | 'r' :: _ => (string? cs).map Prod.snd
  | _ => if startsNumber cs then skipNumbers? cs else none

def valueWords : List String := ["true", "false", "None"] ++ specials

def skipValue? (enabled : List Feature) (below : List Skip) (cs : List Char) :
    Option (List Char) :=
  if valueWords.contains (word cs) then takeWord? (word cs) cs
  else if word cs = "Some" then
    if below.isEmpty then none else skipSome? enabled below (cs.drop 4)
  else
    match name? cs with
    | some (_, rest) => skipBody? below rest
    | none => skipMarked? below cs

def levels (enabled : List Feature) : Nat → List Skip
  | 0 => []
  | n + 1 => skipValue? enabled (levels enabled n) :: levels enabled n

def maxDepth : Nat := 128

end EntityScript.Record
