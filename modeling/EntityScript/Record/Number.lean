import EntityScript.Number.Text
import EntityScript.Record.Name
import EntityScript.Record.Quoted

/-! # Numbers in a record

An integer is written in base two, eight, ten or sixteen, and may name its width behind
it, which then has to hold it. A number that is no integer of 64 bits is read as a
decimal fraction, with an exponent or not. Underscores may stand between digits. Two
numbers with `..` or `..=` between them are a range, of which either end may be left out. -/

namespace EntityScript.Record

/-! ## Signs and runs -/

def sign : List Char → Bool × List Char
  | '-' :: rest => (true, rest)
  | '+' :: rest => (false, rest)
  | cs => (false, cs)

def isIntegerPart (c : Char) : Bool := (hexDigit? c).isSome || c == '_'

def isFractionPart (c : Char) : Bool :=
  c.isDigit || ['e', 'E', '.', '+', '-', '_'].contains c

/-- The characters of a fraction ahead. The two points of a range end it. -/
def fractionRun : List Char → List Char
  | '.' :: '.' :: _ => []
  | c :: rest => if isFractionPart c then c :: fractionRun rest else []
  | [] => []

/-! ## Integers -/

structure Width where
  least : Int
  greatest : Int

def Width.signed (bits : Nat) : Width :=
  ⟨-(Number.twoTo (bits - 1) : Int), Number.twoTo (bits - 1) - 1⟩

def Width.unsigned (bits : Nat) : Width := ⟨0, Number.twoTo bits - 1⟩

def widths : List (String × Width) :=
  [("i8", .signed 8), ("i16", .signed 16), ("i32", .signed 32), ("i64", .signed 64),
    ("u8", .unsigned 8), ("u16", .unsigned 16), ("u32", .unsigned 32), ("u64", .unsigned 64)]

def base : List Char → Nat × List Char
  | '0' :: 'b' :: rest => (2, rest)
  | '0' :: 'o' :: rest => (8, rest)
  | '0' :: 'x' :: rest => (16, rest)
  | cs => (10, cs)

/-- The number that digits of a base denote. Underscores among them count for nothing. -/
def digitsValue? (base : Nat) (ds : List Char) : Option Nat :=
  (ds.filter (· != '_')).foldlM
    (fun n d => do
      let digit ← hexDigit? d
      if digit < base then some (base * n + digit) else none)
    0

def skipDigits? (negative : Bool) (width : Width) (cs : List Char) : Option (List Char) := do
  let (base, cs) := base cs
  let ds := cs.takeWhile isIntegerPart
  if ds.isEmpty || ds.head? = some '_' then none
  else
    let n ← digitsValue? base ds
    let value : Int := if negative then -n else n
    if width.least ≤ value ∧ value ≤ width.greatest then some (cs.drop ds.length) else none

/-- Skip an integer. The name of a width counts where it follows the first run of
characters of an integer. -/
def skipInteger? (cs : List Char) : Option (List Char) :=
  let (negative, cs) := sign cs
  let suffix := cs.dropWhile isIntegerPart
  match widths.lookup (word suffix) with
  | some width => do
    let rest ← skipDigits? negative width cs
    takeWord? (word suffix) rest
  | none => skipDigits? negative (if negative then .signed 64 else .unsigned 64) cs

/-! ## Fractions -/

/-- The characters without their underscores. No underscore may stand at the start or
behind the point, whatever signs and underscores are between; `may` says that one may
stand here. -/
def withoutUnderscores? : (may : Bool) → List Char → Option (List Char)
  | _, [] => some []
  | may, c :: rest =>
    if c = '_' then
      if may then withoutUnderscores? may rest else none
    else
      let may := c.isDigit || c == 'e' || c == 'E' || (may && c != '.')
      (withoutUnderscores? may rest).map (c :: ·)

def specials : List String := ["inf", "inff32", "inff64", "NaN", "NaNf32", "NaNf64"]

def skipFraction? (cs : List Char) : Option (List Char) :=
  let (_, unsigned) := sign cs
  if specials.contains (word unsigned) then takeWord? (word unsigned) unsigned
  else do
    let run := fractionRun cs
    let written ← withoutUnderscores? false run
    let _ ← Number.readDecimal? (sign written).2
    let rest := cs.drop run.length
    some (if ["f32", "f64"].contains (word rest) then rest.drop 3 else rest)

/-- Skip a number. It is a fraction if more characters ahead fit a fraction than an
integer, or if they are no integer of 64 bits. -/
def skipNumber? (cs : List Char) : Option (List Char) :=
  let (_, unsigned) := sign cs
  if (unsigned.takeWhile isIntegerPart).length < (fractionRun unsigned).length then
    skipFraction? cs
  else skipInteger? cs <|> skipFraction? cs

/-! ## Ranges -/

def startsNumber : List Char → Bool
  | c :: _ => c.isDigit || ['+', '-', '.'].contains c
  | [] => false

/-- Skip what follows the start of a range: two points and an end, which only `..=`
needs. -/
def skipRangeEnd? (cs : List Char) : Option (List Char) := do
  match cs with
  | '.' :: '.' :: '=' :: rest => skipNumber? (← skip rest)
  | '.' :: '.' :: rest =>
    let ahead ← skip rest
    if startsNumber ahead then skipNumber? ahead else some rest
  | _ => none

def skipNumbers? (cs : List Char) : Option (List Char) :=
  if "..".toList.isPrefixOf cs then skipRangeEnd? cs
  else do
    let rest ← skipNumber? cs
    let ahead ← skip rest
    if "..".toList.isPrefixOf ahead then skipRangeEnd? ahead else some rest

end EntityScript.Record
