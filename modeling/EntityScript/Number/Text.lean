import EntityScript.Number.Shortest

/-! # Numbers as text

A number is written with the fewest digits that read back, always positionally:
no exponent, no point on an integral value, `-0` for the negative zero. Reading
also takes an exponent and the names of the special values. -/

namespace EntityScript.Number

/-! ## Writing -/

def Decimal.text (d : Decimal) : String :=
  let ds := Nat.toDigits 10 d.digits
  if 0 ≤ d.exponent then
    String.ofList (ds ++ List.replicate d.exponent.toNat '0')
  else
    let places := (-d.exponent).toNat
    if places < ds.length then
      String.ofList (ds.take (ds.length - places) ++ '.' :: ds.drop (ds.length - places))
    else
      String.ofList ('0' :: '.' :: List.replicate (places - ds.length) '0' ++ ds)

def magnitudeText (f : Fraction) : String :=
  if f.significand = 0 then "0" else (shortest f.significand f.exponent).text

def text (x : Float) : String :=
  match shape x with
  | .nan => "NaN"
  | .infinite negative => if negative then "-inf" else "inf"
  | .finite f => (if f.negative then "-" else "") ++ magnitudeText f

/-! ## Reading -/

def digitsValue (acc : Nat) (ds : List Char) : Nat :=
  ds.foldl (fun n c => 10 * n + (c.toNat - '0'.toNat)) acc

/-- The double nearest to `digits · 10 ^ exponent`. A decimal whose order is far
outside the range of a double is settled without computing the power of ten. -/
def ofDecimal (d : Decimal) : Float :=
  let order := d.exponent + decimalLength d.digits
  if d.digits = 0 then 0.0
  else if 400 < order then Float.ofBits 0x7ff0000000000000
  else if order < -400 then 0.0
  else Float.ofScientific d.digits (d.exponent < 0) d.exponent.natAbs

/-- An optional exponent at the end of a number: `e`, an optional sign, digits. -/
def readExponent? : List Char → Option Int
  | [] => some 0
  | c :: rest =>
    if c = 'e' ∨ c = 'E' then
      let (negative, ds) := match rest with
        | '-' :: ds => (true, ds)
        | '+' :: ds => (false, ds)
        | ds => (false, ds)
      if ds.isEmpty || !ds.all Char.isDigit then none
      else
        let n : Int := digitsValue 0 ds
        some (if negative then -n else n)
    else none

/-- Digits with an optional point among or beside them, then an optional exponent. -/
def readDecimal? (cs : List Char) : Option Decimal :=
  let whole := cs.takeWhile Char.isDigit
  let rest := cs.dropWhile Char.isDigit
  let (places, rest) := match rest with
    | '.' :: rest => (rest.takeWhile Char.isDigit, rest.dropWhile Char.isDigit)
    | rest => ([], rest)
  if whole.isEmpty && places.isEmpty then none
  else
    (readExponent? rest).map fun e =>
      ⟨digitsValue (digitsValue 0 whole) places, e - places.length⟩

def readMagnitude? (cs : List Char) : Option Float :=
  match String.ofList (cs.map Char.toLower) with
  | "nan" => some nan
  | "inf" => some (Float.ofBits 0x7ff0000000000000)
  | "infinity" => some (Float.ofBits 0x7ff0000000000000)
  | _ => (readDecimal? cs).map ofDecimal

/-- The number that a text denotes, if it denotes one. Blanks are not skipped. -/
def read? (s : String) : Option Float :=
  match s.toList with
  | '-' :: cs => (readMagnitude? cs).map Float.neg
  | '+' :: cs => readMagnitude? cs
  | cs => readMagnitude? cs

end EntityScript.Number
