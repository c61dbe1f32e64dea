/-! # Doubles as exact binary fractions

A finite double is `± significand · 2 ^ exponent` with a natural significand.
Rounding to an integer and the remainder of a division are exact on that form,
so both are computed there instead of in floating point. -/

namespace EntityScript.Number

/-- A finite double: `± significand · 2 ^ exponent`. -/
structure Fraction where
  negative : Bool
  significand : Nat
  exponent : Int
  deriving Repr, DecidableEq

inductive Shape where
  | nan
  | infinite (negative : Bool)
  | finite (fraction : Fraction)
  deriving Repr, DecidableEq

def twoTo (n : Nat) : Nat := Nat.pow 2 n

def leastExponent : Int := -1074

/-- Read the three bit fields. A zero exponent field has no hidden leading bit. -/
def Shape.ofBits (bits : Nat) : Shape :=
  let negative := bits / twoTo 63 % 2 == 1
  let field : Nat := bits / twoTo 52 % twoTo 11
  let trailing := bits % twoTo 52
  if field = 2047 then
    if trailing = 0 then .infinite negative else .nan
  else if field = 0 then
    .finite ⟨negative, trailing, leastExponent⟩
  else
    .finite ⟨negative, trailing + twoTo 52, (field : Int) - 1075⟩

def shape (x : Float) : Shape :=
  .ofBits x.toBits.toNat

def isFinite (x : Float) : Bool :=
  match shape x with
  | .finite _ => true
  | _ => false

def nan : Float := Float.ofBits 0x7ff8000000000000

/-- The double `± significand · 2 ^ exponent`, for a significand below `2 ^ 53`
and an exponent that a double can carry. The significand is shifted up as far as
the smallest exponent allows, which leaves either a leading bit or a subnormal. -/
def ofFraction (f : Fraction) : Float :=
  let sign := if f.negative then twoTo 63 else 0
  if f.significand = 0 then
    Float.ofBits (UInt64.ofNat sign)
  else
    let shift := min (52 - f.significand.log2) (f.exponent - leastExponent).toNat
    let significand := f.significand * twoTo shift
    if significand < twoTo 52 then
      Float.ofBits (UInt64.ofNat (sign + significand))
    else
      let field := (f.exponent - shift - leastExponent + 1).toNat
      Float.ofBits (UInt64.ofNat (sign + field * twoTo 52 + (significand - twoTo 52)))

/-! ## Rounding to an integer -/

/-- The integer nearest to `num / den`; a half goes to the even neighbour. -/
def halfEven (num den : Nat) : Nat :=
  let q := num / den
  let r := num % den
  if 2 * r < den then q
  else if den < 2 * r then q + 1
  else if q % 2 = 0 then q else q + 1

def Fraction.round (f : Fraction) : Int :=
  let magnitude : Nat :=
    if 0 ≤ f.exponent then f.significand * twoTo f.exponent.toNat
    else halfEven f.significand (twoTo (-f.exponent).toNat)
  if f.negative then -magnitude else magnitude

def maxIndex : Int := 9223372036854775807

def minIndex : Int := -9223372036854775808

def saturate (n : Int) : Int :=
  max minIndex (min n maxIndex)

/-- The signed 64-bit integer nearest to `x`; a half goes to the even neighbour,
what is out of range goes to the end of the range, and a NaN is zero. -/
def toIndex (x : Float) : Int :=
  match shape x with
  | .nan => 0
  | .infinite negative => if negative then minIndex else maxIndex
  | .finite f => saturate f.round

/-! ## Remainder -/

/-- What is left of `x` after as many whole `y` as fit in it, with the sign of `x`.
Brought to one exponent, the significands leave the remainder of two naturals. It is
no larger than `x` and smaller than `y`, so it is a double again and nothing is
rounded. -/
def remainder (x y : Float) : Float :=
  match shape x, shape y with
  | .finite a, .finite b =>
    if b.significand = 0 then nan
    else
      let exponent := min a.exponent b.exponent
      let num := a.significand * twoTo (a.exponent - exponent).toNat
      let den := b.significand * twoTo (b.exponent - exponent).toNat
      ofFraction ⟨a.negative, num % den, exponent⟩
  | .finite _, .infinite _ => x
  | _, _ => nan

end EntityScript.Number
