import EntityScript.Number.Shape

/-! # Shortest decimals

A decimal reads back as a given double when it lies in the interval of reals that
round to that double. `shortest` takes the coarsest decimal grid that has a point
in the interval and, of two such points, the one nearer to the double. -/

namespace EntityScript.Number

structure Decimal where
  digits : Nat
  exponent : Int
  deriving Repr, DecidableEq

def tenTo (n : Nat) : Nat := Nat.pow 10 n

/-- The reals that round to one double, over a common denominator. -/
structure Interval where
  low : Nat
  mid : Nat
  high : Nat
  den : Nat
  /-- Both ends round to the double, because a tie goes to an even significand. -/
  closed : Bool

/-- The interval of `significand · 2 ^ exponent`, in quarters of its last place.
Just above a power of two the next double below is twice as near. -/
def Interval.of (significand : Nat) (exponent : Int) : Interval :=
  let below := if significand = twoTo 52 ∧ leastExponent < exponent then 1 else 2
  let scale := twoTo (exponent - 2).toNat
  { low := (4 * significand - below) * scale
    mid := 4 * significand * scale
    high := (4 * significand + 2) * scale
    den := twoTo (2 - exponent).toNat
    closed := significand % 2 == 0 }

def decimalLength (n : Nat) : Nat :=
  (Nat.toDigits 10 n).length

/-- The least `k` from `start` on with `den ≤ num · 10 ^ k`, found within `fuel` steps. -/
def scaleUp (num den : Nat) : Nat → Nat → Nat
  | 0, start => start
  | fuel + 1, start => if den ≤ num * tenTo start then start else scaleUp num den fuel (start + 1)

/-- The `p` with `10 ^ (p - 1) ≤ num / den < 10 ^ p`, for a positive `num`. No
double has more than 330 zeros behind its point. -/
def decimalOrder (num den : Nat) : Int :=
  if den ≤ num then decimalLength (num / den)
  else 1 - (scaleUp num den 330 0 : Int)

/-- The point of the grid of step `10 ^ step` that lies in the interval and is
nearest to its middle; of two equally near ones the larger. Only the two
neighbours of the middle can be nearest. -/
def Interval.onGrid (i : Interval) (step : Int) : Option Nat :=
  let up := tenTo (-step).toNat
  let unit := i.den * tenTo step.toNat
  let low := i.low * up
  let mid := i.mid * up
  let high := i.high * up
  let d := mid / unit
  let hitsBelow := if i.closed then decide (low ≤ d * unit) else decide (low < d * unit)
  let hitsAbove :=
    if i.closed then decide ((d + 1) * unit ≤ high) else decide ((d + 1) * unit < high)
  if hitsBelow && hitsAbove then
    some (if 2 * mid < (2 * d + 1) * unit then d else d + 1)
  else if hitsBelow then some d
  else if hitsAbove then some (d + 1)
  else none

/-- The decimal of fewest digits that reads back as `significand · 2 ^ exponent`.
Seventeen digits always suffice. -/
def shortest (significand : Nat) (exponent : Int) : Decimal :=
  let i := Interval.of significand exponent
  let order := decimalOrder i.mid i.den
  let found := (List.range 17).findSome? fun (k : Nat) =>
    (i.onGrid (order - ((k + 1 : Nat) : Int))).map fun d => (k + 1, d)
  match found with
  | some (k, d) => if d = tenTo k then ⟨1, order⟩ else ⟨d, order - k⟩
  | none => ⟨i.mid / i.den, 0⟩

end EntityScript.Number
