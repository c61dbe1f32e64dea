import EntityScript.Fault
import EntityScript.Text.Blank

/-! # Operations on values

What the operators do with two values that are already known, and which values
count as conditions. -/

namespace EntityScript

namespace BinaryOp

/-- A divisor of smaller magnitude gives the result zero. -/
def divisionTolerance : Float := 1e-9

/-- Numbers that are nearer to each other are equal. -/
def equalityTolerance : Float := 1e-7

/-- Arithmetic on numbers. The comparisons are no arithmetic and yield a NaN. -/
def arithmetic (op : BinaryOp) (l r : Float) : Float :=
  match op with
  | .add => l + r
  | .sub => l - r
  | .mul => l * r
  | .div => if r.abs < divisionTolerance then 0.0 else l / r
  | .mod => if r.abs < divisionTolerance then 0.0 else Number.remainder l r
  | _ => Number.nan

def onNumbers (op : BinaryOp) (a b : Float) : Value :=
  match op with
  | .eq => .bool ((a - b).abs < equalityTolerance)
  | .ne => .bool ((a - b).abs ≥ equalityTolerance)
  | .lt => .bool (a < b)
  | .gt => .bool (a > b)
  | .le => .bool (a ≤ b)
  | .ge => .bool (a ≥ b)
  | op => .number (op.arithmetic a b)

def onEquality (op : BinaryOp) (equal : Bool) : Value :=
  .bool (equal == (op == .eq))

/-- An operator between texts: joining, or the order by code points. -/
def onTexts? (op : BinaryOp) (a b : String) : Option Value :=
  match op with
  | .add => some (.string (a ++ b))
  | .lt => some (.bool (a < b))
  | .gt => some (.bool (b < a))
  | .le => some (.bool !(b < a))
  | .ge => some (.bool !(a < b))
  | _ => none

/-- Apply an operator to two values. Two numbers come first; then `==` and `!=`
are decided by structure, whatever the operands are; then a null operand is a
fault; and a string takes the other operand by its text. -/
def apply (op : BinaryOp) (l r : Value) : Except Fault Value :=
  match l, r with
  | .number a, .number b => .ok (op.onNumbers a b)
  | l, r =>
    if op.isEquality then .ok (op.onEquality (l == r))
    else if l.isNull || r.isNull then .error (.nullOperand op)
    else if l.type = .string ∨ r.type = .string then
      match op.onTexts? l.text r.text with
      | some v => .ok v
      | none => .error (.unsupportedOperator op l.type r.type)
    else .error (.unsupportedOperator op l.type r.type)

end BinaryOp

/-- A value as a condition: null and zero are false, every other number is true,
and the texts `true` and `false` in any case stand for themselves. -/
def Value.condition (v : Value) : Except Fault Bool :=
  match v with
  | .bool b => .ok b
  | .null => .ok false
  | .number n => .ok (n != 0.0)
  | .string s =>
    if Text.sameLetters (Text.trim s) "true" then .ok true
    else if Text.sameLetters (Text.trim s) "false" then .ok false
    else .error (.notACondition .string)
  | v => .error (.notACondition v.type)

end EntityScript
