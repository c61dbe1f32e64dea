/-! # Operators -/

namespace EntityScript

inductive BinaryOp where
  | add
  | sub
  | mul
  | div
  | mod
  | eq
  | ne
  | lt
  | gt
  | le
  | ge
  deriving DecidableEq, Repr

namespace BinaryOp

def all : List BinaryOp := [.add, .sub, .mul, .div, .mod, .eq, .ne, .lt, .gt, .le, .ge]

def symbol : BinaryOp → String
  | .add => "+"
  | .sub => "-"
  | .mul => "*"
  | .div => "/"
  | .mod => "%"
  | .eq => "=="
  | .ne => "!="
  | .lt => "<"
  | .gt => ">"
  | .le => "<="
  | .ge => ">="

def ofSymbol? (s : String) : Option BinaryOp :=
  all.find? fun op => op.symbol == s

def isArithmetic : BinaryOp → Bool
  | .add | .sub | .mul | .div | .mod => true
  | _ => false

def isEquality : BinaryOp → Bool
  | .eq | .ne => true
  | _ => false

end BinaryOp

/-- Operators that look at their right side only if the left one leaves it open. -/
inductive LogicOp where
  | and
  | or
  deriving DecidableEq, Repr

end EntityScript
