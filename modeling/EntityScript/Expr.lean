import EntityScript.Value
import EntityScript.Operator

/-! # Expressions -/

namespace EntityScript

inductive Expr where
  | literal (v : Value)
  | var (name : String)
  | binary (op : BinaryOp) (left right : Expr)
  | logic (op : LogicOp) (left right : Expr)
  | not (e : Expr)
  /-- A slot of a pool, counted from one. -/
  | index (pool : String) (e : Expr)
  /-- The size of a pool, a field of the running entity, or a field of another one. -/
  | property (target property : String)
  deriving DecidableEq, Repr, Inhabited

end EntityScript
