import EntityScript.Operation
import EntityScript.Pool
import EntityScript.Table

/-! # Evaluation

An expression is evaluated for one entity with the locals of the running event,
and may read other entities of the table.

`Expr.eval` first tries `Expr.evalNumber` on a tree of arithmetic, which works on
plain numbers and gives up on anything else; then `Expr.evalGeneral` takes the
whole tree. -/

namespace EntityScript

structure Context where
  entity : Entity
  locals : Scope
  table : Table
  event : String

namespace Context

/-- A variable: a local, else a field. -/
def lookup (c : Context) (name : String) : Except Fault Value :=
  match c.locals.get? name with
  | some v => .ok v
  | none =>
    match c.entity.field? name with
    | some v => .ok v
    | none => .error (.unresolvedVariable name c.event c.entity.name)

/-- A field, else a local: the order in which pools and references are found. -/
def holder? (c : Context) (name : String) : Option Value :=
  (c.entity.field? name).or (c.locals.get? name)

def pool (c : Context) (name : String) : Except Fault (List Value) :=
  match (c.holder? name).bind Value.pool? with
  | some p => .ok p
  | none => .error (.notAPool name)

def fieldOf (e : Entity) (name : String) : Except Fault Value :=
  match e.field? name with
  | some v => .ok v
  | none => .error (.fieldNotFound name e.name)

def fieldOfNamed (c : Context) (target name : String) : Except Fault Value :=
  match c.table.byName? target with
  | some e => fieldOf e name
  | none => .error (.unresolvedTarget target)

/-- `target.name`: a field of the running entity after `self`; the size of a pool;
a field of the entity that `target` refers to; a field of the entity declared as
`target`. -/
def property (c : Context) (target name : String) : Except Fault Value :=
  if target = "self" then fieldOf c.entity name
  else
    match c.holder? target with
    | some (.pool items) =>
      if name = "count" then .ok (.number (Float.ofNat items.length))
      else .error (.unknownProperty name target)
    | some (.entity id) =>
      match c.table.get? id with
      | some e => fieldOf e name
      | none => c.fieldOfNamed target name
    | _ => c.fieldOfNamed target name

end Context

namespace Expr

/-- Arithmetic on plain numbers. There is no answer for a tree with anything but
numbers, variables and arithmetic in it. -/
def evalNumber (c : Context) : Expr → Except Fault (Option Float)
  | .literal (.number n) => .ok (some n)
  | .var name => (c.lookup name).map Value.number?
  | .binary op left right =>
    if op.isArithmetic then do
      match ← evalNumber c left with
      | none => .ok none
      | some l =>
        match ← evalNumber c right with
        | none => .ok none
        | some r => .ok (some (op.arithmetic l r))
    else .ok none
  | _ => .ok none

def isArithmetic : Expr → Bool
  | .binary op _ _ => op.isArithmetic
  | _ => false

/-- Take the answer of `evalNumber` on a tree of arithmetic, else `general`. -/
def shortcut (c : Context) (e : Expr) (general : Unit → Except Fault Value) :
    Except Fault Value :=
  if e.isArithmetic then do
    match ← e.evalNumber c with
    | some n => .ok (.number n)
    | none => general ()
  else general ()

/-- Evaluation of every form of expression. The parts of an operator are taken
this way again; conditions and indices start over with `shortcut`. -/
def evalGeneral (c : Context) : Expr → Except Fault Value
  | .literal v => .ok v
  | .var name => c.lookup name
  | .binary op left right => do
    let l ← evalGeneral c left
    let r ← evalGeneral c right
    op.apply l r
  | .logic op left right => do
    let l ← shortcut c left fun _ => evalGeneral c left
    -- a null on the left makes the whole false, also for `or`
    if l.isNull then .ok (.bool false)
    else
      match op, ← l.condition with
      | .or, true => .ok (.bool true)
      | .and, false => .ok (.bool false)
      | _, _ => do
        let r ← shortcut c right fun _ => evalGeneral c right
        .ok (.bool (← r.condition))
  | .not e => do
    let v ← shortcut c e fun _ => evalGeneral c e
    .ok (.bool (!(← v.condition)))
  | .index pool e => do
    let items ← c.pool pool
    let v ← shortcut c e fun _ => evalGeneral c e
    let index ← v.toIndex pool
    Pool.get items pool index
  | .property target name => c.property target name

def eval (c : Context) (e : Expr) : Except Fault Value :=
  shortcut c e fun _ => evalGeneral c e

def evalAll (c : Context) : List Expr → Except Fault (List Value)
  | [] => .ok []
  | e :: es => do
    let v ← eval c e
    let vs ← evalAll c es
    .ok (v :: vs)

end Expr

end EntityScript
