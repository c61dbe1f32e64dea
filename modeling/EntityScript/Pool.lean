import EntityScript.Fault

/-! # Pools

A pool is a list of values whose slots are counted from one. A command either
yields the new pool or a fault, and then the pool is as before. -/

namespace EntityScript

abbrev Pool := List Value

/-- The slot number that a value denotes, for the pool named `pool`: the nearest
integer, a half going to the even neighbour. -/
def Value.toIndex (v : Value) (pool : String) : Except Fault Int :=
  match v with
  | .number n => .ok (Number.toIndex n)
  | v => .error (.invalidIndex v.type pool)

namespace Pool

def slot (p : Pool) (name : String) (index : Int) : Except Fault Nat :=
  if 1 ≤ index ∧ index ≤ p.length then .ok (index.toNat - 1)
  else .error (.indexOutOfBounds index name)

def get (p : Pool) (name : String) (index : Int) : Except Fault Value :=
  if index < 1 then .error (.indexOutOfBounds index name)
  else
    match p[index.toNat - 1]? with
    | some v => .ok v
    | none => .error (.indexOutOfBounds index name)

def set (p : Pool) (name : String) (index : Int) (v : Value) : Except Fault Pool :=
  (p.slot name index).map fun i => List.set p i v

def exchange (p : Pool) (i j : Nat) : Pool :=
  match p[i]?, p[j]? with
  | some a, some b => (List.set p i b).set j a
  | _, _ => p

def argument (name : String) (command : Command) (args : List Value) (position : Nat) :
    Except Fault Value :=
  match args[position - 1]? with
  | some v => .ok v
  | none => .error (.poolCommand command name (.missingArgument position))

/-- Carry out a command on the pool named `name`. Extra arguments are ignored;
`each` sends messages and so is not for the pool alone. -/
def apply (p : Pool) (name : String) (command : Command) (args : List Value) :
    Except Fault Pool := do
  let arg := argument name command args
  match command with
  | .add =>
    let v ← arg 1
    if v.isNull then .error (.poolCommand command name .nullArgument) else .ok (p ++ [v])
  | .push =>
    let v ← arg 1
    .ok (v :: p)
  | .insert =>
    let index ← (← arg 1).toIndex name
    let v ← arg 2
    if 1 ≤ index ∧ index ≤ p.length + 1 then .ok (p.insertIdx (index.toNat - 1) v)
    else .error (.indexOutOfBounds index name)
  | .remove =>
    let v ← arg 1
    .ok (p.eraseP fun w => w == v)
  | .removeAt =>
    let index ← (← arg 1).toIndex name
    let i ← p.slot name index
    .ok (p.eraseIdx i)
  | .pop => .ok p.dropLast
  | .shift => .ok p.tail
  | .swap =>
    let first ← (← arg 1).toIndex name
    let second ← (← arg 2).toIndex name
    let i ← p.slot name first
    let j ← p.slot name second
    .ok (p.exchange i j)
  | .clear => .ok []
  | .each => .error (.poolCommand command name .needsDelivery)

end Pool

end EntityScript
