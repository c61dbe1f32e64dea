import EntityScript.World

/-! # Running events

A frame is the running event of an entity: its locals and the last value that it
assigned. -/

namespace EntityScript

structure Frame where
  entity : EntityId
  event : String
  /-- Parameters, and names that were assigned and are no fields. -/
  locals : Scope
  /-- The last value assigned, which is what the event gives back to a caller. -/
  last : Value := .null

namespace Frame

def context (f : Frame) (t : Table) : Except Fault Context :=
  match t.get? f.entity with
  | some e => .ok ⟨e, f.locals, t, f.event⟩
  | none => .error (.entityNotFound f.entity.text)

def eval (f : Frame) (e : Expr) : Run Value := do
  let c ← f.context (← get).table
  e.eval c

def evalAll (f : Frame) : List Expr → Run (List Value)
  | [] => return []
  | e :: es => do
    let v ← f.eval e
    return v :: (← f.evalAll es)

/-- An argument of `each`: a name that is no variable stands for itself. -/
def nameOrValue (e : Expr) (r : Except Fault Value) : Except Fault Value :=
  match e, r with
  | .var name, .error (.unresolvedVariable _ _ _) => .ok (.string name)
  | _, r => r

def evalEach (f : Frame) : List Expr → Run (List Value)
  | [] => return []
  | e :: es => do
    let t := (← get).table
    let v ← nameOrValue e ((f.context t).bind fun c => e.eval c)
    return v :: (← f.evalEach es)

/-- Assign to a field of the entity if there is one of that name, else to a local. -/
def assign (f : Frame) (name : String) (v : Value) : Run Frame := do
  let w ← get
  match w.table.get? f.entity with
  | none => throw (.entityNotFound f.entity.text)
  | some e =>
    if e.fields.contains name then
      set { w with table := w.table.setField f.entity name v }
      return f
    else
      return { f with locals := f.locals.insert name v }

end Frame

def Run.changePool (owner : EntityId) (field : String)
    (change : List Value → Except Fault (List Value)) : Run Unit := do
  let w ← get
  let p ← w.table.pool owner field
  let p ← change p
  set { w with table := w.table.setField owner field (.pool p) }

def Frame.assignIndexed (f : Frame) (pool : String) (index : Int) (v : Value) : Run Unit :=
  Run.changePool f.entity pool fun p => Pool.set p pool index v

end EntityScript
