import EntityScript.Dispatch.Emit

/-! # Carrying out actions

An action may call an event of an entity and wait for its result. While such a call
is being carried out, every further call is refused, so calls do not nest and an
event always ends. -/

namespace EntityScript

/-- Whether the rest of the event is still to be carried out. -/
inductive Progress where
  | goOn
  | halt
  deriving DecidableEq, Repr

abbrev Call := EntityId → String → List Value → Run Value

/-- Carry out a change of the subscriptions. A wrong use is reported and otherwise
without effect. -/
def Run.changeSubscriptions (change : World → Except Fault Subscriptions) : Run Unit := do
  let w ← get
  match change w with
  | .ok subs => set { w with subscriptions := subs }
  | .error fault =>
    if fault.isUsage then set (w.report ("[Subscription Error] " ++ fault.message))
    else throw fault

def Frame.callee (f : Frame) (target : Target) : Run EntityId := do
  match target with
  | .implicit => return f.entity
  | .self => return f.entity
  | .named name =>
    match (← get).table.idOf? name with
    | some id => return id
    | none => throw (.entityNotFound name)
  | .remote _ _ => throw (.entityNotFound target.text)

mutual

def Frame.execute (call : Call) (f : Frame) : Action → Run (Frame × Progress)
  | .set value name => do
    let v ← f.eval value
    let f ← f.assign name v
    return ({ f with last := v }, .goOn)
  | .setIndexed value pool index => do
    let v ← f.eval value
    let i ← (← f.eval index).toIndex pool
    f.assignIndexed pool i v
    return ({ f with last := v }, .goOn)
  | .guard condition => do
    let passed ← (← f.eval condition).condition
    return (f, if passed then .goOn else .halt)
  | .check condition body => do
    let passed ← (← f.eval condition).condition
    if passed then f.execute call body else return (f, .goOn)
  | .block body => f.executeAll call body
  | .call target event args field => do
    let vs ← f.evalAll args
    let callee ← f.callee target
    let v ← call callee event vs
    let f ← f.assign field v
    return ({ f with last := v }, .goOn)
  | .callIndexed target event args pool index => do
    let vs ← f.evalAll args
    let callee ← f.callee target
    let v ← call callee event vs
    let i ← (← f.eval index).toIndex pool
    f.assignIndexed pool i v
    return ({ f with last := v }, .goOn)
  | .emit target event args => do
    let vs ← if event = Pool.Command.name .each then f.evalEach args else f.evalAll args
    return (← f.emit target event vs, .goOn)
  | .subscribe target event handler args => do
    Run.changeSubscriptions fun w =>
      w.subscriptions.subscribe w.table f.entity target event handler args
    return (f, .goOn)
  | .unsubscribe target event handler => do
    Run.changeSubscriptions fun w =>
      w.subscriptions.unsubscribe w.table f.entity target event handler
    return (f, .goOn)

def Frame.executeAll (call : Call) (f : Frame) : List Action → Run (Frame × Progress)
  | [] => return (f, .goOn)
  | a :: rest => do
    match ← f.execute call a with
    | (f, .goOn) => f.executeAll call rest
    | (f, .halt) => return (f, .halt)

end

/-! ## Events -/

/-- Bind the arguments of an event to its parameters. Too few are a fault, and too
many are one if the settings say so. -/
def Event.bind (e : Event) (settings : Settings) (args : List Value) : Except Fault Scope :=
  let expected := e.params.length
  if args.length < expected ∨ (settings.strictArity ∧ args.length ≠ expected) then
    .error (.argumentCount e.name expected args.length)
  else .ok (.ofList (e.params.zip args))

/-- Carry out an event of an entity, and give back the last value that it assigned. -/
def Event.run (e : Event) (call : Call) (entity : EntityId) (args : List Value) : Run Value := do
  let locals ← e.bind (← get).settings args
  let f : Frame := ⟨entity, e.name, locals, .null⟩
  let (f, _) ← f.executeAll call e.body
  return f.last

/-! ## Calls -/

def Call.refuse : Call := fun target event _ => do
  match (← get).table.get? target with
  | none => throw (.entityNotFound target.text)
  | some e => throw (.nestedCall e.name event)

/-- Run a computation as a call: the mark that a call is being carried out is set
before and taken off behind it, however it ends. -/
def Run.asCall {α : Type} (r : Run α) : Run α := fun w =>
  let (result, w) := r { w with calling := true }
  (result, { w with calling := false })

/-- Call an event and wait for its result; `inner` is how the event makes calls of its
own. -/
def Call.through (inner : Call) : Call := fun target event args => do
  let w ← get
  match w.table.get? target with
  | none => throw (.entityNotFound target.text)
  | some e =>
    if w.calling then
      throw (.nestedCall e.name event)
    else
      Run.asCall do
        match e.event? event with
        | none => throw (.eventNotFound e.name event)
        | some handler => handler.run inner target args

/-- Call an event and wait for its result. Calls made by the event are refused. -/
def Call.perform : Call := Call.through Call.refuse

/-- Handle a message. One for an unknown entity or event is ignored. -/
def Message.handle (m : Message) : Run Unit := do
  match ((← get).table.get? m.target).bind fun e => e.event? m.event with
  | none => return ()
  | some event =>
    let _ ← event.run Call.perform m.target m.args
    return ()

def World.call (w : World) (target : EntityId) (event : String) (args : List Value) :
    Except Fault Value × World :=
  Call.perform target event args w

end EntityScript
