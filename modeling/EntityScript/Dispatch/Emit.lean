import EntityScript.Dispatch.Frame
import EntityScript.Dispatch.Send

/-! # Emitting

What is emitted is a builtin (`log`, `input`, the host's event, `self.destroy`), a
command to a pool, or else a message. -/

namespace EntityScript

/-! ## Builtins -/

mutual

/-- A value as logged: a reference shows the name of its entity. -/
def Table.logText (t : Table) : Value → String
  | .entity id =>
    match t.get? id with
    | some e => e.name
    | none => id.text
  | .pool items => "pool[" ++ ", ".intercalate (logTexts t items) ++ "]"
  | v => v.text

def Table.logTexts (t : Table) : List Value → List String
  | [] => []
  | v :: vs => logText t v :: logTexts t vs

end

/-- A line that was read, as a value: the number that it denotes up to blanks at its
ends, else its text; null at the end of the input. -/
def inputValue : Option String → Value
  | none => .null
  | some line =>
    match Number.read? (Text.trim line) with
    | some n => .number n
    | none => .string line

def Frame.input (f : Frame) (args : List Value) : Run Frame := do
  let prompt := (args[0]?.map Value.text).getD ""
  let field := (args[1]?.map Value.text).getD ""
  let w ← get
  let (line, host) := w.host.readLine prompt
  set { w with host := host }
  if field.isEmpty then
    return f
  else
    f.assign field (inputValue line)

/-- Call the host: the first argument names the callback. -/
def Run.callHost (args : List Value) : Run Unit := do
  match args with
  | [] => return ()
  | name :: rest =>
    let w ← get
    set { w with host := (w.host.invoke name.text rest).2 }

/-- Carry out a builtin; none if what is emitted is not one. -/
def Frame.builtin? (f : Frame) (target : Target) (event : String) (args : List Value) :
    Run (Option Frame) := do
  let w ← get
  match target with
  | .self =>
    if event = "destroy" then
      set { w with table := w.table.destroy f.entity }
      return some f
    else
      return none
  | .implicit =>
    if event = "log" then
      set { w with host := w.host.note (.log (" ".intercalate (w.table.logTexts args))) }
      return some f
    else if event = "input" then
      return some (← f.input args)
    else if event = w.settings.hostEvent then
      Run.callHost args
      return some f
    else
      return none
  | _ => return none

/-! ## Pools -/

def Run.sendAll : List Message → Run Unit
  | [] => return ()
  | m :: ms => do
    Run.send m
    Run.sendAll ms

def Run.each (owner : EntityId) (field : String) (args : List Value) : Run Unit := do
  match args with
  | [] => throw (.poolCommand .each field .missingEventName)
  | .null :: _ => throw (.poolCommand .each field .missingEventName)
  | event :: rest =>
    let t := (← get).table
    let members ← t.pool owner field
    Run.sendAll ((members.filterMap t.resolve?).map fun id => ⟨id, event.text, rest⟩)

/-- Add to a pool a new copy of an entity, which is sent the event for new entities.
The pool is looked up first, so that without one no copy is made. -/
def Run.addCopy (owner : EntityId) (field : String) (source : EntityId) : Run Unit := do
  let w ← get
  let _ ← w.table.pool owner field
  let (copied, table) := w.table.copy source
  set { w with table := table }
  let id ← copied
  Run.changePool owner field fun p => .ok (p ++ [.entity id])
  Run.send ⟨id, w.settings.initEvent, []⟩

def Table.named? (t : Table) (args : List Value) : Option EntityId :=
  match args with
  | .string name :: _ => t.idOf? name
  | _ => none

def Run.poolCommand (owner : EntityId) (field : String) (command : Pool.Command)
    (args : List Value) : Run Unit := do
  match command with
  | .each => Run.each owner field args
  | .add =>
    match (← get).table.named? args with
    | some source => Run.addCopy owner field source
    | none => Run.changePool owner field fun p => Pool.apply p field .add args
  | command => Run.changePool owner field fun p => Pool.apply p field command args

/-! ## Routing -/

def Table.ownsPool (t : Table) (owner : EntityId) (field : String) : Bool :=
  ((t.get? owner).bind fun e => e.pool? field).isSome

/-- Deliver what is emitted and is no builtin. -/
def Frame.route (f : Frame) (target : Target) (event : String) (args : List Value) : Run Unit := do
  let t := (← get).table
  match target with
  | .implicit => Run.send ⟨f.entity, event, args⟩
  | .self => Run.send ⟨f.entity, event, args⟩
  | .remote entity field =>
    match t.idOf? entity with
    | none => throw (.entityNotFound entity)
    | some owner =>
      match Pool.Command.ofName? event with
      | none => throw (.unknownPoolCommand event target.text)
      | some command => Run.poolCommand owner field command args
  | .named name =>
    match if t.ownsPool f.entity name then Pool.Command.ofName? event else none with
    | some command => Run.poolCommand f.entity name command args
    | none =>
      match t.idOf? name with
      | none => throw (.entityNotFound name)
      | some id => Run.send ⟨id, event, args⟩

def Frame.emit (f : Frame) (target : Target) (event : String) (args : List Value) : Run Frame := do
  match ← f.builtin? target event args with
  | some f => return f
  | none =>
    f.route target event args
    return f

end EntityScript
