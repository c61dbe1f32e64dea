import EntityScript.Dispatch.Cycle
import EntityScript.Dispatch.Sweep
import EntityScript.Snapshot

/-! # Simulations

Loading a program, the pulse that drives it, and replacing it while it runs. -/

namespace EntityScript

namespace World

/-! ## Broadcasting -/

/-- Send an event to an entity if it is live and handles it. -/
def offer (w : World) (id : EntityId) (event : String) (args : List Value) :
    Option Incident × World :=
  match w.table.get? id with
  | none => (none, w)
  | some e =>
    if e.destroyed || (e.event? event).isNone then (none, w)
    else
      match w.send ⟨id, event, args⟩ with
      | (.ok _, w) => (none, w)
      | (.error fault, w) => (some ⟨e.name, event, fault⟩, w)

def offerAll (w : World) (ids : List EntityId) (event : String) (args : List Value) :
    List Incident × World :=
  match ids with
  | [] => ([], w)
  | id :: rest =>
    let (incident, w) := w.offer id event args
    let (incidents, w) := w.offerAll rest event args
    (incident.toList ++ incidents, w)

/-- Send an event to those entities that are live and handle it, then drain the
queue. Faults in sending come first in the report. -/
def broadcast (w : World) (budget : Nat) (ids : List EntityId) (event : String)
    (args : List Value) : CycleReport × World :=
  let (incidents, w) := w.offerAll ids event args
  let (report, w) := w.drain budget
  ({ report with incidents := incidents ++ report.incidents }, w)

/-! ## Loading -/

/-- Declare the entities of a program text and send each the event for new
entities. A text that is refused or that declares a name in use has no effect. -/
def load (w : World) (budget : Nat) (source : String) : Except ScriptFault CycleReport × World :=
  match Program.parse source with
  | .error fault => (.error fault, w)
  | .ok p =>
    match p.declarations.find? fun d => (w.table.idOf? d.name).isSome with
    | some d => (.error (.duplicateEntity d.name), w)
    | none =>
      match w.table.declareAll p.declarations with
      | (.error fault, table) => (.error (.engine fault), { w with table := table })
      | (.ok ids, table) =>
        let (report, w) := broadcast { w with table := table } budget ids w.settings.initEvent []
        (.ok report, w)

/-! ## Pulse -/

/-- Send each entity the event of a pulse with the time passed, drain the queue, and
sweep if the settings say so. -/
def pulse (w : World) (budget : Nat) (elapsed : Float) : CycleReport × World :=
  let (report, w) := w.broadcast budget w.table.ids w.settings.tickEvent [.number elapsed]
  if w.settings.sweepAfterPulse then (report, w.sweep.2) else (report, w)

end World

/-! ## Reloading -/

structure ReloadReport where
  updated : List String
  spawned : List String
  cycle : CycleReport
  deriving DecidableEq, Repr

/-- Give an entity the events of a declaration and the fields that it lacks. -/
def Entity.update (e : Entity) (d : Declaration) : Entity :=
  let missing := d.fields.entries.filter fun f => !e.fields.contains f.1
  { e.replaceEvents d.events with fields := e.fields.insertAll missing }

def Table.update (t : Table) (d : Declaration) : Table :=
  { t with entities := t.entities.map fun e => if e.name = d.name then e.update d else e }

/-- A table into which declarations are being brought. -/
structure Replacement where
  table : Table
  updated : List String := []
  spawned : List String := []
  fresh : List EntityId := []

/-- Bring one declaration into the table: update the entities of its name if the name
is declared, else declare it. -/
def Replacement.add (r : Replacement) (d : Declaration) : Except Fault Replacement :=
  match r.table.idOf? d.name with
  | some _ => .ok { r with table := r.table.update d, updated := r.updated ++ [d.name] }
  | none =>
    match r.table.declare d.name d.fields d.events with
    | .error fault => .error fault
    | .ok (id, table) =>
      .ok { r with table := table, spawned := r.spawned ++ [d.name], fresh := r.fresh ++ [id] }

/-- Bring declarations into the table one after another. A fault ends it, and what was
brought in before stays. -/
def Replacement.addAll (r : Replacement) : List Declaration → Except Fault Unit × Replacement
  | [] => (.ok (), r)
  | d :: ds =>
    match r.add d with
    | .error fault => (.error fault, r)
    | .ok r => r.addAll ds

/-- Replace the program while it runs. Entities keep the values of their fields,
copies included; new entities are sent the event for new entities. A text that is
refused has no effect. -/
def World.reload (w : World) (budget : Nat) (source : String) :
    Except ScriptFault ReloadReport × World :=
  match Program.parse source with
  | .error fault => (.error fault, w)
  | .ok p =>
    match Replacement.addAll { table := w.table } p.declarations with
    | (.error fault, r) => (.error (.engine fault), { w with table := r.table })
    | (.ok _, r) =>
      let (cycle, w) :=
        World.broadcast { w with table := r.table } budget r.fresh w.settings.initEvent []
      (.ok ⟨r.updated, r.spawned, cycle⟩, w)

end EntityScript
