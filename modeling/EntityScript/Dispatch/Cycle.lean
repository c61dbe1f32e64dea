import EntityScript.Dispatch.Execute

/-! # Draining the queue

Messages are handled first come, first served, those included that come in
meanwhile. A fault concerns its own message only: it is reported, and the next
message follows. Programs can send messages forever, so a drain has a budget. -/

namespace EntityScript

structure Incident where
  entity : String
  event : String
  fault : Fault
  deriving DecidableEq, Repr

structure CycleReport where
  processed : Nat := 0
  incidents : List Incident := []
  deriving DecidableEq, Repr, Inhabited

namespace CycleReport

def isClean (r : CycleReport) : Bool := r.incidents.isEmpty

def add (r : CycleReport) (incident : Option Incident) : CycleReport :=
  ⟨r.processed + 1, r.incidents ++ incident.toList⟩

end CycleReport

def Incident.line (i : Incident) : String :=
  "[Runtime Error] Entity '" ++ i.entity ++ "', event '" ++ i.event ++ "': " ++ i.fault.message

namespace World

/-- Handle the first message of the queue; none if the queue is empty. -/
def step (w : World) : Option (Option Incident × World) :=
  match w.queue.pop? with
  | none => none
  | some (m, queue) =>
    match m.handle { w with queue := queue } with
    | (.ok _, w) => some (none, w)
    | (.error fault, w) =>
      let incident : Incident := ⟨w.nameOf m.target, m.event, fault⟩
      some (some incident, w.report incident.line)

/-- Handle at most `budget` messages, continuing a report. -/
def drainFrom : Nat → CycleReport → World → CycleReport × World
  | 0, report, w => (report, w)
  | budget + 1, report, w =>
    match w.step with
    | none => (report, w)
    | some (incident, w) => drainFrom budget (report.add incident) w

def drain (w : World) (budget : Nat) : CycleReport × World := drainFrom budget {} w

end World

end EntityScript
