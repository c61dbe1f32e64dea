import EntityScript.Host
import EntityScript.Queue
import EntityScript.Settings
import EntityScript.Subscription

/-! # The state of a simulation

A computation on the state may fail. What it did to the state before it failed
stays done. -/

namespace EntityScript

structure World where
  table : Table := .empty
  queue : Queue := .empty
  subscriptions : Subscriptions := .empty
  /-- Whether an event called by another one is being carried out. -/
  calling : Bool := false
  host : Host := {}
  settings : Settings := {}
  deriving Inhabited

abbrev Run := ExceptT Fault (StateM World)

namespace World

def report (w : World) (line : String) : World :=
  { w with host := w.host.note (.diagnostic line) }

/-- The name of an entity in reports; one that is gone is shown by its identity. -/
def nameOf (w : World) (id : EntityId) : String :=
  match w.table.get? id with
  | some e => e.name
  | none => id.text

end World

end EntityScript
