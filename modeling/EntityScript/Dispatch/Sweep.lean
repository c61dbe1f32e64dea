import EntityScript.World

/-! # Sweeping

References to entities that are gone or destroyed are taken out of all pools, and
the subscriptions of such entities end. The entities themselves stay. -/

namespace EntityScript

structure SweepReport where
  references : Nat
  subscriptions : Nat
  deriving DecidableEq, Repr

namespace Entity

def retain (e : Entity) (keep : EntityId → Bool) : Entity :=
  { e with fields := e.fields.mapValues (Value.retain keep) }

def strays (e : Entity) (keep : EntityId → Bool) : Nat :=
  e.fields.values.foldr (fun v n => v.strays keep + n) 0

end Entity

/-- Sweep out what is not live. -/
def World.sweep (w : World) : SweepReport × World :=
  let keep := w.table.isLive
  let references := w.table.entities.foldr (fun e n => e.strays keep + n) 0
  let report : SweepReport := ⟨references, w.subscriptions.strays keep⟩
  let table := { w.table with entities := w.table.entities.map fun e => e.retain keep }
  (report, { w with table := table, subscriptions := w.subscriptions.retain keep })

end EntityScript
