import EntityScript.Proofs.Dispatch.Change
import EntityScript.Simulation

/-! # Requests to a simulation

What a host can ask of a simulation (`World.Request`), in any order and however it ends.
A property that elementary changes, taking a message from the queue and reporting a fault
keep (`World.Kept`, and `World.KeptBy` for other kinds of steps) is kept by calls, by every
number of steps of a drain, and by sending an event to many entities and draining. If it depends
on the queue, the mark of a call and the settings only (`World.Steady`), it is kept by all
requests. -/

namespace EntityScript

/-! ## What running events keep -/

/-- A property of states that steps of a kind keep, and with them running events. -/
structure World.KeptBy (C : World → World → Prop) (P : World → Prop) : Prop where
  change : ∀ w w', C w w' → P w → P w'
  pop : ∀ w m rest, w.queue.pop? = some (m, rest) → P w → P { w with queue := rest }
  report : ∀ w line, P w → P (w.report line)

/-- A property of states that running events keep because elementary changes do. -/
abbrev World.Kept (P : World → Prop) : Prop := World.KeptBy World.Change P

namespace World.KeptBy

variable {C : World → World → Prop} [World.Licensed C] {P : World → Prop} {w : World}

theorem send (hP : KeptBy C P) (m : Message) (hw : P w) : P (w.send m).2 :=
  hP.change _ _ (World.StepKind.quiet (.send w m) rfl) hw

theorem sendNamed (hP : KeptBy C P) (name event : String) (args : List Value) (hw : P w) :
    P (w.sendNamed name event args).2 := by
  unfold World.sendNamed
  split
  · exact hw
  · exact hP.send _ hw

theorem call (hP : KeptBy C P) (target : EntityId) (event : String) (args : List Value) (hw : P w) :
    P (w.call target event args).2 :=
  World.steps_keep hP.change (Call.perform_stepwise target event args w) hw

/-- One step of a drain takes a message, handles it and reports a fault. -/
theorem step (hP : KeptBy C P) {incident : Option Incident} {w' : World}
    (h : w.step = some (incident, w')) (hw : P w) : P w' := by
  unfold World.step at h
  split at h
  · cases h
  · rename_i m rest hpop
    have hhandled : P (m.handle { w with queue := rest }).2 :=
      World.steps_keep hP.change m.handle_stepwise (hP.pop w m rest hpop hw)
    split at h
    · rename_i hr
      cases h
      rw [hr] at hhandled
      exact hhandled
    · rename_i fault w₁ hr
      cases h
      rw [hr] at hhandled
      exact hP.report w₁ _ hhandled

theorem drainFrom (hP : KeptBy C P) (budget : Nat) (report : CycleReport) (hw : P w) :
    P (World.drainFrom budget report w).2 := by
  induction budget generalizing report w with
  | zero => exact hw
  | succ budget ih =>
    unfold World.drainFrom
    split
    · exact hw
    · rename_i incident w' hstep
      exact ih _ (hP.step hstep hw)

theorem offer (hP : KeptBy C P) (id : EntityId) (event : String) (args : List Value) (hw : P w) :
    P (w.offer id event args).2 := by
  unfold World.offer
  split
  · exact hw
  · split
    · exact hw
    · have hsent := hP.send ⟨id, event, args⟩ hw
      split <;> rename_i hr <;> rw [hr] at hsent <;> exact hsent

theorem offerAll (hP : KeptBy C P) (ids : List EntityId) (event : String) (args : List Value)
    (hw : P w) : P (w.offerAll ids event args).2 := by
  induction ids generalizing w with
  | nil => exact hw
  | cons id ids ih => exact ih (hP.offer id event args hw)

theorem broadcast (hP : KeptBy C P) (budget : Nat) (ids : List EntityId) (event : String)
    (args : List Value) (hw : P w) : P (w.broadcast budget ids event args).2 :=
  hP.drainFrom budget {} (hP.offerAll ids event args hw)

end World.KeptBy

/-! ## Requests -/

/-- What a host can ask of a simulation. A drain, a pulse, a load and a reload come with
the number of messages that are handled before the host looks again. Between requests
the host may change the table and its own side at will. -/
inductive World.Request where
  | send (m : Message)
  | sendNamed (name event : String) (args : List Value)
  | drain (budget : Nat)
  | call (target : EntityId) (event : String) (args : List Value)
  | subscribe (subscriber : EntityId) (target event handler : String) (args : Option (List Expr))
  | unsubscribe (subscriber : EntityId) (target event handler : String)
  | sweep
  | load (budget : Nat) (source : String)
  | pulse (budget : Nat) (elapsed : Float)
  | reload (budget : Nat) (source : String)
  | editTable (table : Table)
  | editHost (host : Host)

namespace World

/-- Take over new subscriptions unless the change was refused. -/
def resubscribe (w : World) : Except Fault Subscriptions → World
  | .ok subs => { w with subscriptions := subs }
  | .error _ => w

/-- The state after a request, whether it succeeded or not. -/
def serve (w : World) : Request → World
  | .send m => (w.send m).2
  | .sendNamed name event args => (w.sendNamed name event args).2
  | .drain budget => (w.drain budget).2
  | .call target event args => (w.call target event args).2
  | .subscribe subscriber target event handler args =>
    w.resubscribe (w.subscriptions.subscribe w.table subscriber target event handler args)
  | .unsubscribe subscriber target event handler =>
    w.resubscribe (w.subscriptions.unsubscribe w.table subscriber target event handler)
  | .sweep => w.sweep.2
  | .load budget source => (w.load budget source).2
  | .pulse budget elapsed => (w.pulse budget elapsed).2
  | .reload budget source => (w.reload budget source).2
  | .editTable table => { w with table := table }
  | .editHost host => { w with host := host }

/-- The state after some requests, one after another. -/
def after (w : World) (requests : List Request) : World := requests.foldl serve w

theorem after_keeps {P : World → Prop} (hP : ∀ w r, P w → P (serve w r)) {w : World}
    (hw : P w) (requests : List Request) : P (w.after requests) := by
  unfold after
  induction requests generalizing w with
  | nil => exact hw
  | cons r rs ih => exact ih (hP w r hw)

/-- A property that running events keep and that depends neither on the table nor on the
subscriptions nor on the host. -/
structure Steady (P : World → Prop) : Prop extends KeptBy Change P where
  edit : ∀ w table subscriptions host, P w →
    P { w with table := table, subscriptions := subscriptions, host := host }

namespace Steady

variable {P : World → Prop} {w : World}

theorem resubscribe (hP : Steady P) (r : Except Fault Subscriptions) (hw : P w) :
    P (w.resubscribe r) := by
  cases r with
  | ok subs => exact hP.edit w w.table subs w.host hw
  | error fault => exact hw

theorem load (hP : Steady P) (budget : Nat) (source : String) (hw : P w) :
    P (w.load budget source).2 := by
  unfold World.load
  split
  · exact hw
  · split
    · exact hw
    · split
      · exact hP.edit w _ w.subscriptions w.host hw
      · rename_i ids table _
        exact hP.broadcast budget ids _ [] (hP.edit w table w.subscriptions w.host hw)

theorem reload (hP : Steady P) (budget : Nat) (source : String) (hw : P w) :
    P (w.reload budget source).2 := by
  unfold World.reload
  split
  · exact hw
  · split
    · exact hP.edit w _ w.subscriptions w.host hw
    · rename_i r _
      exact hP.broadcast budget r.fresh _ [] (hP.edit w r.table w.subscriptions w.host hw)

theorem pulse (hP : Steady P) (budget : Nat) (elapsed : Float) (hw : P w) :
    P (w.pulse budget elapsed).2 := by
  have hb := hP.broadcast budget w.table.ids w.settings.tickEvent [.number elapsed] hw
  unfold World.pulse
  dsimp only
  split
  · exact hP.edit _ _ _ _ hb
  · exact hb

theorem serve (hP : Steady P) (w : World) (r : Request) (hw : P w) : P (w.serve r) := by
  cases r with
  | send m => exact hP.send m hw
  | sendNamed name event args => exact hP.sendNamed name event args hw
  | drain budget => exact hP.drainFrom budget {} hw
  | call target event args => exact hP.call target event args hw
  | subscribe | unsubscribe => exact hP.resubscribe _ hw
  | sweep => exact hP.edit w _ _ w.host hw
  | load budget source => exact hP.load budget source hw
  | pulse budget elapsed => exact hP.pulse budget elapsed hw
  | reload budget source => exact hP.reload budget source hw
  | editTable table => exact hP.edit w table w.subscriptions w.host hw
  | editHost host => exact hP.edit w w.table w.subscriptions host hw

/-- What is steady holds after all requests. -/
theorem after (hP : Steady P) (hw : P w) (requests : List Request) : P (w.after requests) :=
  after_keeps hP.serve hw requests

end Steady

end World

end EntityScript
