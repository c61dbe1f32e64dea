import EntityScript.Proofs.Send.FanOut
import EntityScript.Proofs.Simulation.Request

/-! # The queue stays valid

Sending and taking a message are the only changes to a queue, and both keep it valid. So
it is valid after all requests to a simulation, those that end in a fault included. -/

namespace EntityScript

namespace World

theorem queue_valid_steady : Steady fun w => w.queue.Valid where
  change := by
    intro w w' h hw
    cases h with
    | send m => exact hw.send m
    | assign | destroy | copy | subscribe | unsubscribe | host => exact hw
  pop := by
    intro w m rest h hw
    exact hw.pop h
  report := fun _ _ hw => hw
  edit := fun _ _ _ _ hw => hw

/-- A simulation that has not been asked for anything. -/
def fresh (t : Table) (host : Host) (settings : Settings) : World :=
  { table := t, host := host, settings := settings }

theorem after_queue_valid (t : Table) (host : Host) (settings : Settings)
    (requests : List Request) : ((fresh t host settings).after requests).queue.Valid :=
  queue_valid_steady.after Queue.empty_valid requests

/-- Sending again what was just sent changes nothing, also if the first sending ended in
a fault. -/
theorem send_again {w : World} (hw : w.queue.Valid) (m : Message) :
    (w.send m).2.send m = (.ok (), (w.send m).2) := by
  have hsent : (w.send m).2.queue.Awaits m := Queue.awaits_send w.table w.subscriptions w.queue m
  exact send_of_awaits (hw.send m) hsent

/-- **The queue and its tally agree in every state that can be reached**, by requests in
any order and whether or not they end in a fault. The tally has exactly the number of
waiting messages for each key, so taking a message never finds its count missing or zero;
no message waits twice; the tally never settles a search wrongly; and sending a message
twice is sending it once. -/
theorem queue_exact_after (t : Table) (host : Host) (settings : Settings)
    (requests : List Request) :
    let w := (fresh t host settings).after requests
    (∀ key, w.queue.tally.get? key =
      if w.queue.waiting key = 0 then none else some (w.queue.waiting key)) ∧
    (∀ m rest, w.queue.pop? = some (m, rest) → ∃ n, w.queue.tally.get? m.key = some (n + 1)) ∧
    w.queue.pending.Pairwise (fun a b => a.same b = false ∧ b.same a = false) ∧
    (∀ m, w.queue.holds m = w.queue.pending.any fun p => p.same m) ∧
    (∀ m, (w.send m).2.send m = (.ok (), (w.send m).2)) := by
  intro w
  have hw : w.queue.Valid := after_queue_valid t host settings requests
  refine ⟨hw.tallied, ?_, hw.pairwise_same, hw.holds_eq_any, fun m => send_again hw m⟩
  intro m rest hpop
  exact ⟨_, hw.get?_of_pop hpop⟩

end World

end EntityScript
