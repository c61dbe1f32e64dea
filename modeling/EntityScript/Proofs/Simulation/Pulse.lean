import EntityScript.Proofs.Drain.Order
import EntityScript.Proofs.Send.Commute
import EntityScript.Proofs.Simulation.Reloading
import EntityScript.Proofs.Sweep.Exact

/-! # A pulse ticks everybody once

Before it drains, a pulse sends the tick to the entities that are live and handle it, one
after another in the order of the table (`World.offerings`). Sending one tick may bring others
with it, among them ticks of entities that are still to be sent theirs, and it may end in a
fault when part of this is done. Either way the tick is waiting afterwards and no message
waits twice (`World.sendEach_leaves`), so at the end each tick waits exactly once. -/

namespace EntityScript

/-! ## Who is sent the event -/

/-- Whether the entity is live and has the event. -/
def Entity.handles (e : Entity) (event : String) : Bool :=
  !e.destroyed && (e.event? event).isSome

/-- The entities that are live and have the event, in the order of the table. -/
def Table.handlers (t : Table) (event : String) : List Entity :=
  t.entities.filter fun e => e.handles event

/-- A sending of a broadcast: the entity that is sent the event, and the state before. -/
structure Offering where
  entity : Entity
  start : World

/-- The fault in which the sending ended, with the entity and event that it befell. -/
def Offering.incident? (o : Offering) (event : String) (args : List Value) : Option Incident :=
  match (o.start.send ⟨o.entity.id, event, args⟩).1 with
  | .ok _ => none
  | .error fault => some ⟨o.entity.name, event, fault⟩

namespace World

/-- The sendings of an event to those among some entities that are live and have it. -/
def offerings (w : World) (event : String) (args : List Value) : List Entity → List Offering
  | [] => []
  | e :: es =>
    if e.handles event then
      ⟨e, w⟩ :: (w.send ⟨e.id, event, args⟩).2.offerings event args es
    else w.offerings event args es

variable {event : String} {args : List Value}

theorem offerings_entities (w : World) (es : List Entity) :
    (w.offerings event args es).map Offering.entity = es.filter fun e => e.handles event := by
  induction es generalizing w with
  | nil => rfl
  | cons e es ih => cases he : e.handles event <;> simp [offerings, he, ih]

theorem offer_handling {w : World} {e : Entity} (hfound : w.table.get? e.id = some e)
    (he : e.handles event = true) : w.offer e.id event args =
      ((⟨e, w⟩ : Offering).incident? event args, (w.send ⟨e.id, event, args⟩).2) := by
  obtain ⟨hlive, hevent⟩ := Bool.and_eq_true_iff.mp he
  have hskip : (e.destroyed || (e.event? event).isNone) = false := by
    simpa [Option.isSome_iff_ne_none] using And.intro hlive hevent
  simp only [offer, hfound, hskip, Bool.false_eq_true, if_false, Offering.incident?]
  cases w.send ⟨e.id, event, args⟩ with
  | mk result w' => cases result <;> rfl

theorem offer_not_handling {w : World} {e : Entity} (hfound : w.table.get? e.id = some e)
    (he : e.handles event = false) : w.offer e.id event args = (none, w) := by
  have hskip : (e.destroyed || (e.event? event).isNone) = true := by
    cases hd : e.destroyed <;> simp_all [Entity.handles]
  simp only [offer, hfound, hskip, if_true]

/-- The faults in a broadcast are those of its sendings, in their order. -/
theorem offerAll_entities (event : String) (args : List Value) {w : World} {es : List Entity}
    (hfound : ∀ e ∈ es, w.table.get? e.id = some e) :
    w.offerAll (es.map Entity.id) event args =
      ((w.offerings event args es).filterMap fun o => o.incident? event args,
        w.sendEach event args ((es.filter fun e => e.handles event).map Entity.id)) := by
  induction es generalizing w with
  | nil => rfl
  | cons e es ih =>
    have he := hfound e List.mem_cons_self
    have hrest : ∀ x ∈ es, w.table.get? x.id = some x :=
      fun x hx => hfound x (List.mem_cons_of_mem _ hx)
    rw [List.map_cons, offerAll]
    cases hhandles : e.handles event with
    | true =>
      -- sending leaves the table as it is
      have hsent := @ih (w.send ⟨e.id, event, args⟩).2 hrest
      rw [offer_handling he hhandles]
      dsimp only
      rw [hsent]
      simp only [offerings, hhandles, if_true, List.filter_cons_of_pos, List.map_cons]
      cases hi : (⟨e, w⟩ : Offering).incident? event args <;>
        simp [hi, sendEach]
    | false =>
      rw [offer_not_handling he hhandles]
      dsimp only
      rw [ih hrest]
      simp [offerings, hhandles]

end World

/-! ## What sending leaves behind -/

/-- Whoever is told by what a message brings is live. -/
theorem Queue.Reached.live {q : Queue} {t : Table} {subs : Subscriptions} {m x : Message}
    (h : q.Reached t subs m x) : x = m ∨ t.isLive x.target = true := by
  cases h with
  | first => exact .inl rfl
  | next _ htells _ =>
    obtain ⟨s, _, hs⟩ := htells
    rw [hs.target]
    exact .inr hs.live

namespace World

variable {event : String} {args : List Value}

/-- The state `w'` is left behind by sending an event to some entities in the state `w`. -/
structure Leaves (event : String) (args : List Value) (ids : List EntityId) (w w' : World) :
    Prop where
  others : w' = { w with queue := w'.queue }
  valid : w'.queue.Valid
  grown : w.queue.pending <+: w'.queue.pending
  awaits : ∀ id ∈ ids, w'.queue.Awaits ⟨id, event, args⟩
  brought : ∀ x ∈ w'.queue.pending, x ∈ w.queue.pending ∨
    ∃ id ∈ ids, w.queue.Brings w.table w.subscriptions ⟨id, event, args⟩ x

theorem sendEach_leaves (event : String) (args : List Value) {w : World} (hw : w.queue.Valid)
    (ids : List EntityId) :
    Leaves event args ids w (w.sendEach event args ids) := by
  induction ids generalizing w with
  | nil => exact ⟨rfl, hw, List.prefix_refl _, fun _ hid => (List.not_mem_nil hid).elim,
      fun _ hx => .inl hx⟩
  | cons id ids ih =>
    have hsent : (w.send ⟨id, event, args⟩).2.queue.Valid := hw.send _
    have hgrown : w.queue.pending <+: (w.send ⟨id, event, args⟩).2.queue.pending :=
      Queue.pending_prefix_send _ _ _ _
    have hrest := ih hsent
    refine ⟨hrest.others, hrest.valid, hgrown.trans hrest.grown, ?_, ?_⟩
    · intro x hx
      rcases List.mem_cons.mp hx with rfl | hx
      · exact (Queue.awaits_send _ _ _ _).mono hrest.grown
      · exact hrest.awaits x hx
    · intro x hx
      rcases hrest.brought x hx with hone | ⟨id', hid', hbrings⟩
      · refine (Queue.brings_of_added hw hone).imp_right ?_
        exact fun hbrings => ⟨id, List.mem_cons_self, hbrings⟩
      · exact .inr ⟨id', List.mem_cons_of_mem _ hid', hbrings.of_grown hgrown⟩

/-- What was added is what the entities' messages bring. -/
theorem Leaves.added {w w' : World} {ids : List EntityId} (h : Leaves event args ids w w') :
    ∃ added, w'.queue.pending = w.queue.pending ++ added ∧
      ∀ x ∈ added, ∃ id ∈ ids, w.queue.Brings w.table w.subscriptions ⟨id, event, args⟩ x := by
  obtain ⟨added, hadded⟩ := h.grown
  refine ⟨added, hadded.symm, fun x hx => ?_⟩
  have hnew := Queue.not_awaits_of_added h.valid hadded.symm x hx
  refine (h.brought x ?_).resolve_left fun hold => hnew ⟨x, hold, x.same_refl⟩
  rw [← hadded]
  exact List.mem_append_right _ hx

/-! ## Sending to the whole table -/

section Whole

variable {w : World} (event : String) (args : List Value)

theorem offerAll_ids (htable : w.table.Valid) : w.offerAll w.table.ids event args =
    ((w.offerings event args w.table.entities).filterMap fun o => o.incident? event args,
      w.sendEach event args ((w.table.handlers event).map Entity.id)) :=
  offerAll_entities event args fun _ he => htable.get?_id he

theorem offerAll_leaves (htable : w.table.Valid) (hqueue : w.queue.Valid) :
    Leaves event args ((w.table.handlers event).map Entity.id) w
      (w.offerAll w.table.ids event args).2 := by
  rw [offerAll_ids event args htable]
  exact sendEach_leaves event args hqueue _

theorem offerAll_adds (htable : w.table.Valid) (hqueue : w.queue.Valid) :
    ∃ added, (w.offerAll w.table.ids event args).2.queue.pending = w.queue.pending ++ added ∧
      ∀ x ∈ added, ∃ e ∈ w.table.handlers event,
        w.queue.Brings w.table w.subscriptions ⟨e.id, event, args⟩ x := by
  obtain ⟨added, hadded, hbrought⟩ := (offerAll_leaves event args htable hqueue).added
  refine ⟨added, hadded, fun x hx => ?_⟩
  obtain ⟨id, hid, hbrings⟩ := hbrought x hx
  obtain ⟨e, he, rfl⟩ := List.mem_map.mp hid
  exact ⟨e, he, hbrings⟩

variable {event args}

/-- What an entity's message brings is for entities of the table. -/
theorem target_of_brings {e : Entity} {x : Message} (he : e ∈ w.table.entities)
    (h : w.queue.Brings w.table w.subscriptions ⟨e.id, event, args⟩ x) :
    x.target ∈ w.table.ids := by
  rcases h.reached.live with rfl | hlive
  · exact List.mem_map_of_mem he
  · obtain ⟨e', he', _⟩ := Table.isLive_iff.mp hlive
    obtain ⟨hmem, hfound⟩ := Table.mem_of_get? he'
    rw [← hfound]
    exact List.mem_map_of_mem hmem

/-- It is for no copy that is made later, because a copy gets an identity that was not used. -/
theorem copy_not_brought (htable : w.table.Valid) {e : Entity} {x : Message}
    (he : e ∈ w.table.entities)
    (h : w.queue.Brings w.table w.subscriptions ⟨e.id, event, args⟩ x) {c : Entity}
    (hc : w.table.IsCopy c) : x.target ≠ c.id := by
  intro htarget
  have hbelow := htable.below _ (target_of_brings he h)
  have hfresh := hc.fresh
  rw [htarget] at hbelow
  omega

end Whole

/-! ## The pulse -/

/-- Running events leave the settings alone. -/
theorem settings_kept (s : Settings) : Kept fun w => w.settings = s where
  change := by
    intro w w' hc hw
    cases hc <;> exact hw
  pop := fun _ _ _ _ hw => hw
  report := fun _ _ hw => hw

/-- A pulse sends, drains and sweeps. -/
theorem pulse_eq (w : World) (budget : Nat) (elapsed : Float) :
    let sent := w.offerAll w.table.ids w.settings.tickEvent [.number elapsed]
    let drained := sent.2.drain budget
    w.pulse budget elapsed = (⟨drained.1.processed, sent.1 ++ drained.1.incidents⟩,
      if w.settings.sweepAfterPulse then drained.2.sweep.2 else drained.2) := by
  intro sent drained
  have hsettings : drained.2.settings = w.settings :=
    (settings_kept w.settings).broadcast budget w.table.ids _ _ rfl
  have hpulse : w.pulse budget elapsed =
      if drained.2.settings.sweepAfterPulse then
        (⟨drained.1.processed, sent.1 ++ drained.1.incidents⟩, drained.2.sweep.2)
      else (⟨drained.1.processed, sent.1 ++ drained.1.incidents⟩, drained.2) := rfl
  rw [hpulse, hsettings]
  split <;> rfl

theorem pulse_queue (w : World) (budget : Nat) (elapsed : Float) :
    (w.pulse budget elapsed).2.queue =
      (w.broadcast budget w.table.ids w.settings.tickEvent [.number elapsed]).2.queue := by
  rw [pulse_eq]
  dsimp only
  split <;> rfl

/-- A drain that stops before its budget is used up leaves nothing waiting. -/
theorem drain_idle {w : World} {budget : Nat} (h : (w.drain budget).1.processed < budget) :
    (w.drain budget).2.queue.pending = [] := by
  refine drainFrom_idle budget {} w ?_
  rw [drain, drainFrom_report, Nat.zero_add] at h
  exact h

/-- **A pulse delivers each tick exactly once.** Just before the pulse drains, each entity that is
live and handles the tick has exactly one tick with the time passed waiting, whichever of the
sendings ended in a fault. All that was added to the queue by then is such a tick or reached from
one by telling live subscribers, and nothing of it is for an entity that the drain adds to the
table. The report has the faults of the sendings, in the order of the table, and then those of the
drain. When the drain ends nothing is waiting, and if the settings say so, no pool has a reference
to an entity that is not live. -/
theorem pulse_ticks_once (w : World) (htable : w.table.Valid) (hqueue : w.queue.Valid)
    (budget : Nat) (elapsed : Float) :
    let tick := w.settings.tickEvent
    let args : List Value := [.number elapsed]
    let ready := (w.offerAll w.table.ids tick args).2
    let offerings := w.offerings tick args w.table.entities
    let drained := ready.drain budget
    let pulsed := w.pulse budget elapsed
    ready = { w with queue := ready.queue } ∧
    (∀ e ∈ w.table.handlers tick,
      ready.queue.pending.countP (fun m => m.same ⟨e.id, tick, args⟩) = 1) ∧
    (∃ added, ready.queue.pending = w.queue.pending ++ added ∧
      (∀ x ∈ added, ∃ e ∈ w.table.handlers tick,
        w.queue.Brings w.table w.subscriptions ⟨e.id, tick, args⟩ x) ∧
      ∀ (i : Nat) c, w.table.entities.length ≤ i → drained.2.table.entities[i]? = some c →
        ∀ x ∈ added, x.target ≠ c.id) ∧
    offerings.map Offering.entity = w.table.handlers tick ∧
    pulsed.1 = ⟨drained.1.processed,
      (offerings.filterMap fun o => o.incident? tick args) ++ drained.1.incidents⟩ ∧
    pulsed.2 = (if w.settings.sweepAfterPulse then drained.2.sweep.2 else drained.2) ∧
    (pulsed.1.processed < budget → pulsed.2.queue.pending = []) ∧
    (w.settings.sweepAfterPulse = true →
      ∀ id ∈ pulsed.2.table.references, pulsed.2.table.isLive id = true) := by
  intro tick args ready offerings drained pulsed
  have hleft : Leaves tick args ((w.table.handlers tick).map Entity.id) w ready :=
    offerAll_leaves tick args htable hqueue
  obtain ⟨added, hadded, hbrought⟩ := offerAll_adds tick args htable hqueue
  have hgrown : w.table.GrowsTo drained.2.table :=
    ((shape_kept htable).broadcast budget w.table.ids tick args ⟨htable, .refl w.table⟩).2
  have hpulsed : pulsed = _ := w.pulse_eq budget elapsed
  refine ⟨hleft.others, ?_, ⟨added, hadded, hbrought, ?_⟩, w.offerings_entities _, ?_, ?_, ?_, ?_⟩
  · intro e he
    exact hleft.valid.countP_same (hleft.awaits e.id (List.mem_map_of_mem he))
  · intro i c hi hc x hx
    obtain ⟨e, he, hbrings⟩ := hbrought x hx
    exact copy_not_brought htable (List.mem_of_mem_filter he) hbrings (hgrown.added i c hi hc)
  · have hfaults := congrArg Prod.fst (offerAll_ids tick args htable)
    rw [hpulsed, hfaults]
  · rw [hpulsed]
  · intro hlt
    rw [hpulsed] at hlt
    exact (congrArg Queue.pending (w.pulse_queue budget elapsed)).trans (drain_idle hlt)
  · intro hsweep
    rw [hpulsed]
    simp only [hsweep, if_true]
    exact drained.2.sweep_swept.clean

/-- A drum, a destroyed copy of it in its pool, and a live copy that is told when a drum is ticked.
Somebody else wants to hear it too, with arguments that end in a fault; and a drum that is ticked
makes a copy of itself. -/
def orchestra : World where
  table :=
    let drum : Event := ⟨"tick", ["dt"], [.emit (.named "young") "add" [.literal (.string "Drum")]]⟩
    ⟨[⟨⟨0⟩, "Drum", .ofList [("young", .pool [.entity ⟨1⟩])], ⟨[drum]⟩, false⟩,
      ⟨⟨1⟩, "Drum", .ofList [("young", .pool [])], ⟨[drum]⟩, true⟩,
      ⟨⟨2⟩, "Drum", .ofList [("young", .pool [])], ⟨[drum]⟩, false⟩,
      ⟨⟨3⟩, "Ear", .empty, ⟨[]⟩, false⟩],
      .ofList [("Drum", ⟨0⟩), ("Ear", ⟨3⟩)], 4⟩
  subscriptions := .ofList [(("Drum", "tick"),
    [⟨⟨2⟩, "tick", none⟩, ⟨⟨3⟩, "hear", some [.var "nowhere"]⟩])]
  settings := { sweepAfterPulse := true }

theorem orchestra_valid : orchestra.table.Valid where
  increasing := by decide
  below := by decide
  indexed := by
    intro name id hid
    have hfound : (if "Drum" = name then some (⟨0⟩ : EntityId)
        else if "Ear" = name then some ⟨3⟩ else none) = some id := hid
    split at hfound
    · cases hfound
      exact ⟨_, rfl, ‹_›⟩
    · split at hfound
      · cases hfound
        exact ⟨_, rfl, ‹_›⟩
      · cases hfound

/-- The first sending brings the tick of the live copy and ends in a fault. -/
theorem pulse_ticks_once_orchestra :
    let tick := orchestra.settings.tickEvent
    let args : List Value := [.number Number.nan]
    let ready := (orchestra.offerAll orchestra.table.ids tick args).2
    let pulsed := orchestra.pulse 5 Number.nan
    orchestra.table.Valid ∧ orchestra.queue.Valid ∧
    (orchestra.table.handlers tick).map Entity.id = [⟨0⟩, ⟨2⟩] ∧
    (∀ e ∈ orchestra.table.handlers tick,
      ready.queue.pending.countP (fun m => m.same ⟨e.id, tick, args⟩) = 1) ∧
    pulsed.1.incidents = [⟨"Drum", "tick", .unresolvedVariable "nowhere" "hear" "Ear"⟩] ∧
    pulsed.2.table.ids = [⟨0⟩, ⟨1⟩, ⟨2⟩, ⟨3⟩, ⟨4⟩, ⟨5⟩] ∧
    pulsed.2.queue.pending = [] ∧
    (∀ id ∈ pulsed.2.table.references, pulsed.2.table.isLive id = true) := by
  obtain ⟨_, honce, _, _, _, _, hidle, hclean⟩ :=
    pulse_ticks_once orchestra orchestra_valid Queue.empty_valid 5 Number.nan
  have hprocessed : (orchestra.pulse 5 Number.nan).1.processed < 5 := by decide +kernel
  refine ⟨orchestra_valid, Queue.empty_valid, rfl, honce, ?_, ?_, hidle hprocessed, hclean rfl⟩
  · decide +kernel
  · decide +kernel

end World

end EntityScript
