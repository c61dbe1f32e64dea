import EntityScript.Proofs.Call.Termination
import EntityScript.Proofs.Dispatch.Faults
import EntityScript.Proofs.Drain.Order

/-! # Which faults a drain reports

While an event is carried out, the entities at work are in the table: the one whose event
runs, the one that is being called, and those that wait for results (`Machine.Sound`). A message
for an entity that is gone is passed over, whoever is called was found in the table just before,
and no action takes anybody out of it. So a fault that a step raises is an ordinary one, or the
action that is carried out names somebody who is not declared (`Machine.step_fine`), and only
such faults are in the report of a drain (`World.drain_faults_known`). -/

namespace EntityScript

/-! ## Actions -/

/-- Behind a computation that changes nothing, the rest starts in the same state. -/
theorem Run.Reads.faults {α β : Type} {P : Fault → Prop} {w : World} {x : Run α} {k : α → Run β}
    (hreads : x.Reads) (hx : x.Faults P w) (hk : ∀ a, (k a).Faults P w) :
    (x >>= k).Faults P w := by
  refine .bind hx fun a w' hr => ?_
  have hsame := hreads w
  rw [hr] at hsame
  obtain rfl : w' = w := hsame
  exact hk a

theorem Run.bind_eq_ok {α β : Type} {x : Run α} {k : α → Run β} {w w' : World} {b : β}
    (h : (x >>= k) w = (.ok b, w')) : ∃ a w₁, x w = (.ok a, w₁) ∧ k a w₁ = (.ok b, w') := by
  rw [Run.bind_apply] at h
  match hr : x w with
  | (.ok a, w₁) =>
    rw [hr] at h
    exact ⟨a, w₁, rfl, h⟩
  | (.error fault, w₁) =>
    rw [hr] at h
    cases h

section Actions

variable {w : World} {f : Frame}

theorem Frame.store_ordinary (h : w.Houses f.entity) (slot : Slot) (v : Value) :
    (f.store slot v).Ordinary w := by
  cases slot with
  | named field => exact .bind (Frame.assign_ordinary h field v) fun _ _ _ => .pure _
  | indexed pool index =>
    exact .bind (Frame.eval_ordinary h index) fun i _ _ =>
      .lift (i.toIndex_ordinary pool) fun _ _ =>
      .bind (Frame.assignIndexed_ordinary _ _ _) fun _ _ _ => .pure _

theorem Frame.store_entity (f : Frame) (slot : Slot) (v : Value) :
    (f.store slot v).Yields fun f' => f'.entity = f.entity := by
  cases slot with
  | named field => exact .bind (f.assign_entity field v) fun _ hf => Run.yields_pure hf
  | indexed pool index => exact .last fun _ => .last fun _ => .last fun _ => Run.yields_pure rfl

theorem Frame.test_ordinary (h : w.Houses f.entity) (condition : Expr) :
    (f.test condition).Ordinary w :=
  .bind (Frame.eval_ordinary h condition) fun v _ _ => .last v.condition_ordinary

theorem Frame.prepare_known (h : w.Houses f.entity) (target : Target) (args : List Expr) :
    (f.prepare target args).Faults (Fault.Known (target.Uncallable w.table)) w :=
  (f.evalAll_reads args).faults ((Frame.evalAll_ordinary h args).known _) fun _ =>
    .bind (Frame.callee_known target) fun _ _ _ => .pure _

theorem Frame.prepare_found (h : w.Houses f.entity) {target : Target} {args : List Expr}
    {callee : EntityId} {vs : List Value} {w' : World}
    (hp : f.prepare target args w = (.ok (callee, vs), w')) : w'.Houses callee := by
  obtain ⟨vs₁, w₁, hvs, hrest⟩ := Run.bind_eq_ok hp
  obtain ⟨id, w₂, hcallee, hlast⟩ := Run.bind_eq_ok hrest
  have hsame := f.evalAll_reads args w
  rw [hvs] at hsame
  obtain rfl : w₁ = w := hsame
  obtain ⟨⟨⟩, ⟨⟩⟩ := Prod.mk.inj hlast
  exact Frame.callee_found h hcallee

theorem Frame.evalEach_reads (f : Frame) (es : List Expr) : (f.evalEach es).Reads := by
  induction es with
  | nil => exact fun _ => rfl
  | cons e es ih => exact .get fun w => .bind (Run.reads_lift _) fun _ => .bind ih fun _ _ => rfl

theorem Frame.emits_known (h : w.Houses f.entity) {values : Run (List Value)}
    (hreads : values.Reads) (hvalues : values.Ordinary w) (target : Target) (event : String) :
    Run.Faults (Fault.Known (target.Unknown w.table))
      (do let vs ← values; return (← f.emit target event vs, Progress.goOn) : Run _) w :=
  hreads.faults (hvalues.known _) fun vs =>
    .bind (Frame.emit_known h target event vs) fun _ _ _ => .pure _

/-- An action without calls ends in ordinary faults, or names somebody who is not declared. -/
theorem Frame.execute_known (call : Call) (h : w.Houses f.entity) {a : Action}
    (ha : a.isSimple = true) :
    (f.execute call a).Faults (Fault.Known (a.Misses w.table)) w := by
  cases a with
  | set value name =>
    rw [Frame.execute]
    refine Run.Faults.known ?_ _
    exact h.bind (Frame.eval_ordinary h value) (f.eval_stepwise value) fun v _ h' =>
      .bind (Frame.assign_ordinary h' name v) fun _ _ _ => .pure _
  | setIndexed value pool index =>
    rw [Frame.execute]
    refine Run.Faults.known ?_ _
    exact h.bind (Frame.eval_ordinary h value) (f.eval_stepwise value) fun v _ h' =>
      .bind (Frame.eval_ordinary h' index) fun i _ _ =>
      .lift (i.toIndex_ordinary pool) fun _ _ =>
      .bind (Frame.assignIndexed_ordinary _ _ _) fun _ _ _ => .pure _
  | guard condition =>
    rw [Frame.execute]
    refine Run.Faults.known ?_ _
    exact .bind (Frame.eval_ordinary h condition) fun v _ _ =>
      .lift v.condition_ordinary fun _ _ => .pure _
  | emit target event args =>
    rw [Frame.execute]
    dsimp only
    split
    · exact Frame.emits_known h (f.evalEach_reads args) (Frame.evalEach_ordinary h args) _ _
    · exact Frame.emits_known h (f.evalAll_reads args) (Frame.evalAll_ordinary h args) _ _
  | subscribe target event handler args =>
    rw [Frame.execute]
    exact .bind (Run.changeSubscriptions_returns (Subscriptions.subscribe_usage args) _)
      fun _ _ _ => .pure _
  | unsubscribe target event handler =>
    rw [Frame.execute]
    exact .bind (Run.changeSubscriptions_returns Subscriptions.unsubscribe_usage _)
      fun _ _ _ => .pure _
  | block | check | call | callIndexed => cases ha

theorem Event.bind_ordinary (e : Event) (settings : Settings) (args : List Value) :
    Ordinary (e.bind settings args) := by
  unfold Event.bind
  dsimp only
  split
  · exact .error rfl
  · exact .ok _

end Actions

/-! ## Those at work -/

/-- The table is in order, and some entities are in it. -/
structure World.HousesAll (w : World) (ids : List EntityId) : Prop where
  valid : w.table.Valid
  present : ∀ id ∈ ids, w.table.contains id = true

namespace World.HousesAll

variable {w w' : World} {id : EntityId} {ids : List EntityId}

theorem mem (h : w.HousesAll ids) (hid : id ∈ ids) : w.Houses id := ⟨h.valid, h.present id hid⟩

theorem head (h : w.HousesAll (id :: ids)) : w.Houses id := h.mem List.mem_cons_self

theorem tail (h : w.HousesAll (id :: ids)) : w.HousesAll ids :=
  ⟨h.valid, fun x hx => h.present x (List.mem_cons_of_mem _ hx)⟩

theorem cons (hid : w.Houses id) (h : w.HousesAll ids) : w.HousesAll (id :: ids) :=
  ⟨h.valid, List.forall_mem_cons.mpr ⟨hid.present, h.present⟩⟩

theorem changes (h : w.HousesAll ids) (hc : World.Changes w w') : w'.HousesAll ids :=
  ⟨(hc.keeps (World.shape_kept h.valid).change ⟨h.valid, .refl _⟩).1,
    fun _ hid => ((h.mem hid).changes hc).present⟩

end World.HousesAll

/-- The entity whose event is carried out or is about to be. -/
def Activity.entity? : Activity → Option EntityId
  | .running f _ => some f.entity
  | .entering target _ _ _ => some target
  | .ended _ => none

/-- The event that is carried out. -/
def Activity.frame? : Activity → Option Frame
  | .running f _ => some f
  | .entering .. => none
  | .ended _ => none

/-- The event that waits for a result. -/
def Waiter.frame? : Waiter → Option Frame
  | .host => none
  | .event f _ _ => some f

def Waiter.entity? (who : Waiter) : Option EntityId := who.frame?.map Frame.entity

namespace Machine

theorem housesAll_waiting {w : World} {who : Waiter} {waiting : List Waiter}
    (h : w.HousesAll ((who :: waiting).filterMap Waiter.entity?)) :
    w.HousesAll (waiting.filterMap Waiter.entity?) := by
  cases who with
  | host => exact h
  | event f slot rest => exact h.tail

/-- The entities at work. -/
def entities (c : Machine) : List EntityId :=
  c.activity.entity?.toList ++ c.waiting.filterMap Waiter.entity?

/-- The events that are carried out or wait for a result. -/
def frames (c : Machine) : List Frame :=
  c.activity.frame?.toList ++ c.waiting.filterMap Waiter.frame?

theorem entity_of_frame {c : Machine} {f : Frame} (h : f ∈ c.frames) : f.entity ∈ c.entities := by
  rcases List.mem_append.mp h with hactive | hwaiting
  · refine List.mem_append_left _ ?_
    obtain ⟨w, activity, waiting⟩ := c
    cases activity with
    | running g actions =>
      rw [List.mem_singleton.mp hactive]
      exact List.mem_singleton_self _
    | entering | ended => cases hactive
  · refine List.mem_append_right _ ?_
    obtain ⟨who, hwho, hf⟩ := List.mem_filterMap.mp hwaiting
    exact List.mem_filterMap.mpr ⟨who, hwho, by rw [Waiter.entity?, hf]; rfl⟩

/-- The table is in order, and the entities at work are in it. -/
def Sound (c : Machine) : Prop := c.world.HousesAll c.entities

/-- The action that is carried out names somebody who is not declared. -/
def Blames (c : Machine) (name : String) : Prop :=
  ∃ f a rest, c.activity = .running f (a :: rest) ∧ a.Misses c.world.table name

/-- The machine is sound, and if it has come upon a fault, it is a known one. -/
structure Fine (misses : String → Prop) (c : Machine) : Prop where
  sound : c.Sound
  known : ∀ fault, c.activity = .ended (.error fault) → fault.Known misses

section Steps

variable {w : World} {waiting : List Waiter} {misses : String → Prop}

theorem Fine.running {f : Frame} (h : w.HousesAll (f.entity :: waiting.filterMap Waiter.entity?))
    (actions : List Action) : Fine misses ⟨w, .running f actions, waiting⟩ :=
  ⟨h, fun _ hended => Activity.noConfusion hended⟩

theorem Fine.returned (h : w.HousesAll (waiting.filterMap Waiter.entity?)) (v : Value) :
    Fine misses ⟨w, .ended (.ok v), waiting⟩ := by
  refine ⟨h, fun fault hended => ?_⟩
  cases hended

theorem Fine.faulted (h : w.HousesAll (waiting.filterMap Waiter.entity?)) {fault : Fault}
    (hfault : fault.Known misses) : Fine misses ⟨w, .ended (.error fault), waiting⟩ := by
  refine ⟨h, fun raised hended => ?_⟩
  cases hended
  exact hfault

theorem proceed_fine {α : Type} {next : α → World → Machine} {r : Run α} (hs : r.Stepwise w)
    (hr : r.Faults (Fault.Known misses) w) (h : w.HousesAll (waiting.filterMap Waiter.entity?))
    (hnext : ∀ a w', r w = (.ok a, w') → World.Changes w w' → (next a w').Fine misses) :
    (proceed waiting next (r w)).Fine misses := by
  have hend : World.Changes w (r w).2 := hs
  unfold Run.Faults at hr
  match hrw : r w with
  | (.ok a, w') =>
    rw [hrw] at hend
    exact hnext a w' hrw hend
  | (.error fault, w') =>
    rw [hrw] at hend hr
    exact .faulted (h.changes hend) (hr fault rfl)

theorem issue_fine (who : Waiter) {target : EntityId} (ht : w.Houses target)
    (h : w.HousesAll ((who :: waiting).filterMap Waiter.entity?)) (event : String)
    (args : List Value) : (issue who waiting target event args w).Fine misses := by
  obtain ⟨e, he⟩ := ht.found
  have hall := World.HousesAll.cons ht h
  unfold issue
  rw [he]
  dsimp only
  split
  · exact .faulted (housesAll_waiting h) (.inl rfl)
  · exact ⟨⟨hall.valid, hall.present⟩, fun _ hended => Activity.noConfusion hended⟩

theorem request_fine {f : Frame} (h : w.HousesAll (f.entity :: waiting.filterMap Waiter.entity?))
    (slot : Slot) (rest : List Action) (target : Target) (event : String) (args : List Expr) :
    (request f slot rest waiting target event args w).Fine (target.Uncallable w.table) :=
  proceed_fine (f.prepare_stepwise target args) (Frame.prepare_known h.head target args) h.tail
    fun _ _ hp hc =>
      issue_fine (.event f slot rest) (Frame.prepare_found h.head hp) (h.changes hc) _ _

theorem resume_fine {f : Frame} (h : w.HousesAll (f.entity :: waiting.filterMap Waiter.entity?))
    (rest : List Action) {a : Action} (ha : a.isSimple = true) :
    (resume rest waiting (f.execute Call.refuse a w)).Fine (a.Misses w.table) := by
  refine proceed_fine (f.execute_stepwise Call.refuse_stepwise a)
    (Frame.execute_known Call.refuse h.head ha) h.tail ?_
  rintro ⟨f', progress⟩ w' hr hc
  have hentity : f'.entity = f.entity := f.execute_entity Call.refuse a w _ w' hr
  have hhoused := h.changes hc
  rw [← hentity] at hhoused
  cases progress with
  | goOn => exact .running hhoused rest
  | halt => exact .returned hhoused.tail f'.last

theorem perform_fine {f : Frame} (h : w.HousesAll (f.entity :: waiting.filterMap Waiter.entity?))
    (rest : List Action) (a : Action) :
    (perform f rest waiting w a).Fine (a.Misses w.table) := by
  cases a with
  | block body => exact .running h _
  | check condition body =>
    exact proceed_fine (f.test_stepwise condition) ((Frame.test_ordinary h.head condition).known _)
      h.tail fun _ _ _ hc => .running (h.changes hc) _
  | call target event args field => exact request_fine h _ rest target event args
  | callIndexed target event args pool index => exact request_fine h _ rest target event args
  | emit | guard | set | setIndexed | subscribe | unsubscribe => exact resume_fine h rest rfl

theorem enter_fine {entity : EntityId}
    (h : w.HousesAll (entity :: waiting.filterMap Waiter.entity?)) (e : Event)
    (settings : Settings) (args : List Value) :
    Fine misses ⟨w, e.enter settings entity args, waiting⟩ := by
  unfold Event.enter
  cases hbind : e.bind settings args with
  | error fault => exact .faulted h.tail (.inl (e.bind_ordinary settings args fault hbind))
  | ok locals => exact .running h e.body

theorem answer_fine {who : Waiter} (h : w.HousesAll ((who :: waiting).filterMap Waiter.entity?))
    (v : Value) : (answer who waiting (.ok v, w)).Fine misses := by
  cases who with
  | host => exact Fine.returned (housesAll_waiting h) v
  | event f slot rest =>
    have hf : w.HousesAll (f.entity :: waiting.filterMap Waiter.entity?) := h
    have hstored : Fine misses (proceed waiting (fun f' w' => ⟨w', .running f' rest, waiting⟩)
        (f.store slot v w)) := by
      refine proceed_fine (f.store_stepwise slot v)
        ((Frame.store_ordinary hf.head slot v).known _) hf.tail fun f' w' hr hc => ?_
      have hentity : f'.entity = f.entity := f.store_entity slot v w f' w' hr
      have hhoused := hf.changes hc
      rw [← hentity] at hhoused
      exact .running hhoused rest
    exact hstored

end Steps

theorem Fine.mono {misses misses' : String → Prop} {c : Machine} (h : c.Fine misses)
    (hmisses : ∀ name, misses name → misses' name) : c.Fine misses' :=
  ⟨h.sound, fun fault hfault => (h.known fault hfault).mono hmisses⟩

/-- A step leaves the entities at work in the table. Unless it hands on a fault, it raises an
ordinary one or none, or its action names somebody who is not declared. -/
theorem step_fine {c c' : Machine} (h : c.step = some c') (hc : c.Sound) :
    c'.Fine c.Blames ∨ (c'.Sound ∧ c'.activity = c.activity) := by
  obtain ⟨w, activity, waiting⟩ := c
  match activity, waiting with
  | .running f [], waiting =>
    cases h
    exact .inl (.returned (World.HousesAll.tail hc) f.last)
  | .running f (a :: rest), waiting =>
    cases h
    refine .inl ((perform_fine hc rest a).mono fun name hmisses => ?_)
    exact ⟨f, a, rest, rfl, hmisses⟩
  | .entering target e event args, waiting =>
    simp only [step] at h
    split at h
    · cases h
      exact .inl (.faulted (World.HousesAll.tail hc) (.inl rfl))
    · rename_i handler _
      cases h
      exact .inl (enter_fine hc handler w.settings args)
  | .ended (.error fault), who :: waiting =>
    cases h
    have hrest := housesAll_waiting hc
    exact .inr ⟨⟨hrest.valid, hrest.present⟩, rfl⟩
  | .ended (.ok v), who :: waiting =>
    cases h
    have hall : World.HousesAll { w with calling := false }
      ((who :: waiting).filterMap Waiter.entity?) := ⟨hc.valid, hc.present⟩
    exact .inl (answer_fine hall v)

theorem step_sound {c c' : Machine} (h : c.step = some c') (hc : c.Sound) : c'.Sound :=
  (step_fine h hc).elim Fine.sound And.left

/-! ## Runs -/

theorem reaches_sound {c d : Machine} (h : Reaches c d) (hc : c.Sound) : d.Sound := by
  induction h with
  | refl => exact hc
  | tail _ hstep ih => exact step_sound hstep ih

/-- On the way from `c`, a step ends in the fault while its action names somebody who is not
declared. -/
def Raises (c : Machine) (fault : Fault) (name : String) : Prop :=
  ∃ d d', Reaches c d ∧ d.step = some d' ∧ d'.activity = .ended (.error fault) ∧ d.Blames name

/-- A fault in which a run ends is raised by one of its steps. -/
theorem reaches_fault {c d : Machine} (h : Reaches c d) (hc : c.Sound) {fault : Fault}
    (hd : d.activity = .ended (.error fault)) :
    c.activity = .ended (.error fault) ∨ fault.Known (c.Raises fault) := by
  induction h with
  | refl => exact .inl hd
  | tail hreaches hstep ih =>
    rcases step_fine hstep (reaches_sound hreaches hc) with hfine | ⟨_, hsame⟩
    · refine .inr ((hfine.known fault hd).mono fun name hblames => ?_)
      exact ⟨_, _, hreaches, hstep, hd, hblames⟩
    · exact ih (hsame ▸ hd)

/-- A message is handled for an entity that is in the table, or passed over. -/
theorem handling_fine {w : World} (hw : w.table.Valid) (m : Message) :
    (handling m w).Fine fun _ => False := by
  have hnone : w.HousesAll (([] : List Waiter).filterMap Waiter.entity?) :=
    ⟨hw, fun _ hid => absurd hid List.not_mem_nil⟩
  unfold handling
  split
  · exact .returned hnone _
  · rename_i event hevent
    obtain ⟨e, he, _⟩ := Option.bind_eq_some_iff.mp hevent
    have hfound : w.Houses m.target := ⟨hw, by rw [Table.contains, he]; rfl⟩
    exact enter_fine (.cons hfound hnone) event w.settings m.args

end Machine

/-! ## Turns -/

/-- What running events keep holds at the start of every turn. -/
theorem World.KeptBy.turns {C : World → World → Prop} [World.Licensed C] {P : World → Prop}
    (hP : World.KeptBy C P) {w : World} (hw : P w) (budget : Nat) :
    ∀ t ∈ w.turns budget, P t.start := by
  induction budget generalizing w with
  | zero => exact nofun
  | succ budget ih =>
    intro t ht
    cases hturn : w.turn? with
    | none =>
      rw [turns_none hturn] at ht
      cases ht
    | some first =>
      rw [turns_some hturn] at ht
      rcases List.mem_cons.mp ht with rfl | hlater
      · obtain ⟨⟨m, rest⟩, hpop, rfl⟩ := Option.map_eq_some_iff.mp hturn
        exact hP.pop w m rest hpop hw
      · have hstep : w.step = some (first.incident?, first.finish) := by rw [step_eq, hturn]; rfl
        exact ih (hP.step hstep hw) t hlater

namespace Turn

variable {t : Turn}

theorem outcome_missing (h : t.start.table.get? t.message.target = none) :
    t.outcome = (.ok (), t.start) := by
  unfold outcome Message.handle
  rw [Run.get_bind_apply, h]
  rfl

theorem error_of_incident {i : Incident} (h : t.incident? = some i) :
    t.outcome.1 = .error i.fault := by
  unfold incident? at h
  split at h
  · cases h
  · rename_i hr
    cases h
    rw [hr]

/-- The fault of a turn is an ordinary one, or it is raised by an action that names somebody who
is not declared. -/
theorem fault_known (ht : t.start.table.Valid) {fault : Fault} (h : t.outcome.1 = .error fault) :
    fault.Known ((Machine.handling t.message t.start).Raises fault) := by
  obtain ⟨r, hreaches, hr⟩ := Machine.handling_reaches t.message t.start
  have hfault : r = .error fault := by
    rw [outcome, hr] at h
    cases r <;> cases h
    rfl
  obtain ⟨hsound, hknown⟩ := Machine.handling_fine ht t.message
  rcases Machine.reaches_fault hreaches hsound (congrArg Activity.ended hfault) with hstart | hrun
  · exact (hknown fault hstart).mono fun _ => False.elim
  · exact hrun

end Turn

/-- What a known fault is not. -/
theorem Fault.Known.proper {misses : String → Prop} {fault : Fault} (h : fault.Known misses) :
    fault.isUsage = false ∧ (∀ name, fault ≠ .duplicateEntity name) ∧ fault ≠ .badSettings ∧
      ∀ command pool, fault ≠ .poolCommand command pool .needsDelivery := by
  have hraised : fault.isOrdinary = true ∨ ∃ name, fault = .entityNotFound name :=
    h.imp_right fun ⟨name, hname, _⟩ => ⟨name, hname⟩
  refine ⟨?_, ?_, ?_, ?_⟩
  · cases fault <;> first | rfl | simp [Fault.isOrdinary] at hraised
  all_goals
    intros
    rintro rfl
    simp [Fault.isOrdinary] at hraised

theorem Fault.Known.missing {misses : String → Prop} {name : String}
    (h : (Fault.entityNotFound name).Known misses) : misses name := by
  rcases h with hordinary | ⟨_, ⟨⟩, hmisses⟩
  · cases hordinary
  · exact hmisses

/-- **A drain reports what programs do wrong, and nothing else.** The table being in order, no
incident of a drain is a wrong use of subscriptions, a name declared twice, a refusal of settings
or a pool that is asked to send messages. That an entity is missing is reported only where the
target written in an action that emits or calls cannot be resolved. Nowhere else can an entity be
missing, whoever was discarded before the drain: a message for somebody who is gone is passed
over; and in every state in which a turn carries out an action, the entities whose events run or
wait are there to be read and assigned to, whoever is found to be called is there, and so is
whoever is to be copied. -/
theorem World.drain_faults_known (w : World) (hw : w.table.Valid) (budget : Nat) :
    (∀ i ∈ (w.drain budget).1.incidents,
      i.fault.isUsage = false ∧ (∀ name, i.fault ≠ .duplicateEntity name) ∧
      i.fault ≠ .badSettings ∧
      (∀ command pool, i.fault ≠ .poolCommand command pool .needsDelivery) ∧
      ∀ name, i.fault = .entityNotFound name → ∃ t ∈ w.turns budget, t.incident? = some i ∧
        ∃ c c', (Machine.handling t.message t.start).Reaches c ∧ c.step = some c' ∧
          c'.activity = .ended (.error i.fault) ∧ c.Blames name) ∧
    ∀ t ∈ w.turns budget,
      (t.start.table.get? t.message.target = none → t.outcome = (.ok (), t.start)) ∧
      (∃ r, (Machine.handling t.message t.start).Reaches ⟨t.outcome.2, .ended r, []⟩ ∧
        t.outcome.1 = r.map fun _ => ()) ∧
      ∀ c, (Machine.handling t.message t.start).Reaches c →
        ∀ w', World.Changes c.world w' →
          (∀ f ∈ c.frames, (∃ context, f.context w'.table = .ok context) ∧
            (∀ name v, ∃ f', (f.assign name v w').1 = .ok f') ∧
            ∀ target callee w'', f.callee target w' = (.ok callee, w'') →
              w''.table.contains callee = true) ∧
          ∀ args source, w'.table.named? args = some source →
            ∃ id, (w'.table.copy source).1 = .ok id := by
  have hvalid : ∀ t ∈ w.turns budget, t.start.table.Valid := fun t ht =>
    ((World.shape_kept hw).turns ⟨hw, .refl _⟩ budget t ht).1
  constructor
  · intro i hi
    rw [World.drain, World.drainFrom_report, List.nil_append] at hi
    obtain ⟨t, ht, hincident⟩ := List.mem_filterMap.mp hi
    have hknown := Turn.fault_known (hvalid t ht) (Turn.error_of_incident hincident)
    obtain ⟨husage, hduplicate, hsettings, hdelivery⟩ := hknown.proper
    refine ⟨husage, hduplicate, hsettings, hdelivery, fun name hname => ?_⟩
    refine ⟨t, ht, hincident, ?_⟩
    rw [hname] at hknown ⊢
    exact hknown.missing
  · intro t ht
    refine ⟨Turn.outcome_missing, Machine.handling_reaches t.message t.start, ?_⟩
    intro c hc w' hchanges
    have hsound : c.Sound :=
      Machine.reaches_sound hc (Machine.handling_fine (hvalid t ht) t.message).sound
    have hhoused : w'.HousesAll c.entities := World.HousesAll.changes hsound hchanges
    refine ⟨fun f hf => ?_, fun args source => hhoused.valid.copy_returns⟩
    have hentity : w'.Houses f.entity := hhoused.mem (Machine.entity_of_frame hf)
    refine ⟨Frame.context_found hentity, Frame.assign_returns hentity, ?_⟩
    intro target callee w'' hcallee
    exact (Frame.callee_found hentity hcallee).present

/-- A scout that subscribes to itself and then sends to nobody. Before it is its turn, a message is
waiting for somebody who has been discarded. -/
def World.lookout : World where
  table := ⟨[⟨⟨0⟩, "Scout", .empty, ⟨[⟨"go", [], [.subscribe "Scout" "go" "go" none,
      .emit (.named "Nobody") "hear" []]⟩]⟩, false⟩], .ofList [("Scout", ⟨0⟩)], 2⟩
  queue := (Queue.empty.push ⟨⟨1⟩, "go", []⟩).push ⟨⟨0⟩, "go", []⟩

theorem World.lookout_valid : World.lookout.table.Valid where
  increasing := by decide
  below := by decide
  indexed := by
    intro name id hid
    have hfound : (if "Scout" = name then some (⟨0⟩ : EntityId) else none) = some id := hid
    split at hfound
    · rename_i hname
      cases hfound
      exact ⟨_, rfl, hname⟩
    · cases hfound

/-- The message for the discarded entity is passed over, the wrong subscription is no incident, and
nobody is reported missing but the one to whom the scout sends. -/
theorem World.drain_faults_known_lookout :
    World.lookout.table.Valid ∧
    (World.lookout.drain 2).1 = ⟨2, [⟨"Scout", "go", .entityNotFound "Nobody"⟩]⟩ ∧
    ∃ t ∈ World.lookout.turns 2, ∃ c c', (Machine.handling t.message t.start).Reaches c ∧
      c.step = some c' ∧ c'.activity = .ended (.error (.entityNotFound "Nobody")) ∧
      c.Blames "Nobody" := by
  have hreport : (World.lookout.drain 2).1 =
      ⟨2, [⟨"Scout", "go", .entityNotFound "Nobody"⟩]⟩ := by decide +kernel
  have hincident : (⟨"Scout", "go", .entityNotFound "Nobody"⟩ : Incident) ∈
      (World.lookout.drain 2).1.incidents := by
    rw [hreport]
    exact List.mem_singleton_self _
  obtain ⟨_, _, _, _, hmissing⟩ :=
    (World.drain_faults_known World.lookout World.lookout_valid 2).1 _ hincident
  obtain ⟨t, ht, _, hraised⟩ := hmissing "Nobody" rfl
  exact ⟨World.lookout_valid, hreport, t, ht, hraised⟩

end EntityScript
