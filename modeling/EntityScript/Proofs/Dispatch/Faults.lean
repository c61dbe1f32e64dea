import EntityScript.Proofs.Evaluation.Shortcut
import EntityScript.Proofs.Send.Recursion
import EntityScript.Proofs.Table.Shape

/-! # The faults of actions

Most faults are ordinary (`Fault.isOrdinary`): a running event can come upon them. The others
are a wrong use of subscriptions, which an action only reports; a name that is declared twice
and settings that are refused, which are for hosts; a pool that is asked to send messages; and
an entity that is missing. An action of an entity that is in the table ends in ordinary faults
only, or it names somebody who is not declared (`Action.Misses`). -/

namespace EntityScript

/-! ## Ordinary faults -/

/-- A fault that a running event can come upon, other than a missing entity. -/
def Fault.isOrdinary : Fault → Bool
  | .selfSubscription _ => false
  | .unknownSubscriptionTarget _ => false
  | .duplicateEntity _ => false
  | .badSettings => false
  | .poolCommand _ _ .needsDelivery => false
  | .entityNotFound _ => false
  | _ => true

/-- If the outcome is a fault, it is one of `P`. -/
def FaultsIn {α : Type} (P : Fault → Prop) (x : Except Fault α) : Prop :=
  ∀ fault, x = .error fault → P fault

/-- If the outcome is a fault, it is an ordinary one. -/
abbrev Ordinary {α : Type} (x : Except Fault α) : Prop :=
  FaultsIn (fun fault => fault.isOrdinary = true) x

namespace FaultsIn

variable {α β : Type} {P : Fault → Prop}

theorem ok (a : α) : FaultsIn P (.ok a : Except Fault α) := by
  intro fault hfault
  cases hfault

theorem error {fault : Fault} (h : P fault) : FaultsIn P (.error fault : Except Fault α) := by
  intro raised hraised
  cases hraised
  exact h

theorem bind {x : Except Fault α} {k : α → Except Fault β} (hx : FaultsIn P x)
    (hk : ∀ a, FaultsIn P (k a)) : FaultsIn P (x >>= k) := by
  cases x with
  | ok a => exact hk a
  | error fault => exact .error (hx fault rfl)

theorem map {x : Except Fault α} (hx : FaultsIn P x) (f : α → β) : FaultsIn P (x.map f) := by
  cases x with
  | ok a => exact .ok _
  | error fault => exact .error (hx fault rfl)

end FaultsIn

/-! ## Expressions -/

theorem Value.condition_ordinary (v : Value) : Ordinary v.condition := by
  unfold Value.condition
  repeat' split
  all_goals first | exact .ok _ | exact .error rfl

theorem Value.toIndex_ordinary (v : Value) (pool : String) : Ordinary (v.toIndex pool) := by
  unfold Value.toIndex
  split
  · exact .ok _
  · exact .error rfl

theorem BinaryOp.apply_ordinary (op : BinaryOp) (l r : Value) : Ordinary (op.apply l r) := by
  unfold BinaryOp.apply
  repeat' split
  all_goals first | exact .ok _ | exact .error rfl

namespace Context

variable (c : Context)

theorem lookup_ordinary (name : String) : Ordinary (c.lookup name) := by
  unfold lookup
  repeat' split
  all_goals first | exact .ok _ | exact .error rfl

theorem pool_ordinary (name : String) : Ordinary (c.pool name) := by
  unfold pool
  split
  · exact .ok _
  · exact .error rfl

theorem fieldOf_ordinary (e : Entity) (name : String) : Ordinary (fieldOf e name) := by
  unfold fieldOf
  split
  · exact .ok _
  · exact .error rfl

theorem fieldOfNamed_ordinary (target name : String) : Ordinary (c.fieldOfNamed target name) := by
  unfold fieldOfNamed
  split
  · exact fieldOf_ordinary _ name
  · exact .error rfl

theorem property_ordinary (target name : String) : Ordinary (c.property target name) := by
  unfold property
  split
  · exact fieldOf_ordinary _ name
  · split
    · split
      · exact .ok _
      · exact .error rfl
    · split
      · exact fieldOf_ordinary _ name
      · exact c.fieldOfNamed_ordinary target name
    · exact c.fieldOfNamed_ordinary target name

end Context

namespace Pool

variable (p : Pool) (name : String)

theorem slot_ordinary (index : Int) : Ordinary (p.slot name index) := by
  unfold slot
  split
  · exact .ok _
  · exact .error rfl

theorem get_ordinary (index : Int) : Ordinary (Pool.get p name index) := by
  unfold Pool.get
  repeat' split
  all_goals first | exact .ok _ | exact .error rfl

theorem set_ordinary (index : Int) (v : Value) : Ordinary (Pool.set p name index v) :=
  (slot_ordinary p name index).map _

theorem argument_ordinary (command : Command) (args : List Value) (position : Nat) :
    Ordinary (argument name command args position) := by
  unfold argument
  split
  · exact .ok _
  · exact .error rfl

/-- Among the commands, `each` alone needs somebody to send messages. -/
theorem apply_ordinary {command : Command} (h : command ≠ .each) (args : List Value) :
    Ordinary (Pool.apply p name command args) := by
  have harg := argument_ordinary name command args
  cases command with
  | add =>
    refine .bind (harg 1) fun v => ?_
    split
    · exact .error rfl
    · exact .ok _
  | push => exact .bind (harg 1) fun v => .ok _
  | insert =>
    refine .bind (harg 1) fun i => .bind (i.toIndex_ordinary name) fun index =>
      .bind (harg 2) fun v => ?_
    split
    · exact .ok _
    · exact .error rfl
  | remove => exact .bind (harg 1) fun v => .ok _
  | removeAt =>
    exact .bind (harg 1) fun i => .bind (i.toIndex_ordinary name) fun index =>
      .bind (slot_ordinary p name index) fun _ => .ok _
  | swap =>
    exact .bind (harg 1) fun i => .bind (i.toIndex_ordinary name) fun first =>
      .bind (harg 2) fun j => .bind (j.toIndex_ordinary name) fun second =>
      .bind (slot_ordinary p name first) fun _ => .bind (slot_ordinary p name second) fun _ =>
      .ok _
  | pop | shift | clear => exact .ok _
  | each => exact absurd rfl h

end Pool

namespace Expr

variable (c : Context)

theorem evalPlain_ordinary (e : Expr) : Ordinary (evalPlain c e) := by
  induction e with
  | literal v => exact .ok v
  | var name => exact c.lookup_ordinary name
  | binary op left right ihl ihr =>
    exact .bind ihl fun l => .bind ihr fun r => op.apply_ordinary l r
  | logic op left right ihl ihr =>
    refine .bind ihl fun l => ?_
    split
    · exact .ok _
    · refine .bind l.condition_ordinary fun b => ?_
      split
      · exact .ok _
      · exact .ok _
      · exact .bind ihr fun r => .bind r.condition_ordinary fun _ => .ok _
  | not e ih => exact .bind ih fun v => .bind v.condition_ordinary fun _ => .ok _
  | index pool e ih =>
    exact .bind (c.pool_ordinary pool) fun items => .bind ih fun v =>
      .bind (v.toIndex_ordinary pool) fun index => Pool.get_ordinary items pool index
  | property target name => exact c.property_ordinary target name

/-- An expression ends in ordinary faults only. -/
theorem eval_ordinary (e : Expr) : Ordinary (e.eval c) := by
  unfold eval
  rw [evalGeneral_eq_evalPlain, shortcut_evalPlain]
  exact evalPlain_ordinary c e

theorem evalAll_ordinary (es : List Expr) : Ordinary (evalAll c es) := by
  induction es with
  | nil => exact .ok _
  | cons e es ih => exact .bind (eval_ordinary c e) fun _ => .bind ih fun _ => .ok _

end Expr

/-! ## Sending -/

theorem Subscription.message_ordinary (s : Subscription) (t : Table) (args : List Value) :
    Ordinary (s.message t args) := by
  unfold Subscription.message
  split
  · exact .ok _
  · split
    · exact .ok _
    · split
      · exact .ok _
      · exact .bind (Expr.evalAll_ordinary _ _) fun _ => .ok _

/-- A fault in sending is one in the arguments of a subscriber. -/
theorem Queue.send_ordinary (t : Table) (subs : Subscriptions) (q : Queue) (m : Message) :
    Ordinary (q.send t subs m).1 := by
  refine send_induction t subs (fun q m => Ordinary (q.send t subs m).1)
    (fun args ss q => Ordinary (spread t subs args ss q).1) ?_ ?_ ?_ ?_ ?_ ?_ ?_ q m
  · intro q m hq
    rw [send_held hq]
    exact .ok _
  · intro q m hq hR
    rw [send_new hq]
    exact hR
  · intro args q
    exact .ok _
  · intro args s ss q fault hm
    rw [spread_error hm]
    exact .error (s.message_ordinary t args fault hm)
  · intro args s ss q hm hR
    rw [spread_silent hm]
    exact hR
  · intro args s ss q b fault hm hP hb
    rw [spread_stopped hm hb]
    exact .error (hP fault hb)
  · intro args s ss q b hm _ hb hR
    rw [spread_told hm hb]
    exact hR

/-! ## Computations -/

/-- Started in `w`, the computation ends in faults of `P` only. -/
def Run.Faults {α : Type} (P : Fault → Prop) (r : Run α) (w : World) : Prop :=
  FaultsIn P (r w).1

/-- Started in `w`, the computation ends in ordinary faults only. -/
abbrev Run.Ordinary {α : Type} (r : Run α) (w : World) : Prop :=
  r.Faults (fun fault => fault.isOrdinary = true) w

namespace Run.Faults

variable {α β : Type} {P : Fault → Prop} {w : World}

theorem pure (a : α) : Run.Faults P (Pure.pure a : Run α) w := .ok a

theorem throw {fault : Fault} (h : P fault) :
    Run.Faults P (MonadExcept.throw fault : Run α) w := .error h

theorem last {x : Except Fault α} (h : FaultsIn P x) : Run.Faults P (liftM x : Run α) w := h

theorem send (m : Message) : (Run.send m).Ordinary w :=
  Queue.send_ordinary w.table w.subscriptions w.queue m

theorem bind {x : Run α} {k : α → Run β} (hx : x.Faults P w)
    (hk : ∀ a w', x w = (.ok a, w') → (k a).Faults P w') : (x >>= k).Faults P w := by
  unfold Run.Faults at hx ⊢
  rw [Run.bind_apply]
  match hr : x w with
  | (.ok a, w') => exact hk a w' hr
  | (.error fault, w') =>
    rw [hr] at hx
    exact .error (hx fault rfl)

theorem get {k : World → Run α} (h : (k w).Faults P w) :
    Run.Faults P (MonadState.get >>= k : Run α) w := h

theorem lift {x : Except Fault α} {k : α → Run β} (hx : FaultsIn P x)
    (hk : ∀ a, x = .ok a → (k a).Faults P w) : Run.Faults P (liftM x >>= k : Run β) w := by
  refine .bind hx fun a w' hr => ?_
  cases hr
  exact hk a rfl

theorem set {w' : World} {k : Unit → Run α} (h : (k ()).Faults P w') :
    Run.Faults P (MonadState.set w' >>= k : Run α) w := h

theorem mono {Q : Fault → Prop} {r : Run α} (h : r.Faults P w) (hPQ : ∀ fault, P fault → Q fault) :
    r.Faults Q w :=
  fun fault hfault => hPQ fault (h fault hfault)

end Run.Faults

/-! ## Entities that are there -/

/-- The table is in order, and the entity is in it. -/
structure World.Houses (w : World) (id : EntityId) : Prop where
  valid : w.table.Valid
  present : w.table.contains id = true

namespace World.Houses

variable {w w' : World} {id : EntityId}

theorem found (h : w.Houses id) : ∃ e, w.table.get? id = some e :=
  Option.isSome_iff_exists.mp h.present

/-- No entity leaves the table while an event is running. -/
theorem changes (h : w.Houses id) (hc : World.Changes w w') : w'.Houses id := by
  obtain ⟨hvalid, hgrown⟩ := hc.keeps (World.shape_kept h.valid).change ⟨h.valid, .refl _⟩
  obtain ⟨e, he⟩ := h.found
  obtain ⟨e', he', _⟩ := hgrown.get? hvalid he
  exact ⟨hvalid, by rw [Table.contains, he']; rfl⟩

/-- What is declared is there. -/
theorem of_idOf? (hvalid : w.table.Valid) {name : String} (h : w.table.idOf? name = some id) :
    w.Houses id := by
  obtain ⟨e, he, _⟩ := hvalid.indexed name id h
  exact ⟨hvalid, by rw [Table.contains, he]; rfl⟩

/-- The rest of a computation starts in a state in which the entity is still there. -/
theorem bind {α β : Type} {P : Fault → Prop} {x : Run α} {k : α → Run β} (h : w.Houses id)
    (hx : x.Faults P w) (hs : x.Stepwise w) (hk : ∀ a w', w'.Houses id → (k a).Faults P w') :
    (x >>= k).Faults P w := by
  refine Run.Faults.bind hx fun a w' hr => hk a w' (h.changes ?_)
  have hend : World.Changes w (x w).2 := hs
  rwa [hr] at hend

end World.Houses

/-! ## Frames and pools -/

section Frame

variable {w : World} {f : Frame}

theorem Frame.context_found (h : w.Houses f.entity) : ∃ c, f.context w.table = .ok c := by
  obtain ⟨e, he⟩ := h.found
  exact ⟨⟨e, f.locals, w.table, f.event⟩, by rw [Frame.context, he]⟩

theorem Frame.context_ordinary (h : w.Houses f.entity) : Ordinary (f.context w.table) := by
  obtain ⟨c, hc⟩ := Frame.context_found h
  rw [hc]
  exact .ok c

theorem Frame.eval_ordinary (h : w.Houses f.entity) (e : Expr) : (f.eval e).Ordinary w :=
  .get (.lift (Frame.context_ordinary h) fun c _ => .last (e.eval_ordinary c))

theorem Frame.evalAll_ordinary (h : w.Houses f.entity) (es : List Expr) :
    (f.evalAll es).Ordinary w := by
  induction es generalizing w with
  | nil => exact .pure _
  | cons e es ih =>
    exact h.bind (Frame.eval_ordinary h e) (f.eval_stepwise e) fun _ _ h' =>
      .bind (ih h') fun _ _ _ => .pure _

theorem Frame.nameOrValue_ordinary (e : Expr) {r : Except Fault Value} (h : Ordinary r) :
    Ordinary (nameOrValue e r) := by
  unfold nameOrValue
  split
  · exact .ok _
  · exact h

theorem Frame.evalEach_ordinary (h : w.Houses f.entity) (es : List Expr) :
    (f.evalEach es).Ordinary w := by
  induction es with
  | nil => exact .pure _
  | cons e es ih =>
    refine .get (.lift (Frame.nameOrValue_ordinary e ?_) fun _ _ => .bind ih fun _ _ _ => .pure _)
    exact .bind (Frame.context_ordinary h) fun c => e.eval_ordinary c

/-- Assigning does not fail. -/
theorem Frame.assign_returns (h : w.Houses f.entity) (name : String) (v : Value) :
    ∃ f', (f.assign name v w).1 = .ok f' := by
  obtain ⟨e, he⟩ := h.found
  unfold Frame.assign
  rw [Run.get_bind_apply, he]
  dsimp only
  split <;> exact ⟨_, rfl⟩

theorem Frame.assign_ordinary (h : w.Houses f.entity) (name : String) (v : Value) :
    (f.assign name v).Ordinary w := by
  obtain ⟨f', hf'⟩ := Frame.assign_returns h name v
  unfold Run.Ordinary Run.Faults
  rw [hf']
  exact .ok f'

theorem Table.pool_ordinary (t : Table) (owner : EntityId) (field : String) :
    Ordinary (t.pool owner field) := by
  unfold Table.pool
  split
  · exact .ok _
  · exact .error rfl

theorem Run.changePool_ordinary (owner : EntityId) (field : String)
    {change : List Value → Except Fault (List Value)}
    (h : ∀ p, EntityScript.Ordinary (change p)) :
    (Run.changePool owner field change).Ordinary w :=
  .get (.lift (w.table.pool_ordinary owner field) fun p _ => .lift (h p) fun _ _ => .ok ())

theorem Frame.assignIndexed_ordinary (pool : String) (index : Int) (v : Value) :
    (f.assignIndexed pool index v).Ordinary w :=
  Run.changePool_ordinary _ _ fun p => Pool.set_ordinary p pool index v

end Frame

/-! ## Emitting -/

section Emit

variable {w : World} {f : Frame}

theorem Frame.input_ordinary (h : w.Houses f.entity) (args : List Value) :
    (f.input args).Ordinary w := by
  unfold Frame.input
  refine .get (.set ?_)
  split
  · exact .pure _
  · exact Frame.assign_ordinary (h.changes (.single (.host w (w.host.used_readLine _)))) _ _

theorem Run.callHost_ordinary (args : List Value) : (Run.callHost args).Ordinary w := by
  cases args with
  | nil => exact .pure _
  | cons name rest => exact .get (.ok ())

theorem Frame.builtin?_ordinary (h : w.Houses f.entity) (target : Target) (event : String)
    (args : List Value) : (f.builtin? target event args).Ordinary w := by
  unfold Frame.builtin?
  refine .get ?_
  split
  · split
    · exact .set (.pure _)
    · exact .pure _
  · split
    · exact .set (.pure _)
    · split
      · exact .bind (Frame.input_ordinary h args) fun _ _ _ => .pure _
      · split
        · exact .bind (Run.callHost_ordinary args) fun _ _ _ => .pure _
        · exact .pure _
  · exact .pure _

theorem Run.sendAll_ordinary (ms : List Message) : (Run.sendAll ms).Ordinary w := by
  induction ms generalizing w with
  | nil => exact .pure _
  | cons m ms ih => exact .bind (.send m) fun _ _ _ => ih

theorem Run.each_ordinary (owner : EntityId) (field : String) (args : List Value) :
    (Run.each owner field args).Ordinary w := by
  unfold Run.each
  split
  · exact .throw rfl
  · exact .throw rfl
  · exact .get (.lift (w.table.pool_ordinary owner field) fun _ _ => Run.sendAll_ordinary _)

/-- A declared entity can be copied. -/
theorem Table.Valid.copy_returns {t : Table} (ht : t.Valid) {args : List Value} {source : EntityId}
    (h : t.named? args = some source) : ∃ id, (t.copy source).1 = .ok id := by
  obtain ⟨name, hname⟩ := Table.idOf?_of_named? h
  obtain ⟨e, he, _⟩ := ht.indexed name source hname
  exact ⟨⟨t.nextId⟩, by rw [Table.copy, he]⟩

theorem Run.addCopy_ordinary (hw : w.table.Valid) (owner : EntityId) (field : String)
    {args : List Value} {source : EntityId} (h : w.table.named? args = some source) :
    (Run.addCopy owner field source).Ordinary w := by
  obtain ⟨id, hid⟩ := hw.copy_returns h
  have hcopied : EntityScript.Ordinary (w.table.copy source).1 := by
    rw [hid]
    exact .ok id
  exact .get (.lift (w.table.pool_ordinary owner field) fun _ _ => .set (.lift hcopied fun _ _ =>
    .bind (Run.changePool_ordinary _ _ fun _ => .ok _) fun _ _ _ => .send _))

theorem Run.poolCommand_ordinary (hw : w.table.Valid) (owner : EntityId) (field : String)
    (command : Pool.Command) (args : List Value) :
    (Run.poolCommand owner field command args).Ordinary w := by
  have hadd : Pool.Command.add ≠ .each := by decide
  unfold Run.poolCommand
  split
  · exact Run.each_ordinary owner field args
  · refine .get ?_
    split
    · rename_i source hs
      exact Run.addCopy_ordinary hw owner field hs
    · exact Run.changePool_ordinary _ _ fun p => Pool.apply_ordinary p field hadd args
  · rename_i heach _
    exact Run.changePool_ordinary _ _ fun p => Pool.apply_ordinary p field heach args

end Emit

/-! ## Those whom an action names -/

/-- What is emitted to the target is for somebody of the given name, who is not declared. -/
inductive Target.Unknown (t : Table) : Target → String → Prop
  | named {name : String} : t.idOf? name = none → Unknown t (.named name) name
  | remote {entity field : String} : t.idOf? entity = none → Unknown t (.remote entity field) entity

/-- The target, of the given text, is nobody who could be called. -/
inductive Target.Uncallable (t : Table) : Target → String → Prop
  | named {name : String} : t.idOf? name = none → Uncallable t (.named name) name
  /-- The field of an entity cannot be called. -/
  | remote {entity field : String} :
    Uncallable t (.remote entity field) (Target.remote entity field).text

/-- The target written in an action cannot be resolved, and its text is as given. -/
def Action.Misses (t : Table) : Action → String → Prop
  | .emit target _ _, name => target.Unknown t name
  | .call target _ _ _, name => target.Uncallable t name
  | .callIndexed target _ _ _ _, name => target.Uncallable t name
  | _, _ => False

/-- The fault is ordinary, or it is the one that is raised because `misses` somebody. -/
def Fault.Known (misses : String → Prop) (fault : Fault) : Prop :=
  fault.isOrdinary = true ∨ ∃ name, fault = .entityNotFound name ∧ misses name

theorem Fault.Known.mono {p q : String → Prop} {fault : Fault} (h : fault.Known p)
    (hpq : ∀ name, p name → q name) : fault.Known q :=
  h.imp_right fun ⟨name, hname, hp⟩ => ⟨name, hname, hpq name hp⟩

section Targets

variable {w : World} {f : Frame}

theorem Run.Faults.known {α : Type} {r : Run α} (h : r.Ordinary w) (misses : String → Prop) :
    r.Faults (Fault.Known misses) w :=
  h.mono fun _ => .inl

theorem Frame.route_known (hw : w.table.Valid) (target : Target) (event : String)
    (args : List Value) :
    (f.route target event args).Faults (Fault.Known (target.Unknown w.table)) w := by
  unfold Frame.route
  refine .get ?_
  dsimp only
  split
  · exact Run.Faults.known (.send _) _
  · exact Run.Faults.known (.send _) _
  · split
    · rename_i hnone
      exact .throw (.inr ⟨_, rfl, .remote hnone⟩)
    · split
      · exact .throw (.inl rfl)
      · exact (Run.poolCommand_ordinary hw _ _ _ _).known _
  · split
    · exact (Run.poolCommand_ordinary hw _ _ _ _).known _
    · split
      · rename_i hnone
        exact .throw (.inr ⟨_, rfl, .named hnone⟩)
      · exact Run.Faults.known (.send _) _

/-- A builtin that is none leaves the state as it is. -/
theorem Frame.builtin?_none {target : Target} {event : String} {args : List Value} {w' : World}
    (h : f.builtin? target event args w = (.ok none, w')) : w' = w := by
  unfold Frame.builtin? at h
  rw [Run.get_bind_apply] at h
  split at h
  · split at h
    · cases h
    · cases h
      rfl
  · split at h
    · cases h
    · split at h
      · rw [Run.bind_apply] at h
        split at h <;> cases h
      · split at h
        · rw [Run.bind_apply] at h
          split at h <;> cases h
        · cases h
          rfl
  · cases h
    rfl

theorem Frame.emit_known (h : w.Houses f.entity) (target : Target) (event : String)
    (args : List Value) :
    (f.emit target event args).Faults (Fault.Known (target.Unknown w.table)) w := by
  unfold Frame.emit
  refine .bind ((Frame.builtin?_ordinary h target event args).known _) fun r w' hr => ?_
  cases r with
  | some f' => exact .pure _
  | none =>
    obtain rfl := Frame.builtin?_none hr
    exact .bind (Frame.route_known h.valid target event args) fun _ _ _ => .pure _

theorem Frame.callee_known (target : Target) :
    (f.callee target).Faults (Fault.Known (target.Uncallable w.table)) w := by
  cases target with
  | implicit => exact .pure _
  | self => exact .pure _
  | named name =>
    refine .get ?_
    split
    · exact .pure _
    · rename_i hnone
      exact .throw (.inr ⟨name, rfl, .named hnone⟩)
  | remote entity field => exact .throw (.inr ⟨_, rfl, .remote⟩)

/-- Who is to be called is there. -/
theorem Frame.callee_found (h : w.Houses f.entity) {target : Target} {callee : EntityId}
    {w' : World} (hc : f.callee target w = (.ok callee, w')) : w'.Houses callee := by
  cases target with
  | implicit => cases hc; exact h
  | self => cases hc; exact h
  | named name =>
    unfold Frame.callee at hc
    dsimp only at hc
    rw [Run.get_bind_apply] at hc
    cases hname : w.table.idOf? name with
    | none => rw [hname] at hc; cases hc
    | some id =>
      rw [hname] at hc
      cases hc
      exact .of_idOf? h.valid hname
  | remote entity field => cases hc

end Targets

/-! ## Subscriptions -/

namespace Subscriptions

variable {subs : Subscriptions} {t : Table} {subscriber : EntityId} {target event handler : String}

theorem subscribe_usage (args : Option (List Expr)) : FaultsIn (fun fault => fault.isUsage = true)
    (subs.subscribe t subscriber target event handler args) := by
  unfold subscribe
  split
  · exact .error rfl
  · split
    · exact .error rfl
    · dsimp only
      split <;> exact .ok _

theorem unsubscribe_usage : FaultsIn (fun fault => fault.isUsage = true)
    (subs.unsubscribe t subscriber target event handler) := by
  unfold unsubscribe
  split
  · exact .error rfl
  · split
    · exact .ok _
    · dsimp only
      split <;> exact .ok _

end Subscriptions

/-- Wrong uses of subscriptions are reported and no faults. -/
theorem Run.changeSubscriptions_returns {w : World} {change : World → Except Fault Subscriptions}
    (h : FaultsIn (fun fault => fault.isUsage = true) (change w)) (P : Fault → Prop) :
    (Run.changeSubscriptions change).Faults P w := by
  unfold Run.changeSubscriptions
  refine .get ?_
  split
  · exact .ok ()
  · rename_i fault hfault
    rw [if_pos (h fault hfault)]
    exact .ok ()

end EntityScript
