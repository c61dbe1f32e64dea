import EntityScript.Dispatch.Execute
import Mathlib.Logic.Relation

/-! # Elementary changes

All that a running event does to the state is a succession of elementary changes
(`World.Change`): it sends a message, assigns to a field that is there, marks an entity
destroyed, adds a copy of a declared entity, changes the subscriptions, or uses the host.
`Message.handle_stepwise` and `Call.perform_stepwise` say so of every event, also of one
that ends in a fault. What every elementary change keeps is then kept by all of them
(`World.Changes.keeps`).

The mark that a call is under way is none of it: a call takes back the mark that it set,
and no elementary change reads or writes it (`World.Change.withMark`).

Only two actions change the subscriptions, and what they do depends on whose event is running.
So all this is shown for every kind of steps (`World.StepKind`) by which an entity of the table
may subscribe (`World.Licence`), of which the elementary changes are one. -/

namespace EntityScript

/-! ## Using the host -/

/-- An entry about a fault that ended an event. -/
def Notice.reportsFault : Notice → Bool
  | .diagnostic line => "[Runtime Error] ".toList.isPrefixOf line.toList
  | _ => false

/-- What a running event can do to the host: read lines, and write entries that report no
fault. -/
def Host.Used (h h' : Host) : Prop :=
  ∃ written, h'.transcript = h.transcript ++ written ∧ ∀ n ∈ written, n.reportsFault = false

theorem Host.used_note (h : Host) {n : Notice} (hn : n.reportsFault = false) :
    h.Used (h.note n) := by
  refine ⟨[n], rfl, ?_⟩
  intro x hx
  rw [List.mem_singleton.mp hx]
  exact hn

theorem Host.used_readLine (h : Host) (prompt : String) : h.Used (h.readLine prompt).2 := by
  have hnote := h.used_note (n := .prompt prompt) rfl
  unfold Host.readLine
  dsimp only
  split <;> exact hnote

theorem Host.used_invoke (h : Host) (name : String) (args : List Value) :
    h.Used (h.invoke name args).2 := by
  unfold Host.invoke
  split
  · exact h.used_note rfl
  · exact ⟨[], (List.append_nil _).symm, fun n hn => nomatch hn⟩

/-- A report of a wrong use of subscriptions is told apart by its first letters. -/
theorem reportsFault_subscription_error (text : String) :
    (Notice.diagnostic ("[Subscription Error] " ++ text)).reportsFault = false := by
  rw [Notice.reportsFault, String.toList_append]
  rfl

/-! ## Changes -/

/-- One elementary change of the state. -/
inductive World.Change : World → World → Prop
  | send (w : World) (m : Message) : Change w (w.send m).2
  | assign (w : World) {id : EntityId} {e : Entity} {name : String} (v : Value) :
    w.table.get? id = some e → e.fields.contains name = true →
    Change w { w with table := w.table.setField id name v }
  | destroy (w : World) (id : EntityId) : Change w { w with table := w.table.destroy id }
  | copy (w : World) {name : String} {source : EntityId} :
    w.table.idOf? name = some source → Change w { w with table := (w.table.copy source).2 }
  | subscribe (w : World) {subscriber : EntityId} {target event handler : String}
    {args : Option (List Expr)} {subs : Subscriptions} :
    w.subscriptions.subscribe w.table subscriber target event handler args = .ok subs →
    Change w { w with subscriptions := subs }
  | unsubscribe (w : World) {subscriber : EntityId} {target event handler : String}
    {subs : Subscriptions} :
    w.subscriptions.unsubscribe w.table subscriber target event handler = .ok subs →
    Change w { w with subscriptions := subs }
  | host (w : World) {h : Host} : w.host.Used h → Change w { w with host := h }

/-- A succession of elementary changes. -/
abbrev World.Changes : World → World → Prop := Relation.ReflTransGen World.Change

/-- What every step keeps is kept by a succession of them. -/
theorem World.steps_keep {C : World → World → Prop} {P : World → Prop}
    (hP : ∀ w w', C w w' → P w → P w') {w w' : World} (h : Relation.ReflTransGen C w w')
    (hw : P w) : P w' := by
  induction h with
  | refl => exact hw
  | tail _ hc ih => exact hP _ _ hc ih

/-- What every elementary change keeps is kept by a succession of them. -/
theorem World.Changes.keeps {P : World → Prop}
    (hP : ∀ w w', World.Change w w' → P w → P w') {w w' : World} (h : World.Changes w w')
    (hw : P w) : P w' :=
  World.steps_keep hP h hw

theorem World.Change.calling_eq {w w' : World} (h : World.Change w w') :
    w'.calling = w.calling := by
  cases h <;> rfl

theorem World.Changes.calling_eq {w w' : World} (h : World.Changes w w') :
    w'.calling = w.calling :=
  h.keeps (P := fun x => x.calling = w.calling) (fun _ _ hc hx => hc.calling_eq.trans hx) rfl

/-- Elementary changes are the same whether or not a call is marked. -/
theorem World.Change.withMark {w w' : World} (h : World.Change w w') (b : Bool) :
    World.Change { w with calling := b } { w' with calling := b } := by
  cases h with
  | send m => exact .send { w with calling := b } m
  | assign v he hf => exact .assign { w with calling := b } v he hf
  | destroy id => exact .destroy { w with calling := b } id
  | copy hs => exact .copy { w with calling := b } hs
  | subscribe hs => exact .subscribe { w with calling := b } hs
  | unsubscribe hs => exact .unsubscribe { w with calling := b } hs
  | host hu => exact .host { w with calling := b } hu

/-! ## Kinds of steps -/

/-- A kind of steps to which all elementary changes belong that leave the subscriptions as they
are, and for which the mark of a call does not matter. -/
class World.StepKind (C : World → World → Prop) : Prop where
  quiet : ∀ {w w' : World}, World.Change w w' → w'.subscriptions = w.subscriptions → C w w'
  mark : ∀ {w w' : World} (b : Bool), C w w' → C { w with calling := b } { w' with calling := b }

/-- In the states `may`, in which one stays by steps of the kind, events of the entity may change
the subscriptions. -/
structure World.Licence (C : World → World → Prop) (id : EntityId) (may : World → Prop) : Prop where
  kept : ∀ w w', C w w' → may w → may w'
  subscribe : ∀ {w : World} {target event handler : String} {args : Option (List Expr)}
    {subs : Subscriptions}, may w →
    w.subscriptions.subscribe w.table id target event handler args = .ok subs →
    C w { w with subscriptions := subs }
  unsubscribe : ∀ {w : World} {target event handler : String} {subs : Subscriptions}, may w →
    w.subscriptions.unsubscribe w.table id target event handler = .ok subs →
    C w { w with subscriptions := subs }

/-- A kind of steps by which the entities of the table may change the subscriptions. -/
class World.Licensed (C : World → World → Prop) : Prop extends World.StepKind C where
  licence : ∀ {w : World} {id : EntityId} {e : Entity}, w.table.get? id = some e →
    ∃ may, World.Licence C id may ∧ may w

/-- By elementary changes, anybody may subscribe. -/
theorem World.Change.licence (id : EntityId) : World.Licence World.Change id fun _ => True :=
  ⟨fun _ _ _ _ => trivial, fun _ hs => .subscribe _ hs, fun _ hs => .unsubscribe _ hs⟩

instance : World.Licensed World.Change where
  quiet h _ := h
  mark b h := h.withMark b
  licence _ := ⟨_, World.Change.licence _, trivial⟩

namespace Run

variable {α β : Type} {w : World} {C : World → World → Prop}

/-- Started in `w`, a computation gets to its last state by steps of the given kind, whether
it ends in a fault or not. -/
def Via (C : World → World → Prop) (r : Run α) (w : World) : Prop :=
  Relation.ReflTransGen C w (r w).2

/-- Started in `w`, a computation gets to its last state by elementary changes. -/
abbrev Stepwise (r : Run α) (w : World) : Prop := r.Via World.Change w

theorem bind_apply (x : Run α) (k : α → Run β) (w : World) :
    (x >>= k) w = match x w with
      | (.ok a, w') => k a w'
      | (.error fault, w') => (.error fault, w') := by
  simp only [bind, ExceptT.bind, ExceptT.mk, StateT.bind, ExceptT.bindCont]
  rcases x w with ⟨_ | _, w'⟩ <;> rfl

theorem get_bind_apply (k : World → Run α) (w : World) :
    (MonadState.get >>= k : Run α) w = k w w := rfl

theorem stepwise_pure (a : α) : (pure a : Run α).Via C w := .refl

theorem stepwise_throw (fault : Fault) : (throw fault : Run α).Via C w := .refl

theorem stepwise_lift (x : Except Fault α) : (liftM x : Run α).Via C w := .refl

theorem stepwise_set {w' : World} (h : C w w') : (set w' : Run Unit).Via C w := .single h

theorem stepwise_send [World.StepKind C] (m : Message) : (Run.send m).Via C w :=
  .single (World.StepKind.quiet (.send w m) rfl)

theorem Via.calling_eq {r : Run α} (h : r.Stepwise w) : (r w).2.calling = w.calling :=
  World.Changes.calling_eq h

theorem Via.bind {x : Run α} {k : α → Run β} (hx : x.Via C w)
    (hk : ∀ a w', x w = (.ok a, w') → (k a).Via C w') : (x >>= k).Via C w := by
  unfold Via at hx ⊢
  rw [bind_apply]
  match hr : x w with
  | (.ok a, w') =>
    rw [hr] at hx
    exact hx.trans (hk a w' hr)
  | (.error fault, w') =>
    rw [hr] at hx
    exact hx

/-- The rest starts in a state of which still holds what steps of the kind keep. -/
theorem Via.bindKeeping {x : Run α} {k : α → Run β} {P : World → Prop}
    (hP : ∀ w w', C w w' → P w → P w') (hx : x.Via C w) (hw : P w)
    (hk : ∀ a w', x w = (.ok a, w') → P w' → (k a).Via C w') : (x >>= k).Via C w := by
  refine .bind hx fun a w' hr => hk a w' hr ?_
  have hkept := World.steps_keep hP hx hw
  rwa [hr] at hkept

/-- The state that is read is the one in which the rest starts. -/
theorem Via.get {k : World → Run α} (h : (k w).Via C w) :
    (MonadState.get >>= k : Run α).Via C w := by
  refine .bind .refl ?_
  rintro a w' ⟨⟩
  exact h

/-- A look at a value that may be a fault changes nothing. -/
theorem Via.lift {x : Except Fault α} {k : α → Run β}
    (h : ∀ a, x = .ok a → (k a).Via C w) : (liftM x >>= k : Run β).Via C w := by
  refine .bind (stepwise_lift x) ?_
  rintro a w' ⟨⟩
  exact h a rfl

/-- A step, and then the rest. -/
theorem Via.set {w' : World} {k : Unit → Run α} (hw : C w w')
    (h : (k ()).Via C w') : (MonadState.set w' >>= k : Run α).Via C w := by
  refine .bind (stepwise_set hw) ?_
  rintro a w'' ⟨⟩
  exact h

/-- The result, if there is one, has the property. -/
def Yields (r : Run α) (Q : α → Prop) : Prop := ∀ w a w', r w = (.ok a, w') → Q a

section Yields

variable {R : α → Prop} {Q : β → Prop}

theorem yields_pure {b : β} (h : Q b) : (pure b : Run β).Yields Q := by
  rintro w a w' ⟨⟩
  exact h

theorem yields_throw (fault : Fault) : (throw fault : Run β).Yields Q := by
  rintro w a w' ⟨⟩

theorem Yields.bind {x : Run α} {k : α → Run β} (hx : x.Yields R)
    (hk : ∀ a, R a → (k a).Yields Q) : (x >>= k).Yields Q := by
  intro w b w' h
  rw [bind_apply] at h
  match hr : x w with
  | (.ok a, w₁) =>
    rw [hr] at h
    exact hk a (hx w a w₁ hr) w₁ b w' h
  | (.error fault, w₁) =>
    rw [hr] at h
    cases h

/-- The result is that of the last part. -/
theorem Yields.last {x : Run α} {k : α → Run β} (hk : ∀ a, (k a).Yields Q) :
    (x >>= k).Yields Q :=
  .bind (R := fun _ => True) (fun _ _ _ _ => trivial) fun a _ => hk a

end Yields

end Run

/-! ## Frames and pools -/

section Frame

variable {w : World} {C : World → World → Prop}

theorem Frame.eval_stepwise (f : Frame) (e : Expr) : (f.eval e).Via C w := by
  unfold Frame.eval
  exact .get (.lift fun c _ => Run.stepwise_lift _)

theorem Frame.evalAll_stepwise (f : Frame) (es : List Expr) : (f.evalAll es).Via C w := by
  induction es generalizing w with
  | nil => exact Run.stepwise_pure _
  | cons e es ih =>
    exact .bind (f.eval_stepwise e) fun _ _ _ => .bind ih fun _ _ _ => Run.stepwise_pure _

theorem Frame.evalEach_stepwise (f : Frame) (es : List Expr) : (f.evalEach es).Via C w := by
  induction es generalizing w with
  | nil => exact Run.stepwise_pure _
  | cons e es ih =>
    exact .get (.lift fun _ _ => .bind ih fun _ _ _ => Run.stepwise_pure _)

variable [World.StepKind C]

theorem Frame.assign_stepwise (f : Frame) (name : String) (v : Value) :
    (f.assign name v).Via C w := by
  unfold Frame.assign
  refine .get ?_
  split
  · exact Run.stepwise_throw _
  · rename_i e he
    split
    · rename_i hname
      exact .set (World.StepKind.quiet (.assign w v he hname) rfl) (Run.stepwise_pure _)
    · exact Run.stepwise_pure _

/-- A pool stands in a field. -/
theorem Entity.contains_of_pool? {e : Entity} {field : String} {p : List Value}
    (h : e.pool? field = some p) : e.fields.contains field = true := by
  obtain ⟨v, hv, _⟩ := Option.bind_eq_some_iff.mp h
  rw [OrderedMap.contains, show e.fields.get? field = some v from hv]
  rfl

theorem Table.field_of_pool {t : Table} {owner : EntityId} {field : String} {p : List Value}
    (h : t.pool owner field = .ok p) :
    ∃ e, t.get? owner = some e ∧ e.fields.contains field = true := by
  unfold Table.pool at h
  split at h
  next q hq =>
    obtain ⟨e, he, hpool⟩ := Option.bind_eq_some_iff.mp hq
    exact ⟨e, he, Entity.contains_of_pool? hpool⟩
  next => cases h

theorem Run.changePool_stepwise (owner : EntityId) (field : String)
    (change : List Value → Except Fault (List Value)) :
    (Run.changePool owner field change).Via C w := by
  unfold Run.changePool
  refine .get (.lift fun p hp => .lift fun p' _ => ?_)
  obtain ⟨e, he, hf⟩ := Table.field_of_pool hp
  exact Run.stepwise_set (World.StepKind.quiet (.assign w _ he hf) rfl)

end Frame

/-! ## Emitting -/

section Emit

variable {w : World} {C : World → World → Prop} [World.StepKind C]

theorem Frame.input_stepwise (f : Frame) (args : List Value) : (f.input args).Via C w := by
  unfold Frame.input
  refine .get (.set (World.StepKind.quiet (.host w (w.host.used_readLine _)) rfl) ?_)
  split
  · exact Run.stepwise_pure _
  · exact f.assign_stepwise _ _

theorem Run.callHost_stepwise (args : List Value) : (Run.callHost args).Via C w := by
  unfold Run.callHost
  split
  · exact Run.stepwise_pure _
  · exact .get (Run.stepwise_set (World.StepKind.quiet (.host w (w.host.used_invoke _ _)) rfl))

theorem Frame.builtin?_stepwise (f : Frame) (target : Target) (event : String)
    (args : List Value) : (f.builtin? target event args).Via C w := by
  unfold Frame.builtin?
  refine .get ?_
  split
  · split
    · exact .set (World.StepKind.quiet (.destroy w _) rfl) (Run.stepwise_pure _)
    · exact Run.stepwise_pure _
  · split
    · exact .set (World.StepKind.quiet (.host w (w.host.used_note rfl)) rfl) (Run.stepwise_pure _)
    · split
      · exact .bind (f.input_stepwise args) fun _ _ _ => Run.stepwise_pure _
      · split
        · exact .bind (Run.callHost_stepwise args) fun _ _ _ => Run.stepwise_pure _
        · exact Run.stepwise_pure _
  · exact Run.stepwise_pure _

theorem Run.sendAll_stepwise (ms : List Message) : (Run.sendAll ms).Via C w := by
  induction ms generalizing w with
  | nil => exact Run.stepwise_pure _
  | cons m ms ih => exact .bind (Run.stepwise_send m) fun _ _ _ => ih

theorem Run.each_stepwise (owner : EntityId) (field : String) (args : List Value) :
    (Run.each owner field args).Via C w := by
  unfold Run.each
  split
  · exact Run.stepwise_throw _
  · exact Run.stepwise_throw _
  · exact .get (.lift fun _ _ => Run.sendAll_stepwise _)

theorem Run.addCopy_stepwise (owner : EntityId) (field : String) {name : String}
    {source : EntityId} (h : w.table.idOf? name = some source) :
    (Run.addCopy owner field source).Via C w := by
  unfold Run.addCopy
  refine .get (.lift fun _ _ => .set (World.StepKind.quiet (.copy w h) rfl) (.lift fun _ _ => ?_))
  exact .bind (Run.changePool_stepwise _ _ _) fun _ _ _ => Run.stepwise_send _

theorem Table.idOf?_of_named? {t : Table} {args : List Value} {source : EntityId}
    (h : t.named? args = some source) : ∃ name, t.idOf? name = some source := by
  unfold Table.named? at h
  split at h
  · exact ⟨_, h⟩
  · cases h

theorem Run.poolCommand_stepwise (owner : EntityId) (field : String) (command : Pool.Command)
    (args : List Value) : (Run.poolCommand owner field command args).Via C w := by
  unfold Run.poolCommand
  split
  · exact Run.each_stepwise owner field args
  · refine .get ?_
    split
    · rename_i source hs
      obtain ⟨name, hname⟩ := Table.idOf?_of_named? hs
      exact Run.addCopy_stepwise owner field hname
    · exact Run.changePool_stepwise _ _ _
  · exact Run.changePool_stepwise _ _ _

theorem Frame.route_stepwise (f : Frame) (target : Target) (event : String) (args : List Value) :
    (f.route target event args).Via C w := by
  unfold Frame.route
  refine .get ?_
  dsimp only
  split
  · exact Run.stepwise_send _
  · exact Run.stepwise_send _
  · split
    · exact Run.stepwise_throw _
    · split
      · exact Run.stepwise_throw _
      · exact Run.poolCommand_stepwise _ _ _ _
  · split
    · exact Run.poolCommand_stepwise _ _ _ _
    · split
      · exact Run.stepwise_throw _
      · exact Run.stepwise_send _

theorem Frame.emit_stepwise (f : Frame) (target : Target) (event : String) (args : List Value) :
    (f.emit target event args).Via C w := by
  unfold Frame.emit
  refine .bind (f.builtin?_stepwise target event args) fun f' _ _ => ?_
  split
  · exact Run.stepwise_pure _
  · exact .bind (f.route_stepwise target event args) fun _ _ _ => Run.stepwise_pure _

end Emit

/-! ## Whose event is running -/

section Entity

theorem Frame.assign_entity (f : Frame) (name : String) (v : Value) :
    (f.assign name v).Yields fun f' => f'.entity = f.entity := by
  unfold Frame.assign
  refine .last fun w => ?_
  split
  · exact Run.yields_throw _
  · split
    · exact .last fun _ => Run.yields_pure rfl
    · exact Run.yields_pure rfl

theorem Frame.input_entity (f : Frame) (args : List Value) :
    (f.input args).Yields fun f' => f'.entity = f.entity := by
  unfold Frame.input
  refine .last fun w => .last fun _ => ?_
  split
  · exact Run.yields_pure rfl
  · exact f.assign_entity _ _

theorem Frame.builtin?_entity (f : Frame) (target : Target) (event : String)
    (args : List Value) : (f.builtin? target event args).Yields
      fun r => ∀ f', r = some f' → f'.entity = f.entity := by
  have hself : ∀ f', some f = some f' → f'.entity = f.entity := by
    rintro f' ⟨⟩
    rfl
  have hnone : ∀ f', (none : Option Frame) = some f' → f'.entity = f.entity := by
    rintro f' ⟨⟩
  unfold Frame.builtin?
  refine .last fun w => ?_
  split
  · split
    · exact .last fun _ => Run.yields_pure hself
    · exact Run.yields_pure hnone
  · split
    · exact .last fun _ => Run.yields_pure hself
    · split
      · refine .bind (f.input_entity args) fun f' hf' => Run.yields_pure ?_
        rintro f'' ⟨⟩
        exact hf'
      · split
        · exact .last fun _ => Run.yields_pure hself
        · exact Run.yields_pure hnone
  · exact Run.yields_pure hnone

theorem Frame.emit_entity (f : Frame) (target : Target) (event : String) (args : List Value) :
    (f.emit target event args).Yields fun f' => f'.entity = f.entity := by
  unfold Frame.emit
  refine .bind (f.builtin?_entity target event args) fun r hr => ?_
  cases r with
  | some f' => exact Run.yields_pure (hr f' rfl)
  | none => exact .last fun _ => Run.yields_pure rfl

mutual

theorem Frame.execute_entity (call : Call) (f : Frame) :
    (a : Action) → (f.execute call a).Yields fun r => r.1.entity = f.entity
  | .set value name => by
    rw [Frame.execute]
    exact .last fun _ => .bind (f.assign_entity _ _) fun _ hf => Run.yields_pure hf
  | .setIndexed value pool index => by
    rw [Frame.execute]
    exact .last fun _ => .last fun _ => .last fun _ => .last fun _ => Run.yields_pure rfl
  | .guard condition => by
    rw [Frame.execute]
    exact .last fun _ => .last fun _ => Run.yields_pure rfl
  | .check condition body => by
    rw [Frame.execute]
    refine .last fun _ => .last fun passed => ?_
    cases passed with
    | true => exact f.execute_entity call body
    | false => exact Run.yields_pure rfl
  | .block body => by
    rw [Frame.execute]
    exact f.executeAll_entity call body
  | .call target event args field => by
    rw [Frame.execute]
    exact .last fun _ => .last fun _ => .last fun _ =>
      .bind (f.assign_entity _ _) fun _ hf => Run.yields_pure hf
  | .callIndexed target event args pool index => by
    rw [Frame.execute]
    exact .last fun _ => .last fun _ => .last fun _ => .last fun _ => .last fun _ =>
      .last fun _ => Run.yields_pure rfl
  | .emit target event args => by
    rw [Frame.execute]
    dsimp only
    split
    · exact .last fun _ => .bind (f.emit_entity _ _ _) fun _ hf => Run.yields_pure hf
    · exact .last fun _ => .bind (f.emit_entity _ _ _) fun _ hf => Run.yields_pure hf
  | .subscribe target event handler args => by
    rw [Frame.execute]
    exact .last fun _ => Run.yields_pure rfl
  | .unsubscribe target event handler => by
    rw [Frame.execute]
    exact .last fun _ => Run.yields_pure rfl

theorem Frame.executeAll_entity (call : Call) (f : Frame) :
    (body : List Action) → (f.executeAll call body).Yields fun r => r.1.entity = f.entity
  | [] => by
    rw [Frame.executeAll]
    exact Run.yields_pure rfl
  | a :: rest => by
    rw [Frame.executeAll]
    refine .bind (f.execute_entity call a) fun r hr => ?_
    obtain ⟨f', progress⟩ := r
    cases progress with
    | goOn => exact fun w r w' h => (f'.executeAll_entity call rest w r w' h).trans hr
    | halt => exact Run.yields_pure hr

end

end Entity

/-! ## Actions and events -/

section Execute

variable {w : World} {C : World → World → Prop}

theorem Frame.callee_stepwise (f : Frame) (target : Target) : (f.callee target).Via C w := by
  unfold Frame.callee
  split
  · exact Run.stepwise_pure _
  · exact Run.stepwise_pure _
  · refine .get ?_
    split
    · exact Run.stepwise_pure _
    · exact Run.stepwise_throw _
  · exact Run.stepwise_throw _

/-- A way of calling events that makes steps of the given kind only. -/
def Call.Via (C : World → World → Prop) (call : Call) : Prop :=
  ∀ target event args w, (call target event args).Via C w

/-- A way of calling events that makes elementary changes only. -/
abbrev Call.Stepwise (call : Call) : Prop := call.Via World.Change

theorem Call.refuse_stepwise : Call.refuse.Via C := by
  intro target event args w
  unfold Call.refuse
  refine .get ?_
  split
  · exact Run.stepwise_throw _
  · exact Run.stepwise_throw _

theorem Run.changeSubscriptions_stepwise [World.StepKind C]
    {change : World → Except Fault Subscriptions}
    (h : ∀ subs, change w = .ok subs → C w { w with subscriptions := subs }) :
    (Run.changeSubscriptions change).Via C w := by
  unfold Run.changeSubscriptions
  refine .get ?_
  split
  · rename_i subs hs
    exact Run.stepwise_set (h subs hs)
  · split
    · exact Run.stepwise_set (World.StepKind.quiet
        (.host w (w.host.used_note (reportsFault_subscription_error _))) rfl)
    · exact Run.stepwise_throw _

section Licence

variable {id : EntityId} {may : World → Prop} {call : Call}

mutual

theorem Frame.execute_via [World.StepKind C] (hmay : World.Licence C id may)
    (hcall : call.Via C) (f : Frame) (hf : f.entity = id) :
    (a : Action) → {w : World} → may w → (f.execute call a).Via C w
  | .set value name, w, _ => by
    rw [Frame.execute]
    exact .bind (f.eval_stepwise value) fun _ _ _ =>
      .bind (f.assign_stepwise _ _) fun _ _ _ => Run.stepwise_pure _
  | .setIndexed value pool index, w, _ => by
    rw [Frame.execute]
    exact .bind (f.eval_stepwise value) fun _ _ _ => .bind (f.eval_stepwise index) fun _ _ _ =>
      .lift fun _ _ => .bind (Run.changePool_stepwise _ _ _) fun _ _ _ => Run.stepwise_pure _
  | .guard condition, w, _ => by
    rw [Frame.execute]
    exact .bind (f.eval_stepwise condition) fun _ _ _ => .lift fun _ _ => Run.stepwise_pure _
  | .check condition body, w, hw => by
    rw [Frame.execute]
    refine .bindKeeping hmay.kept (f.eval_stepwise condition) hw fun _ _ _ hw' =>
      .lift fun passed _ => ?_
    cases passed with
    | true => exact f.execute_via hmay hcall hf body hw'
    | false => exact Run.stepwise_pure _
  | .block body, w, hw => by
    rw [Frame.execute]
    exact f.executeAll_via hmay hcall hf body hw
  | .call target event args field, w, _ => by
    rw [Frame.execute]
    exact .bind (f.evalAll_stepwise args) fun _ _ _ => .bind (f.callee_stepwise target) fun _ _ _ =>
      .bind (hcall _ _ _ _) fun _ _ _ => .bind (f.assign_stepwise _ _) fun _ _ _ =>
      Run.stepwise_pure _
  | .callIndexed target event args pool index, w, _ => by
    rw [Frame.execute]
    exact .bind (f.evalAll_stepwise args) fun _ _ _ => .bind (f.callee_stepwise target) fun _ _ _ =>
      .bind (hcall _ _ _ _) fun _ _ _ => .bind (f.eval_stepwise index) fun _ _ _ =>
      .lift fun _ _ => .bind (Run.changePool_stepwise _ _ _) fun _ _ _ => Run.stepwise_pure _
  | .emit target event args, w, _ => by
    rw [Frame.execute]
    dsimp only
    split
    · exact .bind (f.evalEach_stepwise args) fun _ _ _ =>
        .bind (f.emit_stepwise _ _ _) fun _ _ _ => Run.stepwise_pure _
    · exact .bind (f.evalAll_stepwise args) fun _ _ _ =>
        .bind (f.emit_stepwise _ _ _) fun _ _ _ => Run.stepwise_pure _
  | .subscribe target event handler args, w, hw => by
    rw [Frame.execute, hf]
    exact .bind (Run.changeSubscriptions_stepwise fun _ hs => hmay.subscribe hw hs) fun _ _ _ =>
      Run.stepwise_pure _
  | .unsubscribe target event handler, w, hw => by
    rw [Frame.execute, hf]
    exact .bind (Run.changeSubscriptions_stepwise fun _ hs => hmay.unsubscribe hw hs) fun _ _ _ =>
      Run.stepwise_pure _

theorem Frame.executeAll_via [World.StepKind C] (hmay : World.Licence C id may)
    (hcall : call.Via C) (f : Frame) (hf : f.entity = id) :
    (body : List Action) → {w : World} → may w → (f.executeAll call body).Via C w
  | [], w, _ => by
    rw [Frame.executeAll]
    exact Run.stepwise_pure _
  | a :: rest, w, hw => by
    rw [Frame.executeAll]
    refine .bindKeeping hmay.kept (f.execute_via hmay hcall hf a hw) hw fun r w' hr hw' => ?_
    have hf' := (f.execute_entity call a w r w' hr).trans hf
    obtain ⟨f', progress⟩ := r
    cases progress with
    | goOn => exact f'.executeAll_via hmay hcall hf' rest hw'
    | halt => exact Run.stepwise_pure _

end

theorem Event.run_via [World.StepKind C] (hmay : World.Licence C id may) (hcall : call.Via C)
    (e : Event) (args : List Value) (hw : may w) :
    (e.run call id args).Via C w := by
  unfold Event.run
  exact .get (.lift fun _ _ => .bind (Frame.executeAll_via hmay hcall _ rfl _ hw) fun _ _ _ =>
    Run.stepwise_pure _)

end Licence

theorem Frame.execute_stepwise {call : Call} (hcall : call.Stepwise) (f : Frame) (a : Action)
    {w : World} : (f.execute call a).Stepwise w :=
  f.execute_via (World.Change.licence f.entity) hcall rfl a trivial

/-! ## Calls and messages -/

theorem Run.asCall_stepwise [World.StepKind C] {α : Type} {r : Run α} (hw : w.calling = false)
    (h : r.Via C { w with calling := true }) : (Run.asCall r).Via C w := by
  -- the mark is taken back also after a fault, so the same steps lead there without it
  have hmarked : Relation.ReflTransGen C { w with calling := true } _ := h
  have hrun : Relation.ReflTransGen C { w with calling := false } (Run.asCall r w).2 :=
    hmarked.lift (fun x : World => { x with calling := false })
      fun _ _ hc => World.StepKind.mark false hc
  have hstart : { w with calling := false } = w := by rw [← hw]
  rw [hstart] at hrun
  exact hrun

end Execute

section Licensed

variable {w : World} {C : World → World → Prop} [World.Licensed C]

theorem Call.through_stepwise {inner : Call} (h : inner.Via C) : (Call.through inner).Via C := by
  intro target event args w
  unfold Call.through
  refine .get ?_
  split
  · exact Run.stepwise_throw _
  · rename_i e he
    split
    · exact Run.stepwise_throw _
    · rename_i hw
      refine Run.asCall_stepwise (Bool.eq_false_iff.mpr hw) ?_
      split
      · exact Run.stepwise_throw _
      · obtain ⟨may, hmay, hstart⟩ :=
          World.Licensed.licence (C := C) (w := { w with calling := true }) he
        exact Event.run_via hmay h _ _ hstart

theorem Call.perform_stepwise : Call.perform.Via C :=
  Call.through_stepwise Call.refuse_stepwise

/-- Handling a message makes steps of the kind only, also if it ends in a fault. -/
theorem Message.handle_stepwise (m : Message) : m.handle.Via C w := by
  unfold Message.handle
  refine .get ?_
  split
  · exact Run.stepwise_pure _
  · rename_i event hevent
    obtain ⟨e, he, _⟩ := Option.bind_eq_some_iff.mp hevent
    obtain ⟨may, hmay, hw⟩ := World.Licensed.licence (C := C) he
    exact .bind (Event.run_via hmay Call.perform_stepwise event m.args hw) fun _ _ _ =>
      Run.stepwise_pure _

end Licensed

end EntityScript
