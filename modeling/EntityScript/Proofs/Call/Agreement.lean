import EntityScript.Proofs.Call.Mark

/-! # Messages and calls agree

An event runs in one of two ways: because a message for it is handled, or because it is
called. A called event runs while the call is marked in the state, and its own calls are
refused. Nothing but a call looks at that mark. So a computation that makes no calls does the
same with the mark set as it does with the mark clear (`Run.Mirrors`), whatever it emits, and
an event without calls does the same in both ways (`Message.handle_eq_call`). -/

namespace EntityScript

/-- The state with the mark of a call set or clear. -/
def World.marked (w : World) (b : Bool) : World := { w with calling := b }

theorem World.marked_of_calling {w : World} {b : Bool} (h : w.calling = b) : w.marked b = w := by
  rw [← h, World.marked]

theorem World.marked_marked (w : World) (b c : Bool) : (w.marked b).marked c = w.marked c := rfl

namespace Run

variable {α β : Type} {b : Bool} {w : World}

/-- With the mark at `b`, the computation `r` does all that `s` does from `w` on. -/
def Mirrors (b : Bool) (r s : Run α) (w : World) : Prop :=
  r (w.marked b) = ((s w).1, (s w).2.marked b)

theorem mirrors_pure (a : α) : (pure a : Run α).Mirrors b (pure a) w := rfl

theorem mirrors_throw (fault : Fault) : (throw fault : Run α).Mirrors b (throw fault) w := rfl

theorem mirrors_lift (x : Except Fault α) : (liftM x : Run α).Mirrors b (liftM x) w := rfl

theorem mirrors_set {v w' : World} (hv : v = w'.marked b) :
    (set v : Run Unit).Mirrors b (set w') w := by
  rw [hv]
  rfl

/-- Sending looks at the table, the queue and the subscriptions only. -/
theorem mirrors_send (m : Message) : (Run.send m).Mirrors b (Run.send m) w := rfl

theorem Mirrors.bind {r s : Run α} {k l : α → Run β} (hr : r.Mirrors b s w)
    (hk : ∀ a w', s w = (.ok a, w') → (k a).Mirrors b (l a) w') :
    (r >>= k).Mirrors b (s >>= l) w := by
  unfold Mirrors at hr hk ⊢
  rw [bind_apply, bind_apply, hr]
  match hs : s w with
  | (.ok a, w') => exact hk a w' hs
  | (.error fault, w') => rfl

/-- What goes on with the state goes on with it as it is marked. -/
theorem Mirrors.get {k l : World → Run α} (h : (k (w.marked b)).Mirrors b (l w) w) :
    (MonadState.get >>= k : Run α).Mirrors b (MonadState.get >>= l) w := h

theorem Mirrors.lift {x : Except Fault α} {k l : α → Run β}
    (h : ∀ a, x = .ok a → (k a).Mirrors b (l a) w) :
    (liftM x >>= k : Run β).Mirrors b (liftM x >>= l) w := by
  refine .bind (mirrors_lift x) ?_
  rintro a w' ⟨⟩
  exact h a rfl

theorem Mirrors.set {v w' : World} {k l : Unit → Run α} (hv : v = w'.marked b)
    (h : (k ()).Mirrors b (l ()) w') :
    (MonadState.set v >>= k : Run α).Mirrors b (MonadState.set w' >>= l) w := by
  refine .bind (mirrors_set hv) ?_
  rintro a w'' ⟨⟩
  exact h

end Run

/-! ## Frames and pools -/

section Frame

variable {b : Bool} {w : World} (f : Frame)

theorem Frame.eval_mirrors (e : Expr) : (f.eval e).Mirrors b (f.eval e) w := by
  unfold Frame.eval
  exact .get (.lift fun c _ => Run.mirrors_lift _)

theorem Frame.evalAll_mirrors (es : List Expr) : (f.evalAll es).Mirrors b (f.evalAll es) w := by
  induction es generalizing w with
  | nil => exact Run.mirrors_pure _
  | cons e es ih =>
    exact .bind (f.eval_mirrors e) fun _ _ _ => .bind ih fun _ _ _ => Run.mirrors_pure _

theorem Frame.evalEach_mirrors (es : List Expr) :
    (f.evalEach es).Mirrors b (f.evalEach es) w := by
  induction es generalizing w with
  | nil => exact Run.mirrors_pure _
  | cons e es ih =>
    exact .get (.lift fun _ _ => .bind ih fun _ _ _ => Run.mirrors_pure _)

theorem Frame.assign_mirrors (name : String) (v : Value) :
    (f.assign name v).Mirrors b (f.assign name v) w := by
  unfold Frame.assign
  refine .get ?_
  dsimp only [World.marked]
  split
  · exact Run.mirrors_throw _
  · split
    · exact .set rfl (Run.mirrors_pure _)
    · exact Run.mirrors_pure _

theorem Run.changePool_mirrors (owner : EntityId) (field : String)
    (change : List Value → Except Fault (List Value)) :
    (Run.changePool owner field change).Mirrors b (Run.changePool owner field change) w := by
  unfold Run.changePool
  exact .get (.lift fun _ _ => .lift fun _ _ => Run.mirrors_set rfl)

end Frame

/-! ## Emitting -/

section Emit

variable {b : Bool} {w : World} (f : Frame)

theorem Frame.input_mirrors (args : List Value) : (f.input args).Mirrors b (f.input args) w := by
  unfold Frame.input
  refine .get (.set rfl ?_)
  dsimp only [World.marked]
  split
  · exact Run.mirrors_pure _
  · exact f.assign_mirrors _ _

theorem Run.callHost_mirrors (args : List Value) :
    (Run.callHost args).Mirrors b (Run.callHost args) w := by
  unfold Run.callHost
  split
  · exact Run.mirrors_pure _
  · exact .get (Run.mirrors_set rfl)

theorem Frame.builtin?_mirrors (target : Target) (event : String) (args : List Value) :
    (f.builtin? target event args).Mirrors b (f.builtin? target event args) w := by
  unfold Frame.builtin?
  refine .get ?_
  dsimp only [World.marked]
  split
  · split
    · exact .set rfl (Run.mirrors_pure _)
    · exact Run.mirrors_pure _
  · split
    · exact .set rfl (Run.mirrors_pure _)
    · split
      · exact .bind (f.input_mirrors args) fun _ _ _ => Run.mirrors_pure _
      · split
        · exact .bind (Run.callHost_mirrors args) fun _ _ _ => Run.mirrors_pure _
        · exact Run.mirrors_pure _
  · exact Run.mirrors_pure _

theorem Run.sendAll_mirrors (ms : List Message) :
    (Run.sendAll ms).Mirrors b (Run.sendAll ms) w := by
  induction ms generalizing w with
  | nil => exact Run.mirrors_pure _
  | cons m ms ih => exact .bind (Run.mirrors_send m) fun _ _ _ => ih

theorem Run.each_mirrors (owner : EntityId) (field : String) (args : List Value) :
    (Run.each owner field args).Mirrors b (Run.each owner field args) w := by
  unfold Run.each
  split
  · exact Run.mirrors_throw _
  · exact Run.mirrors_throw _
  · exact .get (.lift fun _ _ => Run.sendAll_mirrors _)

theorem Run.addCopy_mirrors (owner : EntityId) (field : String) (source : EntityId) :
    (Run.addCopy owner field source).Mirrors b (Run.addCopy owner field source) w := by
  unfold Run.addCopy
  exact .get (.lift fun _ _ => .set rfl (.lift fun _ _ =>
    .bind (Run.changePool_mirrors _ _ _) fun _ _ _ => Run.mirrors_send _))

theorem Run.poolCommand_mirrors (owner : EntityId) (field : String) (command : Pool.Command)
    (args : List Value) : (Run.poolCommand owner field command args).Mirrors b
      (Run.poolCommand owner field command args) w := by
  unfold Run.poolCommand
  split
  · exact Run.each_mirrors owner field args
  · refine .get ?_
    dsimp only [World.marked]
    split
    · exact Run.addCopy_mirrors _ _ _
    · exact Run.changePool_mirrors _ _ _
  · exact Run.changePool_mirrors _ _ _

theorem Frame.route_mirrors (target : Target) (event : String) (args : List Value) :
    (f.route target event args).Mirrors b (f.route target event args) w := by
  unfold Frame.route
  refine .get ?_
  dsimp only [World.marked]
  cases target with
  | implicit => exact Run.mirrors_send _
  | self => exact Run.mirrors_send _
  | remote entity field =>
    dsimp only
    split
    · exact Run.mirrors_throw _
    · split
      · exact Run.mirrors_throw _
      · exact Run.poolCommand_mirrors _ _ _ _
  | named name =>
    dsimp only
    cases if w.table.ownsPool f.entity name then Pool.Command.ofName? event else none with
    | some command => exact Run.poolCommand_mirrors _ _ _ _
    | none =>
      dsimp only
      split
      · exact Run.mirrors_throw _
      · exact Run.mirrors_send _

theorem Frame.emit_mirrors (target : Target) (event : String) (args : List Value) :
    (f.emit target event args).Mirrors b (f.emit target event args) w := by
  unfold Frame.emit
  refine .bind (f.builtin?_mirrors target event args) fun done _ _ => ?_
  cases done with
  | some f' => exact Run.mirrors_pure _
  | none => exact .bind (f.route_mirrors target event args) fun _ _ _ => Run.mirrors_pure _

/-- A change of the subscriptions that looks at the table and the subscriptions only. -/
theorem Run.changeSubscriptions_mirrors {change : World → Except Fault Subscriptions}
    (h : change (w.marked b) = change w) :
    (Run.changeSubscriptions change).Mirrors b (Run.changeSubscriptions change) w := by
  unfold Run.changeSubscriptions
  refine .get ?_
  rw [h]
  split
  · exact Run.mirrors_set rfl
  · split
    · exact Run.mirrors_set rfl
    · exact Run.mirrors_throw _

end Emit

/-! ## Actions without calls -/

mutual

/-- The action calls no event, and neither does any action inside it. -/
def Action.isCallFree : Action → Bool
  | .call _ _ _ _ => false
  | .callIndexed _ _ _ _ _ => false
  | .check _ body => body.isCallFree
  | .block body => Action.allCallFree body
  | _ => true

/-- None of the actions calls an event. -/
def Action.allCallFree : List Action → Bool
  | [] => true
  | a :: rest => a.isCallFree && Action.allCallFree rest

end

section Execute

variable {b : Bool} (call call' : Call)

mutual

/-- How calls are made makes no difference to an action without calls, and neither does the
mark. -/
theorem Frame.execute_mirrors (f : Frame) : (a : Action) → a.isCallFree = true → {w : World} →
    (f.execute call a).Mirrors b (f.execute call' a) w
  | .set value name, _, w => by
    rw [Frame.execute, Frame.execute]
    exact .bind (f.eval_mirrors value) fun _ _ _ =>
      .bind (f.assign_mirrors _ _) fun _ _ _ => Run.mirrors_pure _
  | .setIndexed value pool index, _, w => by
    rw [Frame.execute, Frame.execute]
    exact .bind (f.eval_mirrors value) fun _ _ _ => .bind (f.eval_mirrors index) fun _ _ _ =>
      .lift fun _ _ => .bind (Run.changePool_mirrors _ _ _) fun _ _ _ => Run.mirrors_pure _
  | .guard condition, _, w => by
    rw [Frame.execute, Frame.execute]
    exact .bind (f.eval_mirrors condition) fun _ _ _ => .lift fun _ _ => Run.mirrors_pure _
  | .check condition body, hfree, w => by
    rw [Frame.execute, Frame.execute]
    refine .bind (f.eval_mirrors condition) fun _ _ _ => .lift fun passed _ => ?_
    cases passed with
    | true => exact f.execute_mirrors body hfree
    | false => exact Run.mirrors_pure _
  | .block body, hfree, w => by
    rw [Frame.execute, Frame.execute]
    exact f.executeAll_mirrors body hfree
  | .call _ _ _ _, hfree, _ => nomatch hfree
  | .callIndexed _ _ _ _ _, hfree, _ => nomatch hfree
  | .emit target event args, _, w => by
    rw [Frame.execute, Frame.execute]
    dsimp only
    split
    · exact .bind (f.evalEach_mirrors args) fun _ _ _ =>
        .bind (f.emit_mirrors _ _ _) fun _ _ _ => Run.mirrors_pure _
    · exact .bind (f.evalAll_mirrors args) fun _ _ _ =>
        .bind (f.emit_mirrors _ _ _) fun _ _ _ => Run.mirrors_pure _
  | .subscribe target event handler args, _, w => by
    rw [Frame.execute, Frame.execute]
    exact .bind (Run.changeSubscriptions_mirrors rfl) fun _ _ _ => Run.mirrors_pure _
  | .unsubscribe target event handler, _, w => by
    rw [Frame.execute, Frame.execute]
    exact .bind (Run.changeSubscriptions_mirrors rfl) fun _ _ _ => Run.mirrors_pure _

theorem Frame.executeAll_mirrors (f : Frame) : (body : List Action) →
    Action.allCallFree body = true → {w : World} →
    (f.executeAll call body).Mirrors b (f.executeAll call' body) w
  | [], _, w => by
    rw [Frame.executeAll, Frame.executeAll]
    exact Run.mirrors_pure _
  | a :: rest, hfree, w => by
    rw [Action.allCallFree, Bool.and_eq_true] at hfree
    rw [Frame.executeAll, Frame.executeAll]
    refine .bind (f.execute_mirrors a hfree.1) fun r w' _ => ?_
    obtain ⟨f', progress⟩ := r
    cases progress with
    | goOn => exact f'.executeAll_mirrors rest hfree.2
    | halt => exact Run.mirrors_pure _

end

theorem Event.run_mirrors {e : Event} (hfree : Action.allCallFree e.body = true)
    (entity : EntityId) (args : List Value) {w : World} :
    (e.run call entity args).Mirrors b (e.run call' entity args) w := by
  unfold Event.run
  exact .get (.lift fun _ _ => .bind (Frame.executeAll_mirrors call call' _ _ hfree)
    fun _ _ _ => Run.mirrors_pure _)

end Execute

/-! ## The two ways -/

theorem Message.handle_found {w : World} {m : Message} {e : Entity} {event : Event}
    (he : w.table.get? m.target = some e) (hevent : e.event? m.event = some event) :
    m.handle w = ((event.run Call.perform m.target m.args w).1.map fun _ => (),
      (event.run Call.perform m.target m.args w).2) := by
  unfold Message.handle
  rw [Run.get_bind_apply, he, Option.bind_some, hevent]
  simp only [Run.bind_apply]
  match event.run Call.perform m.target m.args w with
  | (.ok v, w') => rfl
  | (.error fault, w') => rfl

/-- A call that is carried out runs the event from the marked state, and takes the mark off. -/
theorem World.call_found {w : World} {target : EntityId} {name : String} {e : Entity}
    {event : Event} (hclear : w.calling = false) (he : w.table.get? target = some e)
    (hevent : e.event? name = some event) (args : List Value) :
    w.call target name args = ((event.run Call.refuse target args (w.marked true)).1,
      (event.run Call.refuse target args (w.marked true)).2.marked false) := by
  rw [World.call, Call.perform_clear he hclear, Entity.respond, hevent]
  rfl

/-- **Handling and calling agree on events without calls.** While no call is under way, a
message for an event whose actions call nothing, at any depth, and a call of the event with
the same arguments come to the same: both run the event to its end, or both end with the same
fault, and they leave the same state, with its table, queue and subscriptions, with all that
was written, asked and called in the transcript, and with no call under way. -/
theorem Message.handle_eq_call {w : World} {m : Message} {e : Entity} {event : Event}
    (hclear : w.calling = false) (he : w.table.get? m.target = some e)
    (hevent : e.event? m.event = some event) (hfree : Action.allCallFree event.body = true) :
    m.handle w = ((w.call m.target m.event m.args).1.map fun _ => (),
      (w.call m.target m.event m.args).2) := by
  have hmirrors : event.run Call.refuse m.target m.args (w.marked true) =
      ((event.run Call.perform m.target m.args w).1,
        (event.run Call.perform m.target m.args w).2.marked true) :=
    Event.run_mirrors Call.refuse Call.perform hfree m.target m.args
  -- The call takes the mark off behind the event; handling has never set it.
  have hcalling : (m.handle w).2.calling = false := (m.handle_calling w).trans hclear
  rw [Message.handle_found he hevent] at hcalling ⊢
  rw [World.call_found hclear he hevent, hmirrors, World.marked_marked,
    World.marked_of_calling hcalling]

/-- What a crier does with news: tell them, keep them, and bring on one more crier, who hears of
it; but not what comes behind the test inside the blocks. -/
def Event.cry : Event where
  name := "cry"
  params := ["news"]
  body := [
    .block [.emit .implicit "log" [.var "news"], .set (.var "news") "word"],
    .check (.var "news") (.block [
      .emit (.named "crowd") "add" [.literal (.string "crier")],
      .guard (.literal (.bool false)),
      .emit .self "cry" []]),
    .emit .implicit "log" [.var "word"]]

/-- A crier in front of an empty crowd. -/
def World.market : World where
  table := ⟨[⟨⟨0⟩, "crier", .ofList [("crowd", .pool []), ("word", .null)], ⟨[.cry]⟩, false⟩],
    .ofList [("crier", ⟨0⟩)], 1⟩

/-- The crier cries the same, and the new crier is sent the same, in both ways. -/
theorem Message.handle_eq_call_market :
    World.market.calling = false ∧ Action.allCallFree Event.cry.body = true ∧
    World.market.call ⟨0⟩ "cry" [.bool true] =
      (.ok (.bool true), (Message.handle ⟨⟨0⟩, "cry", [.bool true]⟩ World.market).2) ∧
    (Message.handle ⟨⟨0⟩, "cry", [.bool true]⟩ World.market).1 = .ok () ∧
    (Message.handle ⟨⟨0⟩, "cry", [.bool true]⟩ World.market).2.queue.pending =
      [⟨⟨1⟩, "init", []⟩] := by
  have hagree := Message.handle_eq_call (w := World.market) (m := ⟨⟨0⟩, "cry", [.bool true]⟩)
    rfl rfl rfl rfl
  have hcall : (World.market.call ⟨0⟩ "cry" [.bool true]).1 = .ok (.bool true) := rfl
  refine ⟨rfl, rfl, ?_, ?_, rfl⟩
  · rw [hagree]
    exact Prod.ext hcall rfl
  · rw [hagree]
    exact congrArg (Except.map fun _ => ()) hcall

end EntityScript
