import EntityScript.Dispatch.Cycle
import EntityScript.Proofs.Call.Machine
import EntityScript.Proofs.Send.Bound

/-! # Every event ends

The machine that carries out events one action at a time comes to an end on every event,
with the result and the state that handling the message or making the call gives
(`Machine.handling_ends`). The reason is the mark: while a called event runs it is set, so
a call made there is refused before anything is carried out. Events that call themselves or
each other make no exception. The argument is an induction over actions with the mark
fixed: first with the mark set, where each call is refused, then with the mark clear, where
a call leads to an event with the mark set. -/

namespace EntityScript

/-! ## Computations that change nothing -/

/-- A computation that reads the state and leaves it as it is. -/
def Run.Reads {α : Type} (r : Run α) : Prop := ∀ w, (r w).2 = w

section Reads

variable {α β : Type}

theorem Run.reads_lift (x : Except Fault α) : (liftM x : Run α).Reads := fun _ => rfl

theorem Run.Reads.bind {r : Run α} {k : α → Run β} (hr : r.Reads) (hk : ∀ a, (k a).Reads) :
    (r >>= k).Reads := by
  intro w
  have hw := hr w
  rw [Run.bind_apply]
  match h : r w with
  | (.error fault, w₁) => rw [h] at hw; exact hw
  | (.ok a, w₁) => rw [h] at hw; exact (hk a w₁).trans hw

theorem Run.Reads.get {k : World → Run α} (hk : ∀ w, (k w).Reads) :
    (MonadState.get >>= k : Run α).Reads :=
  .bind (fun _ => rfl) hk

theorem Frame.eval_reads (f : Frame) (e : Expr) : (f.eval e).Reads := by
  unfold Frame.eval
  exact .get fun w => .bind (Run.reads_lift _) fun c => Run.reads_lift _

theorem Frame.evalAll_reads (f : Frame) (es : List Expr) : (f.evalAll es).Reads := by
  induction es with
  | nil => exact fun _ => rfl
  | cons e es ih =>
    exact .bind (f.eval_reads e) fun _ => .bind ih fun _ _ => rfl

theorem Frame.callee_reads (f : Frame) (target : Target) : (f.callee target).Reads := by
  cases target with
  | named name =>
    refine .get fun w => ?_
    cases w.table.idOf? name <;> exact fun _ => rfl
  | implicit | self | remote => exact fun _ => rfl

/-- Finding out whom to call, and with which arguments, changes nothing. -/
theorem Frame.prepare_reads (f : Frame) (target : Target) (args : List Expr) :
    (f.prepare target args).Reads :=
  .bind (f.evalAll_reads args) fun _ => .bind (f.callee_reads target) fun _ _ => rfl

end Reads

/-! ## Actions in parts -/

/-- An action that makes no call and holds no other action. -/
def Action.isSimple : Action → Bool
  | .block _ => false
  | .check _ _ => false
  | .call _ _ _ _ => false
  | .callIndexed _ _ _ _ _ => false
  | _ => true

/-- An action that calls an event. -/
def Action.isCall : Action → Bool
  | .call _ _ _ _ => true
  | .callIndexed _ _ _ _ _ => true
  | _ => false

/-- Call an event and store its result. -/
def Frame.callInto (call : Call) (f : Frame) (target : Target) (event : String)
    (args : List Expr) (slot : Slot) : Run (Frame × Progress) := do
  let (callee, vs) ← f.prepare target args
  let v ← call callee event vs
  let f ← f.store slot v
  return (f, .goOn)

section Parts

variable (call : Call) (f : Frame)

theorem Frame.execute_check (condition : Expr) (body : Action) :
    f.execute call (.check condition body) = do
      let passed ← f.test condition
      if passed then f.execute call body else return (f, .goOn) := by
  rw [Frame.execute, Frame.test, bind_assoc]

theorem Frame.execute_call (target : Target) (event : String) (args : List Expr)
    (field : String) : f.execute call (.call target event args field) =
      f.callInto call target event args (.named field) := by
  simp only [Frame.execute, Frame.callInto, Frame.prepare, Frame.store, bind_assoc, pure_bind]

theorem Frame.execute_callIndexed (target : Target) (event : String) (args : List Expr)
    (pool : String) (index : Expr) : f.execute call (.callIndexed target event args pool index) =
      f.callInto call target event args (.indexed pool index) := by
  simp only [Frame.execute, Frame.callInto, Frame.prepare, Frame.store, bind_assoc, pure_bind]

theorem Event.run_unbound {e : Event} {args : List Value} {w : World} {fault : Fault}
    (h : e.bind w.settings args = .error fault) (entity : EntityId) :
    e.run call entity args w = (.error fault, w) := by
  unfold Event.run
  rw [Run.get_bind_apply, h]
  rfl

theorem Event.run_bound {e : Event} {args : List Value} {w : World} {locals : Scope}
    (h : e.bind w.settings args = .ok locals) (entity : EntityId) :
    e.run call entity args w =
      (do let (f, _) ← Frame.executeAll call ⟨entity, e.name, locals, .null⟩ e.body
          return f.last : Run Value) w := by
  unfold Event.run
  rw [Run.get_bind_apply, h]
  rfl

end Parts

/-! ## The machine does what the functions do -/

/-- With the mark at `b`, the machine carries out a call as `call` does. -/
def Call.Realised (call : Call) (b : Bool) : Prop :=
  ∀ who waiting target event args w, w.calling = b →
    Machine.Reaches (.issue who waiting target event args w)
      (.answer who waiting (call target event args w))

namespace Machine

variable {call : Call} {b : Bool} {w : World}

/-- What a call leads to is what comes behind it in the action. -/
theorem answer_eq_resume (f : Frame) (slot : Slot) (rest : List Action) (waiting : List Waiter)
    (r : Run Value) (w : World) :
    answer (.event f slot rest) waiting (r w) =
      resume rest waiting
        ((do let v ← r; let f ← f.store slot v; return (f, Progress.goOn) : Run _) w) := by
  rw [Run.bind_apply]
  match r w with
  | (.error fault, w₁) => rfl
  | (.ok v, w₁) =>
    simp only [answer, proceed, Run.bind_apply]
    match f.store slot v w₁ with
    | (.error fault, w₂) => rfl
    | (.ok f₁, w₂) => rfl

theorem request_reaches (hcall : call.Realised b) (f : Frame) (slot : Slot) (rest : List Action)
    (waiting : List Waiter) (target : Target) (event : String) (args : List Expr)
    (hw : w.calling = b) :
    Reaches (request f slot rest waiting target event args w)
      (resume rest waiting (f.callInto call target event args slot w)) := by
  have hprepared : (f.prepare target args w).2.calling = b := by
    rw [f.prepare_reads target args w]
    exact hw
  unfold request Frame.callInto
  rw [Run.bind_apply]
  match hp : f.prepare target args w with
  | (.error fault, w₁) => exact .refl
  | (.ok (callee, vs), w₁) =>
    rw [hp] at hprepared
    have hanswer := hcall (.event f slot rest) waiting callee event vs w₁ hprepared
    rw [answer_eq_resume] at hanswer
    exact hanswer

theorem step_simple (call : Call) (f : Frame) (rest : List Action) (waiting : List Waiter)
    (w : World) {a : Action} (ha : a.isSimple = true) :
    step ⟨w, .running f (a :: rest), waiting⟩ =
      some (resume rest waiting (f.execute call a w)) := by
  cases a with
  | block | check | call | callIndexed => cases ha
  | set | setIndexed | guard | emit | subscribe | unsubscribe =>
    simp only [step, perform, Frame.execute]

mutual

theorem execute_reaches (hs : call.Stepwise) (hcall : call.Realised b) (f : Frame)
    (rest : List Action) (waiting : List Waiter) :
    (a : Action) → {w : World} → w.calling = b →
    Reaches ⟨w, .running f (a :: rest), waiting⟩ (resume rest waiting (f.execute call a w))
  | .check condition body, w, hw => by
    refine .head rfl ?_
    rw [Frame.execute_check, Run.bind_apply, perform]
    have htested : (f.test condition w).2.calling = b :=
      (f.test_stepwise condition).calling_eq.trans hw
    match ht : f.test condition w with
    | (.error fault, w₁) => exact .refl
    | (.ok false, w₁) => exact .refl
    | (.ok true, w₁) =>
      rw [ht] at htested
      exact execute_reaches hs hcall f rest waiting body htested
  | .block body, w, hw => by
    refine .head rfl ?_
    rw [Frame.execute, perform]
    exact executeAll_reaches hs hcall f rest waiting body hw
  | .call target event args field, w, hw => by
    refine .head rfl ?_
    rw [Frame.execute_call]
    exact request_reaches hcall f _ rest waiting target event args hw
  | .callIndexed target event args pool index, w, hw => by
    refine .head rfl ?_
    rw [Frame.execute_callIndexed]
    exact request_reaches hcall f _ rest waiting target event args hw
  | .set _ _, _, _ => .single (step_simple call f rest waiting _ rfl)
  | .setIndexed _ _ _, _, _ => .single (step_simple call f rest waiting _ rfl)
  | .guard _, _, _ => .single (step_simple call f rest waiting _ rfl)
  | .emit _ _ _, _, _ => .single (step_simple call f rest waiting _ rfl)
  | .subscribe _ _ _ _, _, _ => .single (step_simple call f rest waiting _ rfl)
  | .unsubscribe _ _ _, _, _ => .single (step_simple call f rest waiting _ rfl)

theorem executeAll_reaches (hs : call.Stepwise) (hcall : call.Realised b) (f : Frame)
    (rest : List Action) (waiting : List Waiter) :
    (body : List Action) → {w : World} → w.calling = b →
    Reaches ⟨w, .running f (body ++ rest), waiting⟩
      (resume rest waiting (f.executeAll call body w))
  | [], w, _ => by
    rw [Frame.executeAll]
    exact .refl
  | a :: body, w, hw => by
    have hfirst := execute_reaches hs hcall f (body ++ rest) waiting a hw
    have hcalling : (f.execute call a w).2.calling = b :=
      (f.execute_stepwise hs a).calling_eq.trans hw
    rw [Frame.executeAll, Run.bind_apply]
    match hr : f.execute call a w with
    | (.error fault, w₁) => rw [hr] at hfirst; exact hfirst
    | (.ok (f₁, .halt), w₁) => rw [hr] at hfirst; exact hfirst
    | (.ok (f₁, .goOn), w₁) =>
      -- the first action has left the mark at `b`, so the others are carried out likewise
      rw [hr] at hfirst hcalling
      exact hfirst.trans (executeAll_reaches hs hcall f₁ rest waiting body hcalling)

end

/-- An event that is entered ends as running it does. -/
theorem run_reaches (hs : call.Stepwise) (hcall : call.Realised b) (e : Event)
    (entity : EntityId) (args : List Value) (waiting : List Waiter) (hw : w.calling = b) :
    Reaches ⟨w, e.enter w.settings entity args, waiting⟩
      ⟨(e.run call entity args w).2, .ended (e.run call entity args w).1, waiting⟩ := by
  unfold Event.enter
  cases hbind : e.bind w.settings args with
  | error fault =>
    rw [Event.run_unbound call hbind]
  | ok locals =>
    have hbody := executeAll_reaches hs hcall ⟨entity, e.name, locals, .null⟩ [] waiting e.body hw
    rw [List.append_nil] at hbody
    rw [Event.run_bound call hbind, Run.bind_apply]
    match hr : Frame.executeAll call ⟨entity, e.name, locals, .null⟩ e.body w with
    | (.error fault, w₁) => rw [hr] at hbody; exact hbody
    | (.ok (f, .halt), w₁) => rw [hr] at hbody; exact hbody
    | (.ok (f, .goOn), w₁) => rw [hr] at hbody; exact hbody.tail rfl

end Machine

/-! ## Calls -/

/-- What an entity does when it is called: run the event, or fault if it has none of that
name. -/
def Entity.respond (e : Entity) (target : EntityId) (event : String) (args : List Value) :
    Run Value :=
  match e.event? event with
  | none => throw (.eventNotFound e.name event)
  | some handler => handler.run Call.refuse target args

section Calls

variable {w : World} {target : EntityId} {e : Entity}

theorem Call.refuse_missing (ht : w.table.get? target = none) (event : String)
    (args : List Value) :
    Call.refuse target event args w = (.error (.entityNotFound target.text), w) := by
  unfold Call.refuse
  rw [Run.get_bind_apply, ht]
  rfl

theorem Call.refuse_found (ht : w.table.get? target = some e) (event : String)
    (args : List Value) :
    Call.refuse target event args w = (.error (.nestedCall e.name event), w) := by
  unfold Call.refuse
  rw [Run.get_bind_apply, ht]
  rfl

theorem Call.perform_missing (ht : w.table.get? target = none) (event : String)
    (args : List Value) :
    Call.perform target event args w = (.error (.entityNotFound target.text), w) := by
  unfold Call.perform Call.through
  rw [Run.get_bind_apply, ht]
  rfl

/-- While a call is marked, a call is refused and does nothing. -/
theorem Call.perform_marked (ht : w.table.get? target = some e) (hw : w.calling = true)
    (event : String) (args : List Value) :
    Call.perform target event args w = (.error (.nestedCall e.name event), w) := by
  unfold Call.perform Call.through
  rw [Run.get_bind_apply, ht]
  simp only [hw, if_true]
  rfl

/-- While none is marked, a call is carried out. -/
theorem Call.perform_clear (ht : w.table.get? target = some e) (hw : w.calling = false)
    (event : String) (args : List Value) :
    Call.perform target event args w = Run.asCall (e.respond target event args) w := by
  unfold Call.perform Call.through
  rw [Run.get_bind_apply, ht]
  simp only [hw, Bool.false_eq_true, if_false]
  rfl

theorem Machine.issue_missing (ht : w.table.get? target = none) (who : Waiter)
    (waiting : List Waiter) (event : String) (args : List Value) :
    issue who waiting target event args w =
      ⟨w, .ended (.error (.entityNotFound target.text)), waiting⟩ := by
  unfold issue
  rw [ht]

theorem Machine.issue_marked (ht : w.table.get? target = some e) (hw : w.calling = true)
    (who : Waiter) (waiting : List Waiter) (event : String) (args : List Value) :
    issue who waiting target event args w =
      ⟨w, .ended (.error (.nestedCall e.name event)), waiting⟩ := by
  unfold issue
  rw [ht]
  simp only [hw, if_true]

theorem Machine.issue_clear (ht : w.table.get? target = some e) (hw : w.calling = false)
    (who : Waiter) (waiting : List Waiter) (event : String) (args : List Value) :
    issue who waiting target event args w =
      ⟨{ w with calling := true }, .entering target e event args, who :: waiting⟩ := by
  unfold issue
  rw [ht]
  simp only [hw, Bool.false_eq_true, if_false]

end Calls

theorem Call.refuse_realised : Call.refuse.Realised true := by
  intro who waiting target event args w hw
  cases ht : w.table.get? target with
  | none => rw [Machine.issue_missing ht, Call.refuse_missing ht]; rfl
  | some e => rw [Machine.issue_marked ht hw, Call.refuse_found ht]; rfl

/-- A call that is carried out runs its event with the mark set, and takes the mark off
when it ends. -/
theorem Call.perform_realised (b : Bool) : Call.perform.Realised b := by
  intro who waiting target event args w hw
  cases ht : w.table.get? target with
  | none => rw [Machine.issue_missing ht, Call.perform_missing ht]; rfl
  | some e =>
    cases b with
    | true => rw [Machine.issue_marked ht hw, Call.perform_marked ht hw]; rfl
    | false =>
      rw [Machine.issue_clear ht hw, Call.perform_clear ht hw, Entity.respond]
      cases hv : e.event? event with
      | none =>
        refine .head (by rw [Machine.step, hv]) (.single ?_)
        rfl
      | some handler =>
        -- the called event runs with the mark set, where calls are refused
        have hrun := Machine.run_reaches Call.refuse_stepwise Call.refuse_realised handler target
          args (who :: waiting) (w := { w with calling := true }) rfl
        refine .head (by rw [Machine.step, hv]) (hrun.tail ?_)
        rfl

/-! ## The end of an event -/

namespace Machine

theorem handling_reaches (m : Message) (w : World) :
    ∃ r, Reaches (handling m w) ⟨(m.handle w).2, .ended r, []⟩ ∧
      (m.handle w).1 = r.map fun _ => () := by
  unfold handling Message.handle
  rw [Run.get_bind_apply]
  cases (w.table.get? m.target).bind fun e => e.event? m.event with
  | none => exact ⟨.ok .null, .refl, rfl⟩
  | some event =>
    have hrun := run_reaches Call.perform_stepwise (Call.perform_realised w.calling) event m.target
      m.args [] (w := w) rfl
    simp only [Run.bind_apply]
    match hr : event.run Call.perform m.target m.args w with
    | (.ok v, w₁) => rw [hr] at hrun; exact ⟨.ok v, hrun, rfl⟩
    | (.error fault, w₁) => rw [hr] at hrun; exact ⟨.error fault, hrun, rfl⟩

theorem serving_reaches (target : EntityId) (event : String) (args : List Value) (w : World) :
    Reaches (serving target event args w)
      ⟨(w.call target event args).2, .ended (w.call target event args).1, []⟩ := by
  have hcall := Call.perform_realised w.calling .host [] target event args w rfl
  unfold serving World.call
  match hr : Call.perform target event args w with
  | (.ok v, w₁) => rw [hr] at hcall; exact hcall
  | (.error fault, w₁) => rw [hr] at hcall; exact hcall

theorem request_marked (f : Frame) (slot : Slot) (rest : List Action) (waiting : List Waiter)
    (target : Target) (event : String) (args : List Expr) {w : World} (hw : w.calling = true) :
    ∃ fault, request f slot rest waiting target event args w =
      ⟨w, .ended (.error fault), waiting⟩ := by
  have hstate := f.prepare_reads target args w
  unfold request
  match hp : f.prepare target args w with
  | (.error fault, w₁) =>
    rw [hp] at hstate
    obtain rfl : w = w₁ := hstate.symm
    exact ⟨fault, rfl⟩
  | (.ok (callee, vs), w₁) =>
    rw [hp] at hstate
    obtain rfl : w = w₁ := hstate.symm
    cases ht : w.table.get? callee with
    | none => exact ⟨_, issue_missing ht _ waiting event vs⟩
    | some e => exact ⟨_, issue_marked ht hw _ waiting event vs⟩

/-- With the mark set, an action that calls ends its event with a fault at once, and
changes nothing. -/
theorem step_call_marked {f : Frame} {a : Action} {w : World} (ha : a.isCall = true)
    (hw : w.calling = true) (rest : List Action) (waiting : List Waiter) :
    ∃ fault, step ⟨w, .running f (a :: rest), waiting⟩ =
      some ⟨w, .ended (.error fault), waiting⟩ := by
  cases a with
  | call target event args field =>
    obtain ⟨fault, hf⟩ := request_marked f (.named field) rest waiting target event args hw
    exact ⟨fault, congrArg some hf⟩
  | callIndexed target event args pool index =>
    obtain ⟨fault, hf⟩ := request_marked f (.indexed pool index) rest waiting target event args hw
    exact ⟨fault, congrArg some hf⟩
  | block | check | set | setIndexed | guard | emit | subscribe | unsubscribe => cases ha

end Machine

/-! ## A drain need not end -/

/-- An entity that answers each tick by sending itself the next one. -/
def World.metronome : World where
  table := ⟨[⟨⟨0⟩, "metronome", .empty, ⟨[⟨"tick", [], [.emit .self "tick" []]⟩]⟩, false⟩],
    .ofList [("metronome", ⟨0⟩)], 1⟩
  queue := Queue.empty.push ⟨⟨0⟩, "tick", []⟩

theorem World.metronome_step : World.metronome.step = some (none, World.metronome) := rfl

theorem World.metronome_drain (budget : Nat) (report : CycleReport) :
    World.drainFrom budget report World.metronome =
      (⟨report.processed + budget, report.incidents⟩, World.metronome) := by
  induction budget generalizing report with
  | zero => rfl
  | succ budget ih =>
    rw [World.drainFrom, World.metronome_step]
    simp only [ih, CycleReport.add, Option.toList_none, List.append_nil]
    rw [Nat.add_right_comm, Nat.add_assoc]

/-- **Handling a message and making a call always end**, for every state and whatever the
events do: the machine has no endless run, and it ends with the result and the state that
handling and calling are defined to give. Along the way at most one waits for a result, and
only with the mark set; with the mark set, an action that calls ends its event with a fault
before anything is carried out. Sending, the only other recursion, needs no chain longer
than its bound. A drain may go on forever. -/
theorem Machine.handling_ends :
    (∀ (w : World) (m : Message), (handling m w).Halts ∧
      ∃ r, (handling m w).Reaches ⟨(m.handle w).2, .ended r, []⟩ ∧
        (m.handle w).1 = r.map fun _ => ()) ∧
    (∀ (w : World) target event args, (serving target event args w).Halts ∧
      (serving target event args w).Reaches
        ⟨(w.call target event args).2, .ended (w.call target event args).1, []⟩) ∧
    (∀ (w : World) c,
      ((∃ m, (handling m w).Reaches c) ∨
        ∃ target event args, (serving target event args w).Reaches c) →
      c.waiting = [] ∨ (c.waiting.length = 1 ∧ c.world.calling = true)) ∧
    (∀ (w : World) f a rest waiting, w.calling = true → a.isCall = true →
      ∃ fault, step ⟨w, .running f (a :: rest), waiting⟩ =
        some ⟨w, .ended (.error fault), waiting⟩) ∧
    (∀ (w : World) m, Queue.deliver w.table w.subscriptions (Queue.chainBound w.subscriptions)
      w.queue m = some ((w.send m).1, (w.send m).2.queue)) ∧
    ∃ w : World, ∀ budget,
      (w.drain budget).1.processed = budget ∧ (w.drain budget).2.queue.pending ≠ [] := by
  refine ⟨?_, ?_, ?_, ?_, ?_, ?_⟩
  · intro w m
    obtain ⟨r, hreaches, hr⟩ := handling_reaches m w
    exact ⟨halts_of_reaches hreaches rfl, r, hreaches, hr⟩
  · intro w target event args
    have hreaches := serving_reaches target event args w
    exact ⟨halts_of_reaches hreaches rfl, hreaches⟩
  · intro w c hc
    have hmarked : c.Marked w.calling := by
      rcases hc with ⟨m, hreaches⟩ | ⟨target, event, args, hreaches⟩
      · exact reaches_marked hreaches (handling_marked m w)
      · exact reaches_marked hreaches (serving_marked target event args w)
    exact hmarked.imp And.left And.right
  · intro w f a rest waiting hw ha
    exact step_call_marked ha hw rest waiting
  · intro w m
    exact Queue.deliver_chainBound w.table w.subscriptions w.queue m
  · refine ⟨World.metronome, fun budget => ?_⟩
    rw [World.drain, World.metronome_drain]
    exact ⟨Nat.zero_add budget, List.cons_ne_nil _ _⟩

/-- An entity whose event calls itself. -/
def World.echo : World where
  table := ⟨[⟨⟨0⟩, "echo", .ofList [("x", .null)],
      ⟨[⟨"shout", [], [.call .self "shout" [] "x"]⟩]⟩, false⟩], .ofList [("echo", ⟨0⟩)], 1⟩

/-- The event ends because the call that it makes when called is refused. -/
theorem Machine.handling_ends_echo :
    (handling ⟨⟨0⟩, "shout", []⟩ World.echo).Halts ∧
    (Message.handle ⟨⟨0⟩, "shout", []⟩ World.echo).1 = .error (.nestedCall "echo" "shout") ∧
    ∃ fault, step ⟨{ World.echo with calling := true },
        .running ⟨⟨0⟩, "shout", .empty, .null⟩ [.call .self "shout" [] "x"], [.host]⟩ =
      some ⟨{ World.echo with calling := true }, .ended (.error fault), [.host]⟩ := by
  obtain ⟨hhandling, _, _, hrefused, _⟩ := Machine.handling_ends
  exact ⟨(hhandling World.echo _).1, rfl, hrefused _ _ _ [] _ rfl rfl⟩

end EntityScript
