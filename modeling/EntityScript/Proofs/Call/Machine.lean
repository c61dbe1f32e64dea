import EntityScript.Proofs.Dispatch.Change

/-! # Events one action at a time

The functions that carry out an event give its result at once and are total by
construction: an event gets a way of making calls that refuses the calls of a called event.
The machine here does without that. It carries out one action at a step and keeps on a
stack who waits for the result of a call; nothing in it bounds how deep calls nest or how
many steps an event takes. The mark in the state alone decides whether a call is refused.

`Machine.step_cases` says all that a step can do to the mark and the stack: nothing, or
begin a call where the mark is not set, or end one and take the mark off. So along every
run the mark is set while somebody waits, and at most one waits (`Machine.reaches_marked`). -/

namespace EntityScript

/-! ## The parts of a call -/

/-- Where the result of a call is put. -/
inductive Slot where
  | named (field : String)
  | indexed (pool : String) (index : Expr)

def Frame.store (f : Frame) (slot : Slot) (v : Value) : Run Frame :=
  match slot with
  | .named field => do
    let f ← f.assign field v
    return { f with last := v }
  | .indexed pool index => do
    let i ← (← f.eval index).toIndex pool
    f.assignIndexed pool i v
    return { f with last := v }

/-- Whom an action calls, and with which arguments. -/
def Frame.prepare (f : Frame) (target : Target) (args : List Expr) :
    Run (EntityId × List Value) := do
  let vs ← f.evalAll args
  let callee ← f.callee target
  return (callee, vs)

def Frame.test (f : Frame) (condition : Expr) : Run Bool := do
  let v ← f.eval condition
  v.condition

theorem Frame.store_stepwise {w : World} (f : Frame) (slot : Slot) (v : Value) :
    (f.store slot v).Stepwise w := by
  cases slot with
  | named field => exact .bind (f.assign_stepwise _ _) fun _ _ _ => Run.stepwise_pure _
  | indexed pool index =>
    exact .bind (f.eval_stepwise index) fun _ _ _ => .lift fun _ _ =>
      .bind (Run.changePool_stepwise _ _ _) fun _ _ _ => Run.stepwise_pure _

theorem Frame.prepare_stepwise {w : World} (f : Frame) (target : Target) (args : List Expr) :
    (f.prepare target args).Stepwise w :=
  .bind (f.evalAll_stepwise args) fun _ _ _ => .bind (f.callee_stepwise target) fun _ _ _ =>
    Run.stepwise_pure _

theorem Frame.test_stepwise {w : World} (f : Frame) (condition : Expr) :
    (f.test condition).Stepwise w :=
  .bind (f.eval_stepwise condition) fun _ _ _ => Run.stepwise_lift _

/-! ## The machine -/

/-- Who waits for the result of a call. -/
inductive Waiter where
  | host
  /-- An event that goes on with `rest` when the result is stored. -/
  | event (f : Frame) (slot : Slot) (rest : List Action)

inductive Activity where
  | running (f : Frame) (actions : List Action)
  /-- A call has begun; its event is still to be looked up and its arguments to be bound. -/
  | entering (target : EntityId) (e : Entity) (event : String) (args : List Value)
  /-- An event has ended, with the last value that it assigned or with a fault. -/
  | ended (result : Except Fault Value)

structure Machine where
  world : World
  activity : Activity
  /-- Who waits for results, the last caller first. -/
  waiting : List Waiter

/-- An event that is about to run, or the fault in binding its arguments. -/
def Event.enter (e : Event) (settings : Settings) (entity : EntityId) (args : List Value) :
    Activity :=
  match e.bind settings args with
  | .error fault => .ended (.error fault)
  | .ok locals => .running ⟨entity, e.name, locals, .null⟩ e.body

namespace Machine

/-- Go on with the result of a computation; a fault ends the event. -/
def proceed {α : Type} (waiting : List Waiter) (next : α → World → Machine) :
    Except Fault α × World → Machine
  | (.ok a, w) => next a w
  | (.error fault, w) => ⟨w, .ended (.error fault), waiting⟩

/-- Go on behind an action, unless it halted the event. -/
def resume (rest : List Action) (waiting : List Waiter) :
    Except Fault (Frame × Progress) × World → Machine :=
  proceed waiting fun
    | (f, .goOn), w => ⟨w, .running f rest, waiting⟩
    | (f, .halt), w => ⟨w, .ended (.ok f.last), waiting⟩

/-- Begin a call for `who`, unless the mark says that one is being carried out. -/
def issue (who : Waiter) (waiting : List Waiter) (target : EntityId) (event : String)
    (args : List Value) (w : World) : Machine :=
  match w.table.get? target with
  | none => ⟨w, .ended (.error (.entityNotFound target.text)), waiting⟩
  | some e =>
    if w.calling then ⟨w, .ended (.error (.nestedCall e.name event)), waiting⟩
    else ⟨{ w with calling := true }, .entering target e event args, who :: waiting⟩

/-- Give the result of a call to who waits for it. -/
def answer (who : Waiter) (waiting : List Waiter) : Except Fault Value × World → Machine :=
  proceed waiting fun v w =>
    match who with
    | .host => ⟨w, .ended (.ok v), waiting⟩
    | .event f slot rest =>
      proceed waiting (fun f w => ⟨w, .running f rest, waiting⟩) (f.store slot v w)

def request (f : Frame) (slot : Slot) (rest : List Action) (waiting : List Waiter)
    (target : Target) (event : String) (args : List Expr) (w : World) : Machine :=
  proceed waiting
    (fun (callee, vs) w => issue (.event f slot rest) waiting callee event vs w)
    (f.prepare target args w)

/-- Carry out the first of the actions of an event. -/
def perform (f : Frame) (rest : List Action) (waiting : List Waiter) (w : World) :
    Action → Machine
  | .block body => ⟨w, .running f (body ++ rest), waiting⟩
  | .check condition body =>
    proceed waiting
      (fun passed w => ⟨w, .running f (if passed then body :: rest else rest), waiting⟩)
      (f.test condition w)
  | .call target event args field => request f (.named field) rest waiting target event args w
  | .callIndexed target event args pool index =>
    request f (.indexed pool index) rest waiting target event args w
  -- the other actions make no calls
  | a => resume rest waiting (f.execute Call.refuse a w)

/-- One step; none if all has ended. -/
def step : Machine → Option Machine
  | ⟨w, .running f [], waiting⟩ => some ⟨w, .ended (.ok f.last), waiting⟩
  | ⟨w, .running f (a :: rest), waiting⟩ => some (perform f rest waiting w a)
  | ⟨w, .entering target e event args, waiting⟩ =>
    match e.event? event with
    | none => some ⟨w, .ended (.error (.eventNotFound e.name event)), waiting⟩
    | some handler => some ⟨w, handler.enter w.settings target args, waiting⟩
  | ⟨w, .ended result, who :: waiting⟩ =>
    some (answer who waiting (result, { w with calling := false }))
  | ⟨_, .ended _, []⟩ => none

/-- The machine that handles a message. -/
def handling (m : Message) (w : World) : Machine :=
  match (w.table.get? m.target).bind fun e => e.event? m.event with
  | none => ⟨w, .ended (.ok .null), []⟩
  | some event => ⟨w, event.enter w.settings m.target m.args, []⟩

/-- The machine that carries out a call of the host. -/
def serving (target : EntityId) (event : String) (args : List Value) (w : World) : Machine :=
  issue .host [] target event args w

abbrev Reaches : Machine → Machine → Prop :=
  Relation.ReflTransGen fun c c' => c.step = some c'

/-- There is no endless succession of steps. -/
def Halts (c : Machine) : Prop := Acc (fun c' c => c.step = some c') c

theorem halts_of_reaches {c d : Machine} (h : Reaches c d) (hd : d.step = none) : Halts c := by
  induction h using Relation.ReflTransGen.head_induction_on with
  | refl =>
    constructor
    intro c' hc'
    rw [hd] at hc'
    cases hc'
  | head hstep _ ih =>
    constructor
    intro c' hc'
    rw [hstep] at hc'
    cases hc'
    exact ih

/-! ## What a step can do -/

/-- The mark and those who wait are as given. -/
def Stays (b : Bool) (waiting : List Waiter) (c : Machine) : Prop :=
  c.world.calling = b ∧ c.waiting = waiting

/-- A call has begun that was not refused. -/
def Begins (b : Bool) (waiting : List Waiter) (c : Machine) : Prop :=
  b = false ∧ c.world.calling = true ∧ ∃ who, c.waiting = who :: waiting

section Steps

variable {b : Bool} {waiting : List Waiter} {w : World}

theorem proceed_elim {α : Type} {P : Machine → Prop} {next : α → World → Machine}
    {r : Run α} (hr : r.Stepwise w) (hw : w.calling = b)
    (hfault : ∀ fault w', w'.calling = b → P ⟨w', .ended (.error fault), waiting⟩)
    (hnext : ∀ a w', w'.calling = b → P (next a w')) : P (proceed waiting next (r w)) := by
  have hcalling : (r w).2.calling = b := hr.calling_eq.trans hw
  match hrw : r w with
  | (.ok a, w') => rw [hrw] at hcalling; exact hnext a w' hcalling
  | (.error fault, w') => rw [hrw] at hcalling; exact hfault fault w' hcalling

theorem proceed_stays {α : Type} {next : α → World → Machine} {r : Run α} (hr : r.Stepwise w)
    (hw : w.calling = b) (hnext : ∀ a w', w'.calling = b → Stays b waiting (next a w')) :
    Stays b waiting (proceed waiting next (r w)) :=
  proceed_elim hr hw (fun _ _ hw' => ⟨hw', rfl⟩) hnext

theorem issue_cases (who : Waiter) (target : EntityId) (event : String) (args : List Value)
    (hw : w.calling = b) : Stays b waiting (issue who waiting target event args w) ∨
      Begins b waiting (issue who waiting target event args w) := by
  unfold issue
  split
  · exact .inl ⟨hw, rfl⟩
  · split
    · exact .inl ⟨hw, rfl⟩
    · rename_i hclear
      exact .inr ⟨hw ▸ Bool.eq_false_iff.mpr hclear, rfl, who, rfl⟩

theorem answer_stays (who : Waiter) (result : Except Fault Value) (hw : w.calling = b) :
    Stays b waiting (answer who waiting (result, w)) := by
  match result, who with
  | .error fault, _ => exact ⟨hw, rfl⟩
  | .ok v, .host => exact ⟨hw, rfl⟩
  | .ok v, .event f slot rest =>
    have hstored : Stays b waiting (proceed waiting
        (fun f' w' => ⟨w', .running f' rest, waiting⟩) (f.store slot v w)) :=
      proceed_stays (f.store_stepwise slot v) hw fun _ _ hw' => ⟨hw', rfl⟩
    exact hstored

theorem request_cases (f : Frame) (slot : Slot) (rest : List Action) (target : Target)
    (event : String) (args : List Expr) (hw : w.calling = b) :
    Stays b waiting (request f slot rest waiting target event args w) ∨
      Begins b waiting (request f slot rest waiting target event args w) :=
  proceed_elim (P := fun c => Stays b waiting c ∨ Begins b waiting c)
    (f.prepare_stepwise target args) hw (fun _ _ hw' => .inl ⟨hw', rfl⟩)
    fun _ _ hw' => issue_cases _ _ _ _ hw'

theorem resume_stays (f : Frame) (rest : List Action) (a : Action) (hw : w.calling = b) :
    Stays b waiting (resume rest waiting (f.execute Call.refuse a w)) := by
  refine proceed_stays (f.execute_stepwise Call.refuse_stepwise a) hw ?_
  rintro ⟨f', progress⟩ w' hw'
  cases progress <;> exact ⟨hw', rfl⟩

theorem perform_cases (f : Frame) (rest : List Action) (a : Action) (hw : w.calling = b) :
    Stays b waiting (perform f rest waiting w a) ∨
      Begins b waiting (perform f rest waiting w a) := by
  cases a with
  | block body => exact .inl ⟨hw, rfl⟩
  | check condition body =>
    exact .inl (proceed_stays (f.test_stepwise condition) hw fun _ _ hw' => ⟨hw', rfl⟩)
  | call target event args field => exact request_cases f _ rest target event args hw
  | callIndexed target event args pool index => exact request_cases f _ rest target event args hw
  | emit | guard | set | setIndexed | subscribe | unsubscribe =>
    exact .inl (resume_stays f rest _ hw)

end Steps

/-- A step leaves the mark and the stack as they are, or begins a call where no mark was
set, or ends one and takes the mark off. -/
theorem step_cases {c c' : Machine} (h : c.step = some c') :
    Stays c.world.calling c.waiting c' ∨ Begins c.world.calling c.waiting c' ∨
      ∃ who, c.waiting = who :: c'.waiting ∧ c'.world.calling = false := by
  obtain ⟨w, activity, waiting⟩ := c
  match activity, waiting with
  | .running f [], _ =>
    cases h
    exact .inl ⟨rfl, rfl⟩
  | .running f (a :: rest), _ =>
    cases h
    exact (perform_cases f rest a rfl).imp_right .inl
  | .entering target e event args, _ =>
    simp only [step] at h
    split at h <;> cases h <;> exact .inl ⟨rfl, rfl⟩
  | .ended result, [] => cases h
  | .ended result, who :: waiting =>
    cases h
    have hanswer : Stays false waiting
        (answer who waiting (result, { w with calling := false })) := answer_stays who result rfl
    exact .inr (.inr ⟨who, by rw [hanswer.2], hanswer.1⟩)

/-! ## The mark along a run -/

/-- Nobody waits and the mark is `b`, or `b` is clear and one waits and the mark is set. -/
def Marked (b : Bool) (c : Machine) : Prop :=
  (c.waiting = [] ∧ c.world.calling = b) ∨
    (b = false ∧ c.waiting.length = 1 ∧ c.world.calling = true)

theorem step_marked {b : Bool} {c c' : Machine} (h : c.step = some c') (hc : c.Marked b) :
    c'.Marked b := by
  rcases step_cases h with ⟨hmark, hstack⟩ | ⟨hclear, hmark, who, hstack⟩ | ⟨who, hstack, hmark⟩
  · unfold Marked
    rw [hmark, hstack]
    exact hc
  · rcases hc with ⟨hnone, hb⟩ | ⟨_, _, hset⟩
    · refine .inr ⟨hb ▸ hclear, ?_, hmark⟩
      rw [hstack, hnone]
      rfl
    · -- a call begins with the mark clear, so nobody was waiting
      rw [hclear] at hset
      cases hset
  · rcases hc with ⟨hnone, _⟩ | ⟨hb, hone, _⟩
    · rw [hstack] at hnone
      cases hnone
    · rw [hstack, List.length_cons] at hone
      exact .inl ⟨List.length_eq_zero_iff.mp (by omega), hmark.trans hb.symm⟩

theorem reaches_marked {b : Bool} {c c' : Machine} (h : Reaches c c') (hc : c.Marked b) :
    c'.Marked b := by
  induction h with
  | refl => exact hc
  | tail _ hstep ih => exact step_marked hstep ih

theorem handling_marked (m : Message) (w : World) : (handling m w).Marked w.calling := by
  unfold handling
  split <;> exact .inl ⟨rfl, rfl⟩

theorem serving_marked (target : EntityId) (event : String) (args : List Value) (w : World) :
    (serving target event args w).Marked w.calling := by
  have hcases : Stays w.calling [] (serving target event args w) ∨
      Begins w.calling [] (serving target event args w) := issue_cases _ _ _ _ rfl
  rcases hcases with ⟨hmark, hstack⟩ | ⟨hclear, hmark, who, hstack⟩
  · exact .inl ⟨hstack, hmark⟩
  · exact .inr ⟨hclear, by rw [hstack]; rfl, hmark⟩

end Machine

end EntityScript
