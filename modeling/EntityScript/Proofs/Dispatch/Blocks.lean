import EntityScript.Proofs.Call.Termination

/-! # Blocks

A block only groups actions: a list of actions comes to the same with the actions of a block
in place of the block (`Action.Unwraps`), wherever the block stands, and so do the actions
without any blocks (`Action.flattenAll`). What comes to the same is everything: the result or
fault, the state, and the frame with its locals and the last value assigned (`Frame.outcome`).

Carrying out two lists one behind the other is carrying out the first and then, unless it
halted, the second (`Frame.executeAll_append`); that a block halts as its list does makes it
transparent. -/

namespace EntityScript

/-! ## What actions come to -/

section Outcome

variable (call : Call)

mutual

/-- The frame in which an action leaves its event, whether it ends in a fault or not. A fault
inside a block comes behind what the block has done by then; any other action that ends in a
fault has assigned nothing. -/
def Frame.left (f : Frame) (w : World) : Action → Frame
  | .block body => f.leftAll w body
  | .check condition body =>
    match f.test condition w with
    | (.ok true, w) => f.left w body
    | _ => f
  | a =>
    match f.execute call a w with
    | (.ok (f, _), _) => f
    | (.error _, _) => f

/-- The frame in which actions in order leave their event. -/
def Frame.leftAll (f : Frame) (w : World) : List Action → Frame
  | [] => f
  | a :: rest =>
    match f.execute call a w with
    | (.ok (f, .goOn), w) => f.leftAll w rest
    | _ => f.left w a

end

/-- All that carrying out actions comes to: the result or the fault, the state, and the frame. -/
def Frame.outcome (f : Frame) (as : List Action) (w : World) :
    (Except Fault (Frame × Progress) × World) × Frame :=
  (f.executeAll call as w, f.leftAll call w as)

theorem Frame.executeAll_nil (f : Frame) (w : World) :
    f.executeAll call [] w = (.ok (f, .goOn), w) := by
  rw [Frame.executeAll]
  rfl

theorem Frame.executeAll_cons (f : Frame) (a : Action) (rest : List Action) (w : World) :
    f.executeAll call (a :: rest) w = match f.execute call a w with
      | (.ok (f, .goOn), w) => f.executeAll call rest w
      | (.ok (f, .halt), w) => (.ok (f, .halt), w)
      | (.error fault, w) => (.error fault, w) := by
  rw [Frame.executeAll, Run.bind_apply]
  match f.execute call a w with
  | (.ok (f, .goOn), w) => rfl
  | (.ok (f, .halt), w) => rfl
  | (.error fault, w) => rfl

/-- The second of two lists follows the first one, unless that halts. -/
theorem Frame.executeAll_append (f : Frame) (as bs : List Action) (w : World) :
    f.executeAll call (as ++ bs) w = match f.executeAll call as w with
      | (.ok (f, .goOn), w) => f.executeAll call bs w
      | (.ok (f, .halt), w) => (.ok (f, .halt), w)
      | (.error fault, w) => (.error fault, w) := by
  induction as generalizing f w with
  | nil => rw [List.nil_append, Frame.executeAll_nil]
  | cons a as ih =>
    rw [List.cons_append, Frame.executeAll_cons, Frame.executeAll_cons]
    match f.execute call a w with
    | (.ok (f, .goOn), w) => exact ih f w
    | (.ok (f, .halt), w) => rfl
    | (.error fault, w) => rfl

theorem Frame.executeAll_singleton (f : Frame) (a : Action) :
    f.executeAll call [a] = f.execute call a := by
  funext w
  rw [Frame.executeAll_cons]
  match f.execute call a w with
  | (.ok (f, .goOn), w) => exact f.executeAll_nil call w
  | (.ok (f, .halt), w) => rfl
  | (.error fault, w) => rfl

theorem Frame.execute_check_apply (f : Frame) (condition : Expr) (body : Action) (w : World) :
    f.execute call (.check condition body) w = match f.test condition w with
      | (.ok true, w) => f.execute call body w
      | (.ok false, w) => (.ok (f, .goOn), w)
      | (.error fault, w) => (.error fault, w) := by
  rw [Frame.execute_check, Run.bind_apply]
  match f.test condition w with
  | (.ok true, w) => rfl
  | (.ok false, w) => rfl
  | (.error fault, w) => rfl

/-! ### The frame -/

theorem Frame.leftAll_nil (f : Frame) (w : World) : f.leftAll call w [] = f := by
  rw [Frame.leftAll]

mutual

/-- Without a fault, the frame is that of the result. -/
theorem Frame.left_of_ok {f f' : Frame} {progress : Progress} {w' : World} : (a : Action) →
    {w : World} → f.execute call a w = (.ok (f', progress), w') → f.left call w a = f'
  | .block body, w, h => by
    rw [Frame.execute] at h
    rw [Frame.left]
    exact Frame.leftAll_of_ok body h
  | .check condition body, w, h => by
    rw [Frame.execute_check_apply] at h
    rw [Frame.left]
    match ht : f.test condition w with
    | (.ok true, w₁) =>
      rw [ht] at h
      exact Frame.left_of_ok body h
    | (.ok false, w₁) =>
      rw [ht] at h
      cases h
      rfl
    | (.error fault, w₁) =>
      rw [ht] at h
      cases h
  | .set _ _, w, h | .setIndexed _ _ _, w, h | .guard _, w, h | .call _ _ _ _, w, h
  | .callIndexed _ _ _ _ _, w, h | .emit _ _ _, w, h | .subscribe _ _ _ _, w, h
  | .unsubscribe _ _ _, w, h => by simp only [Frame.left, h]

theorem Frame.leftAll_of_ok {f f' : Frame} {progress : Progress} {w' : World} :
    (as : List Action) → {w : World} → f.executeAll call as w = (.ok (f', progress), w') →
    f.leftAll call w as = f'
  | [], w, h => by
    rw [Frame.executeAll_nil] at h
    cases h
    exact f.leftAll_nil call _
  | a :: rest, w, h => by
    rw [Frame.executeAll_cons] at h
    rw [Frame.leftAll]
    match ha : f.execute call a w with
    | (.ok (f₁, .goOn), w₁) =>
      rw [ha] at h
      exact Frame.leftAll_of_ok rest h
    | (.ok (f₁, .halt), w₁) =>
      rw [ha] at h
      cases h
      exact Frame.left_of_ok a ha
    | (.error fault, w₁) =>
      rw [ha] at h
      cases h

end

theorem Frame.leftAll_append (f : Frame) (as bs : List Action) (w : World) :
    f.leftAll call w (as ++ bs) = match f.executeAll call as w with
      | (.ok (f, .goOn), w) => f.leftAll call w bs
      | _ => f.leftAll call w as := by
  induction as generalizing f w with
  | nil => rw [List.nil_append, Frame.executeAll_nil]
  | cons a as ih =>
    rw [List.cons_append, Frame.leftAll, Frame.executeAll_cons, Frame.leftAll]
    match f.execute call a w with
    | (.ok (f, .goOn), w) => exact ih f w
    | (.ok (f, .halt), w) => rfl
    | (.error fault, w) => rfl

theorem Frame.leftAll_singleton (f : Frame) (a : Action) (w : World) :
    f.leftAll call w [a] = f.left call w a := by
  rw [Frame.leftAll]
  match h : f.execute call a w with
  | (.ok (f', .goOn), w') =>
    rw [f.left_of_ok call a h]
    exact f'.leftAll_nil call w'
  | (.ok (f', .halt), w') => rfl
  | (.error fault, w') => rfl

end Outcome

/-! ## The same actions -/

/-- The actions come to the same, in every frame and every state. -/
def Action.Same (call : Call) (as bs : List Action) : Prop :=
  ∀ (f : Frame) w, f.outcome call as w = f.outcome call bs w

namespace Action

variable {call : Call} {as bs as' bs' cs : List Action}

theorem same_iff : Same call as bs ↔ ∀ (f : Frame) w,
    f.executeAll call as w = f.executeAll call bs w ∧
      f.leftAll call w as = f.leftAll call w bs := by
  simp only [Same, Frame.outcome, Prod.mk.injEq]

theorem Same.refl (call : Call) (as : List Action) : Same call as as := fun _ _ => rfl

theorem Same.trans (h : Same call as bs) (h' : Same call bs cs) : Same call as cs :=
  fun f w => (h f w).trans (h' f w)

/-- What comes to the same on its own does so among other actions. -/
theorem Same.append (h : Same call as as') (h' : Same call bs bs') :
    Same call (as ++ bs) (as' ++ bs') := by
  rw [same_iff] at h h' ⊢
  intro f w
  rw [f.executeAll_append, f.executeAll_append, f.leftAll_append, f.leftAll_append,
    (h f w).1, (h f w).2]
  match f.executeAll call as' w with
  | (.ok (f, .goOn), w) => exact h' f w
  | (.ok (f, .halt), w) => exact ⟨rfl, rfl⟩
  | (.error fault, w) => exact ⟨rfl, rfl⟩

/-- A block comes to what its actions come to. -/
theorem same_block (call : Call) (body : List Action) : Same call [.block body] body := by
  rw [same_iff]
  intro f w
  rw [f.executeAll_singleton, f.leftAll_singleton, Frame.execute, Frame.left]
  exact ⟨rfl, rfl⟩

theorem Same.block (h : Same call as bs) : Same call [.block as] [.block bs] := by
  rw [same_iff] at h ⊢
  intro f w
  simp only [Frame.executeAll_singleton, Frame.leftAll_singleton, Frame.execute, Frame.left]
  exact h f w

theorem Same.check {a b : Action} (h : Same call [a] [b]) (condition : Expr) :
    Same call [.check condition a] [.check condition b] := by
  rw [same_iff] at h ⊢
  simp only [Frame.executeAll_singleton, Frame.leftAll_singleton] at h ⊢
  intro f w
  simp only [Frame.execute_check_apply, Frame.left]
  match f.test condition w with
  | (.ok true, w) => exact h f w
  | (.ok false, w) => exact ⟨rfl, rfl⟩
  | (.error fault, w) => exact ⟨rfl, rfl⟩

/-! ## Taking blocks away -/

/-- One block has been replaced by its actions: a block of the list, of a block in it, or of
what a check in it carries out. -/
inductive Unwraps : List Action → List Action → Prop
  | block (body : List Action) : Unwraps [.block body] body
  | inBlock {as bs : List Action} : Unwraps as bs → Unwraps [.block as] [.block bs]
  | inCheck (condition : Expr) {a b : Action} : Unwraps [a] [b] →
    Unwraps [.check condition a] [.check condition b]
  | among (before after : List Action) {as bs : List Action} : Unwraps as bs →
    Unwraps (before ++ as ++ after) (before ++ bs ++ after)

theorem Unwraps.same (h : Unwraps as bs) (call : Call) : Same call as bs := by
  induction h with
  | block body => exact same_block call body
  | inBlock _ ih => exact ih.block
  | inCheck condition _ ih => exact ih.check condition
  | among before after _ ih => exact ((Same.refl call before).append ih).append (.refl call after)

mutual

/-- The actions that an action stands for, without any blocks among them. -/
def flatten : Action → List Action
  | .block body => flattenAll body
  | .check condition body => [.check condition body.flattenWithin]
  | a => [a]

/-- An action without any blocks inside it but the one that it may be itself. -/
def flattenWithin : Action → Action
  | .block body => .block (flattenAll body)
  | .check condition body => .check condition body.flattenWithin
  | a => a

/-- The actions in their order, without any blocks among them. -/
def flattenAll : List Action → List Action
  | [] => []
  | a :: rest => a.flatten ++ flattenAll rest

end

mutual

theorem same_flatten (call : Call) : (a : Action) → Same call a.flatten [a]
  | .block body => by
    rw [flatten]
    intro f w
    rw [same_flattenAll call body f w, same_block call body f w]
  | .check condition body => by
    rw [flatten]
    exact (same_flattenWithin call body).check condition
  | .set _ _ | .setIndexed _ _ _ | .guard _ | .call _ _ _ _ | .callIndexed _ _ _ _ _
  | .emit _ _ _ | .subscribe _ _ _ _ | .unsubscribe _ _ _ => .refl call _

theorem same_flattenWithin (call : Call) : (a : Action) → Same call [a.flattenWithin] [a]
  | .block body => by
    rw [flattenWithin]
    exact (same_flattenAll call body).block
  | .check condition body => by
    rw [flattenWithin]
    exact (same_flattenWithin call body).check condition
  | .set _ _ | .setIndexed _ _ _ | .guard _ | .call _ _ _ _ | .callIndexed _ _ _ _ _
  | .emit _ _ _ | .subscribe _ _ _ _ | .unsubscribe _ _ _ => .refl call _

theorem same_flattenAll (call : Call) : (as : List Action) → Same call (flattenAll as) as
  | [] => .refl call []
  | a :: rest => by
    rw [flattenAll]
    exact (same_flatten call a).append (same_flattenAll call rest)

end

mutual

/-- No block stands where an action may stand: a block is only what a check carries out. -/
def isFlat : Action → Bool
  | .block _ => false
  | .check _ body => body.isFlatWithin
  | _ => true

/-- No block stands inside the action. -/
def isFlatWithin : Action → Bool
  | .block body => allFlat body
  | .check _ body => body.isFlatWithin
  | _ => true

/-- None of the actions is a block, or has one inside but for what a check carries out. -/
def allFlat : List Action → Bool
  | [] => true
  | a :: rest => a.isFlat && allFlat rest

end

theorem allFlat_append (as bs : List Action) : allFlat (as ++ bs) = (allFlat as && allFlat bs) := by
  induction as with
  | nil => rfl
  | cons a as ih => rw [List.cons_append, allFlat, allFlat, ih, Bool.and_assoc]

mutual

theorem flatten_isFlat : (a : Action) → allFlat a.flatten = true
  | .block body => flattenAll_isFlat body
  | .check _ body => by
    rw [flatten, allFlat, isFlat, body.flattenWithin_isFlat, allFlat]
    rfl
  | .set _ _ | .setIndexed _ _ _ | .guard _ | .call _ _ _ _ | .callIndexed _ _ _ _ _
  | .emit _ _ _ | .subscribe _ _ _ _ | .unsubscribe _ _ _ => rfl

theorem flattenWithin_isFlat : (a : Action) → a.flattenWithin.isFlatWithin = true
  | .block body => flattenAll_isFlat body
  | .check _ body => body.flattenWithin_isFlat
  | .set _ _ | .setIndexed _ _ _ | .guard _ | .call _ _ _ _ | .callIndexed _ _ _ _ _
  | .emit _ _ _ | .subscribe _ _ _ _ | .unsubscribe _ _ _ => rfl

theorem flattenAll_isFlat : (as : List Action) → allFlat (flattenAll as) = true
  | [] => rfl
  | a :: rest => by
    rw [flattenAll, allFlat_append, a.flatten_isFlat, flattenAll_isFlat rest]
    rfl

end

theorem executeAll_flattenAll (call : Call) (f : Frame) (as : List Action) :
    f.executeAll call (flattenAll as) = f.executeAll call as :=
  funext fun w => (same_iff.mp (same_flattenAll call as) f w).1

end Action

/-! ## Halting -/

section Halting

variable {call : Call} {f f' : Frame} {w w' : World}

/-- The action is a check that halts its event: one without a body whose condition does not
hold, or one with a body whose condition holds and whose body halts. -/
inductive Frame.HaltedBy (call : Call) (f : Frame) (w : World) : Action → Frame → World → Prop
  | guard {condition : Expr} {w' : World} : f.test condition w = (.ok false, w') →
    HaltedBy call f w (.guard condition) f w'
  | check {condition : Expr} {body : Action} {w' w'' : World} {f' : Frame} :
    f.test condition w = (.ok true, w') → f.execute call body w' = (.ok (f', .halt), w'') →
    HaltedBy call f w (.check condition body) f' w''

theorem Frame.execute_guard_apply (f : Frame) (condition : Expr) (w : World) :
    f.execute call (.guard condition) w = match f.test condition w with
      | (.ok passed, w) => (.ok (f, if passed then .goOn else .halt), w)
      | (.error fault, w) => (.error fault, w) := by
  rw [Frame.execute, ← bind_assoc]
  show (f.test condition >>= _) w = _
  rw [Run.bind_apply]
  match f.test condition w with
  | (.ok passed, w) => rfl
  | (.error fault, w) => rfl

/-- An action that is neither a check nor a block does not halt. -/
theorem Frame.execute_goes_on (f : Frame) {a : Action} (hguard : ∀ c, a ≠ .guard c)
    (hcheck : ∀ c body, a ≠ .check c body) (hblock : ∀ body, a ≠ .block body) :
    (f.execute call a).Yields fun r => r.2 = .goOn := by
  cases a with
  | guard c => exact absurd rfl (hguard c)
  | check c body => exact absurd rfl (hcheck c body)
  | block body => exact absurd rfl (hblock body)
  | set value name =>
    rw [Frame.execute]
    exact .last fun _ => .last fun _ => Run.yields_pure rfl
  | setIndexed value pool index =>
    rw [Frame.execute]
    exact .last fun _ => .last fun _ => .last fun _ => .last fun _ => Run.yields_pure rfl
  | call target event args field =>
    rw [Frame.execute]
    exact .last fun _ => .last fun _ => .last fun _ => .last fun _ => Run.yields_pure rfl
  | callIndexed target event args pool index =>
    rw [Frame.execute]
    exact .last fun _ => .last fun _ => .last fun _ => .last fun _ => .last fun _ =>
      .last fun _ => Run.yields_pure rfl
  | emit target event args =>
    rw [Frame.execute]
    dsimp only
    split
    · exact .last fun _ => .last fun _ => Run.yields_pure rfl
    · exact .last fun _ => .last fun _ => Run.yields_pure rfl
  | subscribe target event handler args =>
    rw [Frame.execute]
    exact .last fun _ => Run.yields_pure rfl
  | unsubscribe target event handler =>
    rw [Frame.execute]
    exact .last fun _ => Run.yields_pure rfl

theorem Frame.execute_halt_iff {a : Action} (hflat : a.isFlat = true) :
    f.execute call a w = (.ok (f', .halt), w') ↔ f.HaltedBy call w a f' w' := by
  constructor
  · intro h
    by_cases hguard : ∃ c, a = .guard c
    · obtain ⟨c, rfl⟩ := hguard
      rw [f.execute_guard_apply] at h
      match ht : f.test c w with
      | (.ok true, w₁) => rw [ht] at h; cases h
      | (.ok false, w₁) => rw [ht] at h; cases h; exact .guard ht
      | (.error fault, w₁) => rw [ht] at h; cases h
    by_cases hcheck : ∃ c body, a = .check c body
    · obtain ⟨c, body, rfl⟩ := hcheck
      rw [f.execute_check_apply] at h
      match ht : f.test c w with
      | (.ok true, w₁) => rw [ht] at h; exact .check ht h
      | (.ok false, w₁) => rw [ht] at h; cases h
      | (.error fault, w₁) => rw [ht] at h; cases h
    · have hgo : (f.execute call a).Yields fun r => r.2 = .goOn :=
        f.execute_goes_on (fun c hc => hguard ⟨c, hc⟩) (fun c body hc => hcheck ⟨c, body, hc⟩)
          fun body hb => by
            rw [hb] at hflat
            cases hflat
      cases hgo w _ w' h
  · intro h
    cases h with
    | guard ht => rw [f.execute_guard_apply, ht]; rfl
    | check ht hbody =>
      rw [f.execute_check_apply, ht]
      exact hbody

/-- A list halts exactly if one of its actions does and all before it go on. -/
theorem Frame.executeAll_halt_iff {as : List Action} :
    f.executeAll call as w = (.ok (f', .halt), w') ↔
      ∃ before a after f₁ w₁, as = before ++ a :: after ∧
        f.executeAll call before w = (.ok (f₁, .goOn), w₁) ∧
        f₁.execute call a w₁ = (.ok (f', .halt), w') := by
  constructor
  · intro h
    induction as generalizing f w with
    | nil =>
      rw [f.executeAll_nil] at h
      cases h
    | cons a as ih =>
      rw [f.executeAll_cons] at h
      match ha : f.execute call a w with
      | (.ok (f₁, .goOn), w₁) =>
        rw [ha] at h
        obtain ⟨before, x, after, f₂, w₂, rfl, hbefore, hx⟩ := ih h
        refine ⟨a :: before, x, after, f₂, w₂, rfl, ?_, hx⟩
        rw [f.executeAll_cons, ha]
        exact hbefore
      | (.ok (f₁, .halt), w₁) =>
        rw [ha] at h
        cases h
        exact ⟨[], a, as, f, w, rfl, f.executeAll_nil call w, ha⟩
      | (.error fault, w₁) =>
        rw [ha] at h
        cases h
  · rintro ⟨before, a, after, f₁, w₁, rfl, hbefore, ha⟩
    rw [f.executeAll_append, hbefore]
    dsimp only
    rw [f₁.executeAll_cons, ha]

end Halting

theorem Action.isFlat_of_mem {as before after : List Action} {a : Action}
    (h : Action.allFlat as = true) (has : as = before ++ a :: after) : a.isFlat = true := by
  rw [has, Action.allFlat_append, Action.allFlat, Bool.and_eq_true, Bool.and_eq_true] at h
  exact h.2.1

/-- **Blocks are transparent.** A list of actions in which a block has been replaced by its
actions comes to the same in every frame and every state: the same result or fault, the same
state, and the same locals and last value assigned. So does the list without any blocks, and
an event with those actions is the same event. A list halts exactly where the list without its
blocks does: at a check that halts, behind all actions before it and ahead of all others. -/
theorem Action.blocks_transparent (call : Call) :
    (∀ as bs, Action.Unwraps as bs → ∀ (f : Frame) w,
      f.outcome call bs w = f.outcome call as w) ∧
    (∀ as, Action.allFlat (Action.flattenAll as) = true ∧ ∀ (f : Frame) w,
      f.outcome call (Action.flattenAll as) w = f.outcome call as w) ∧
    (∀ (f : Frame) as w f' w', f.executeAll call as w = (.ok (f', .halt), w') ↔
      ∃ before a after f₁ w₁, Action.flattenAll as = before ++ a :: after ∧
        f.executeAll call before w = (.ok (f₁, .goOn), w₁) ∧ f₁.HaltedBy call w₁ a f' w') ∧
    ∀ e : Event, { e with body := Action.flattenAll e.body }.run call = e.run call := by
  refine ⟨fun as bs h f w => (h.same call f w).symm,
    fun as => ⟨Action.flattenAll_isFlat as, Action.same_flattenAll call as⟩, ?_, ?_⟩
  · intro f as w f' w'
    -- Among flat actions only a check halts; there is no block left that passes it on.
    rw [← Action.executeAll_flattenAll, Frame.executeAll_halt_iff]
    have hflat := Action.flattenAll_isFlat as
    constructor
    · rintro ⟨before, a, after, f₁, w₁, has, hbefore, ha⟩
      exact ⟨before, a, after, f₁, w₁, has, hbefore,
        (Frame.execute_halt_iff (Action.isFlat_of_mem hflat has)).mp ha⟩
    · rintro ⟨before, a, after, f₁, w₁, has, hbefore, ha⟩
      exact ⟨before, a, after, f₁, w₁, has, hbefore,
        (Frame.execute_halt_iff (Action.isFlat_of_mem hflat has)).mpr ha⟩
  · intro e
    funext entity args
    simp only [Event.run, Action.executeAll_flattenAll]
    rfl

/-- What a lamp does when it is switched: it is lit unless a fuse inside the blocks is blown, in
which case it is noted dark and the event ends there. -/
def Action.switch : List Action := [
  .block [
    .set (.literal (.bool true)) "dark",
    .block [],
    .block [.guard (.var "fuse"), .set (.literal (.bool false)) "dark"]],
  .emit .implicit "log" [.var "dark"]]

/-- The same with the outer block taken away. -/
def Action.switchOnce : List Action := [
  .set (.literal (.bool true)) "dark",
  .block [],
  .block [.guard (.var "fuse"), .set (.literal (.bool false)) "dark"],
  .emit .implicit "log" [.var "dark"]]

/-- A lamp with a blown fuse. -/
def World.lamp : World where
  table := ⟨[⟨⟨0⟩, "lamp", .ofList [("fuse", .bool false)], ⟨[]⟩, false⟩],
    .ofList [("lamp", ⟨0⟩)], 1⟩

/-- The blown fuse stands two blocks deep, and ends the event ahead of the line that is
written: with the blocks, without the outer one, and without any. -/
theorem Action.blocks_transparent_switch :
    Action.Unwraps Action.switch Action.switchOnce ∧
    (Frame.mk ⟨0⟩ "switch" .empty .null).outcome Call.perform Action.switchOnce World.lamp =
      (Frame.mk ⟨0⟩ "switch" .empty .null).outcome Call.perform Action.switch World.lamp ∧
    (Frame.mk ⟨0⟩ "switch" .empty .null).executeAll Call.perform Action.switch World.lamp =
      (.ok (⟨⟨0⟩, "switch", .ofList [("dark", .bool true)], .bool true⟩, .halt), World.lamp) ∧
    Action.flattenAll Action.switch = [
      .set (.literal (.bool true)) "dark", .guard (.var "fuse"),
      .set (.literal (.bool false)) "dark", .emit .implicit "log" [.var "dark"]] := by
  have hunwraps : Action.Unwraps Action.switch Action.switchOnce :=
    .among [] [.emit .implicit "log" [.var "dark"]] (.block _)
  exact ⟨hunwraps, (Action.blocks_transparent Call.perform).1 _ _ hunwraps _ _, rfl, rfl⟩

end EntityScript
