import EntityScript.Expr

/-! # Actions and events

An event is a named list of actions with parameters. -/

namespace EntityScript

inductive Target where
  /-- The running entity, or a builtin. -/
  | implicit
  | self
  /-- A pool field of the running entity, or a declared entity. -/
  | named (name : String)
  | remote (entity field : String)
  deriving DecidableEq, Repr, Inhabited

def Target.text : Target → String
  | .implicit => ""
  | .self => "self"
  | .named name => name
  | .remote entity field => entity ++ "." ++ field

inductive Action where
  | emit (target : Target) (event : String) (args : List Expr)
  /-- Run an event at once and assign its result to a field or local. -/
  | call (target : Target) (event : String) (args : List Expr) (field : String)
  | callIndexed (target : Target) (event : String) (args : List Expr) (pool : String) (index : Expr)
  /-- End the event unless the condition holds. -/
  | guard (condition : Expr)
  | check (condition : Expr) (body : Action)
  /-- Assign to a field if there is one of that name, else to a local. -/
  | set (value : Expr) (name : String)
  | setIndexed (value : Expr) (pool : String) (index : Expr)
  | block (body : List Action)
  /-- Have `handler` sent to the running entity for each such event; without
  arguments of its own it gets those of the event. -/
  | subscribe (target event handler : String) (args : Option (List Expr))
  | unsubscribe (target event handler : String)
  deriving Repr, Inhabited

namespace Action

mutual

def decEq (a b : Action) : Decidable (a = b) :=
  if h : a.ctorIdx = b.ctorIdx then
    match a, b, h with
    | .emit t e args, .emit t' e' args', _ =>
      decidable_of_iff (t = t' ∧ e = e' ∧ args = args') (by rw [emit.injEq])
    | .call t e args f, .call t' e' args' f', _ =>
      decidable_of_iff (t = t' ∧ e = e' ∧ args = args' ∧ f = f') (by rw [call.injEq])
    | .callIndexed t e args p i, .callIndexed t' e' args' p' i', _ =>
      decidable_of_iff (t = t' ∧ e = e' ∧ args = args' ∧ p = p' ∧ i = i')
        (by rw [callIndexed.injEq])
    | .guard c, .guard c', _ => decidable_of_iff (c = c') (by rw [guard.injEq])
    | .check c body, .check c' body', _ =>
      @decidable_of_iff _ (c = c' ∧ body = body') (by rw [check.injEq])
        (@instDecidableAnd _ _ _ (body.decEq body'))
    | .set v n, .set v' n', _ => decidable_of_iff (v = v' ∧ n = n') (by rw [set.injEq])
    | .setIndexed v p i, .setIndexed v' p' i', _ =>
      decidable_of_iff (v = v' ∧ p = p' ∧ i = i') (by rw [setIndexed.injEq])
    | .block body, .block body', _ =>
      @decidable_of_iff _ (body = body') (by rw [block.injEq]) (decEqAll body body')
    | .subscribe t e f args, .subscribe t' e' f' args', _ =>
      decidable_of_iff (t = t' ∧ e = e' ∧ f = f' ∧ args = args') (by rw [subscribe.injEq])
    | .unsubscribe t e f, .unsubscribe t' e' f', _ =>
      decidable_of_iff (t = t' ∧ e = e' ∧ f = f') (by rw [unsubscribe.injEq])
  else isFalse fun heq => h (congrArg Action.ctorIdx heq)

def decEqAll : (as bs : List Action) → Decidable (as = bs)
  | [], [] => isTrue rfl
  | [], _ :: _ => isFalse nofun
  | _ :: _, [] => isFalse nofun
  | a :: as, b :: bs =>
    @decidable_of_iff _ (a = b ∧ as = bs) (by rw [List.cons.injEq])
      (@instDecidableAnd _ _ (a.decEq b) (decEqAll as bs))

end

instance : DecidableEq Action := decEq

end Action

structure Event where
  name : String
  params : List String
  body : List Action
  deriving DecidableEq, Repr, Inhabited

end EntityScript
