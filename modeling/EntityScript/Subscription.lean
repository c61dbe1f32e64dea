import EntityScript.Evaluation
import EntityScript.Message

/-! # Subscriptions

An entity subscribes to an event of the entities of some name. Each time the event
is sent to such an entity, a handler event is sent to the subscriber. -/

namespace EntityScript

structure Subscription where
  subscriber : EntityId
  handler : String
  /-- Arguments of the handler, evaluated for the subscriber when the event is
  sent; without them the arguments of the event are passed on. -/
  args : Option (List Expr)
  deriving Repr, Inhabited

namespace Subscription

def isFor (s : Subscription) (subscriber : EntityId) (handler : String) : Bool :=
  s.subscriber == subscriber && s.handler == handler

/-- The message that tells the subscriber of an event with arguments `args`, or
none if the subscriber is gone or destroyed. -/
def message (s : Subscription) (t : Table) (args : List Value) : Except Fault (Option Message) :=
  match t.get? s.subscriber with
  | none => .ok none
  | some e =>
    if e.destroyed then .ok none
    else
      match s.args with
      | none => .ok (some ⟨s.subscriber, s.handler, args⟩)
      | some exprs => do
        let own ← Expr.evalAll ⟨e, .empty, t, s.handler⟩ exprs
        .ok (some ⟨s.subscriber, s.handler, own⟩)

end Subscription

abbrev Subscriptions := OrderedMap (String × String) (List Subscription)

namespace Subscriptions

def subscribers (subs : Subscriptions) (target event : String) : List Subscription :=
  (subs.get? (target, event)).getD []

def size (subs : Subscriptions) : Nat :=
  subs.values.foldr (fun list n => list.length + n) 0

/-- Subscribe to an event of a declared entity other than the subscriber itself. A
handler that is there already stays as it is. -/
def subscribe (subs : Subscriptions) (t : Table) (subscriber : EntityId)
    (target event handler : String) (args : Option (List Expr)) : Except Fault Subscriptions :=
  match t.idOf? target with
  | none => .error (.unknownSubscriptionTarget target)
  | some id =>
    if id = subscriber then .error (.selfSubscription target)
    else
      let list := subs.subscribers target event
      if list.any fun s => s.isFor subscriber handler then .ok subs
      else .ok (subs.insert (target, event) (list ++ [⟨subscriber, handler, args⟩]))

def unsubscribe (subs : Subscriptions) (t : Table) (subscriber : EntityId)
    (target event handler : String) : Except Fault Subscriptions :=
  match t.idOf? target with
  | none => .error (.unknownSubscriptionTarget target)
  | some _ =>
    match subs.get? (target, event) with
    | none => .ok subs
    | some list =>
      let rest := list.filter fun s => !s.isFor subscriber handler
      if rest.isEmpty then .ok (subs.erase (target, event))
      else .ok (subs.insert (target, event) rest)

def retain (subs : Subscriptions) (keep : EntityId → Bool) : Subscriptions :=
  (subs.mapValues fun list => list.filter fun s => keep s.subscriber).filterValues
    fun list => !list.isEmpty

def strays (subs : Subscriptions) (keep : EntityId → Bool) : Nat :=
  subs.values.foldr (fun list n => (list.filter fun s => !keep s.subscriber).length + n) 0

end Subscriptions

end EntityScript
