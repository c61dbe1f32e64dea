/-! # Pool commands

The events that a pool answers itself. -/

namespace EntityScript.Pool

inductive Command where
  | add
  | push
  | insert
  | remove
  | removeAt
  | pop
  | shift
  | swap
  | clear
  | each
  deriving DecidableEq, Repr

namespace Command

def all : List Command :=
  [.add, .push, .insert, .remove, .removeAt, .pop, .shift, .swap, .clear, .each]

def name : Command → String
  | .add => "add"
  | .push => "push"
  | .insert => "insert"
  | .remove => "remove"
  | .removeAt => "remove_at"
  | .pop => "pop"
  | .shift => "shift"
  | .swap => "swap"
  | .clear => "clear"
  | .each => "each"

def ofName? (s : String) : Option Command :=
  all.find? fun c => c.name == s

end Command

inductive Problem where
  | missingArgument (position : Nat)
  | nullArgument
  | missingEventName
  | needsDelivery
  deriving DecidableEq, Repr

def Problem.text : Problem → String
  | .missingArgument position => "missing argument " ++ toString position
  | .nullArgument => "requires a non-null argument"
  | .missingEventName => "requires an event name"
  | .needsDelivery => "needs the engine to deliver events"

end EntityScript.Pool
