import EntityScript.Value
import EntityScript.Operator
import EntityScript.Pool.Command

/-! # Faults

Why an expression has no value, an action cannot be carried out or a request to
the engine is refused. Each fault is a cause with what it concerns; the wording is
in `Fault.message` alone. -/

namespace EntityScript

inductive Fault where
  | unresolvedVariable (name event entity : String)
  | notAPool (name : String)
  | indexOutOfBounds (index : Int) (pool : String)
  | invalidIndex (got : ValueType) (pool : String)
  | nullOperand (op : BinaryOp)
  | unsupportedOperator (op : BinaryOp) (left right : ValueType)
  | notACondition (got : ValueType)
  | unknownProperty (property pool : String)
  | fieldNotFound (field entity : String)
  | unresolvedTarget (name : String)
  | entityNotFound (name : String)
  | duplicateEntity (name : String)
  | argumentCount (event : String) (expected got : Nat)
  | eventNotFound (entity event : String)
  | nestedCall (entity event : String)
  | unknownPoolCommand (command pool : String)
  | poolCommand (command : Pool.Command) (pool : String) (problem : Pool.Problem)
  | selfSubscription (name : String)
  | unknownSubscriptionTarget (name : String)
  | badSettings
  deriving DecidableEq, Repr

namespace Fault

def message : Fault → String
  | .unresolvedVariable name event entity =>
    "Variable '" ++ name ++ "' not found in event '" ++ event ++ "' of entity '" ++ entity ++ "'"
  | .notAPool name => "Target '" ++ name ++ "' is not a pool"
  | .indexOutOfBounds index pool =>
    "Index " ++ toString index ++ " is out of bounds for pool '" ++ pool ++ "'"
  | .invalidIndex got pool =>
    "Index expression evaluated to " ++ got.text ++ " for pool '" ++ pool ++ "'"
  | .nullOperand op => "Cannot perform operation '" ++ op.symbol ++ "' with null operand"
  | .unsupportedOperator op left right =>
    "Operator '" ++ op.symbol ++ "' not supported for " ++ left.text ++ " and " ++ right.text
  | .notACondition got => "Type error: expected bool, got " ++ got.text
  | .unknownProperty property pool =>
    "Property '" ++ property ++ "' not supported for pool '" ++ pool ++ "'"
  | .fieldNotFound field entity => "Field '" ++ field ++ "' not found in entity '" ++ entity ++ "'"
  | .unresolvedTarget name => "Entity or pool '" ++ name ++ "' not found"
  | .entityNotFound name => "Entity not found: " ++ name
  | .duplicateEntity name => "Duplicate entity definition: '" ++ name ++ "'"
  | .argumentCount event expected got =>
    "Event '" ++ event ++ "' expected " ++ toString expected ++ " arguments, got " ++ toString got
  | .eventNotFound entity event => "Event '" ++ event ++ "' not found in entity '" ++ entity ++ "'"
  | .nestedCall entity event =>
    "Nested synchronous call to '" ++ entity ++ "." ++ event
      ++ "' while another synchronous call is active"
  | .unknownPoolCommand command pool =>
    "Unknown pool command '" ++ command ++ "' for pool '" ++ pool ++ "'"
  | .poolCommand command pool problem =>
    "Pool command '" ++ command.name ++ "' on '" ++ pool ++ "': " ++ problem.text
  | .selfSubscription name => "Entity '" ++ name ++ "' cannot subscribe to its own events"
  | .unknownSubscriptionTarget name => "Subscription target entity '" ++ name ++ "' not found"
  | .badSettings => "Invalid engine config"

/-- A wrong use of subscriptions. A running event reports it and goes on. -/
def isUsage : Fault → Bool
  | .selfSubscription _ => true
  | .unknownSubscriptionTarget _ => true
  | _ => false

end Fault

end EntityScript
