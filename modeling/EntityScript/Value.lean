import EntityScript.Number.Text

/-! # Values

What fields and locals hold and expressions yield. A pool holds values, pools
among them, so the functions on values come in pairs with functions on lists of
values. -/

namespace EntityScript

/-- The identity of an entity, never used twice. -/
structure EntityId where
  raw : Nat
  deriving DecidableEq, Repr, Hashable, Inhabited

def EntityId.text (id : EntityId) : String := "entity:" ++ toString id.raw

inductive Value where
  | null
  | number (n : Float)
  | bool (b : Bool)
  | string (s : String)
  | pool (items : List Value)
  | entity (id : EntityId)
  deriving Repr, Inhabited

inductive ValueType where
  | null
  | number
  | bool
  | string
  | pool
  | entity
  deriving DecidableEq, Repr

def ValueType.text : ValueType → String
  | .null => "null"
  | .number => "number"
  | .bool => "bool"
  | .string => "string"
  | .pool => "pool"
  | .entity => "entity"

/-- What equality regards as comparable: pools and entity references count as one
kind. -/
inductive ValueKind where
  | null
  | number
  | bool
  | string
  | object
  deriving DecidableEq, Repr

namespace Value

def type : Value → ValueType
  | .null => .null
  | .number _ => .number
  | .bool _ => .bool
  | .string _ => .string
  | .pool _ => .pool
  | .entity _ => .entity

def kind : Value → ValueKind
  | .null => .null
  | .number _ => .number
  | .bool _ => .bool
  | .string _ => .string
  | .pool _ => .object
  | .entity _ => .object

def isNull : Value → Bool
  | .null => true
  | _ => false

def number? : Value → Option Float
  | .number n => some n
  | _ => none

def pool? : Value → Option (List Value)
  | .pool items => some items
  | _ => none

/-! ## Text -/

mutual

/-- A value as shown to a user. A string stands for itself, without quotes. -/
def text : Value → String
  | .null => "null"
  | .number n => Number.text n
  | .bool b => if b then "true" else "false"
  | .string s => s
  | .pool items => "pool[" ++ ", ".intercalate (texts items) ++ "]"
  | .entity id => id.text

def texts : List Value → List String
  | [] => []
  | v :: vs => text v :: texts vs

end

/-! ## Equality -/

mutual

/-- Whether two values are one and the same, a number and a NaN by its bits. -/
def decEq (a b : Value) : Decidable (a = b) :=
  if h : a.ctorIdx = b.ctorIdx then
    match a, b, h with
    | .null, .null, _ => isTrue rfl
    | .number m, .number n, _ => decidable_of_iff (m = n) (by rw [number.injEq])
    | .bool m, .bool n, _ => decidable_of_iff (m = n) (by rw [bool.injEq])
    | .string m, .string n, _ => decidable_of_iff (m = n) (by rw [string.injEq])
    | .pool ms, .pool ns, _ =>
      @decidable_of_iff _ (ms = ns) (by rw [pool.injEq]) (decEqAll ms ns)
    | .entity m, .entity n, _ => decidable_of_iff (m = n) (by rw [entity.injEq])
  else isFalse fun heq => h (congrArg Value.ctorIdx heq)

def decEqAll : (as bs : List Value) → Decidable (as = bs)
  | [], [] => isTrue rfl
  | [], _ :: _ => isFalse nofun
  | _ :: _, [] => isFalse nofun
  | a :: as, b :: bs =>
    @decidable_of_iff _ (a = b ∧ as = bs) (by rw [List.cons.injEq])
      (@instDecidableAnd _ _ (a.decEq b) (decEqAll as bs))

end

instance : DecidableEq Value := decEq

mutual

/-- Structural equality. Numbers compare as numbers, so a NaN differs from
itself and the two zeros are equal. -/
def equal : Value → Value → Bool
  | .null, .null => true
  | .number a, .number b => a == b
  | .bool a, .bool b => a == b
  | .string a, .string b => a == b
  | .pool a, .pool b => equalAll a b
  | .entity a, .entity b => a == b
  | _, _ => false

def equalAll : List Value → List Value → Bool
  | [], [] => true
  | a :: as, b :: bs => equal a b && equalAll as bs
  | _, _ => false

end

instance : BEq Value := ⟨equal⟩

mutual

/-- Identity of values as arguments of a message: equality, except that a NaN is
the same as a NaN at every depth. -/
def same : Value → Value → Bool
  | .number a, .number b => a == b || (a.isNaN && b.isNaN)
  | .pool a, .pool b => sameAll a b
  | a, b => equal a b

def sameAll : List Value → List Value → Bool
  | [], [] => true
  | a :: as, b :: bs => same a b && sameAll as bs
  | _, _ => false

end

/-! ## Entity references in pools -/

mutual

/-- Drop from the pools in a value, at every depth, the references that are not
to be kept. A reference that is not inside a pool stays. -/
def retain (keep : EntityId → Bool) : Value → Value
  | .pool items => .pool (retainAll keep items)
  | v => v

def retainAll (keep : EntityId → Bool) : List Value → List Value
  | [] => []
  | .entity id :: vs => if keep id then .entity id :: retainAll keep vs else retainAll keep vs
  | v :: vs => retain keep v :: retainAll keep vs

end

mutual

/-- How many references `retain` drops. -/
def strays (keep : EntityId → Bool) : Value → Nat
  | .pool items => straysIn keep items
  | _ => 0

def straysIn (keep : EntityId → Bool) : List Value → Nat
  | [] => 0
  | .entity id :: vs => (if keep id then 0 else 1) + straysIn keep vs
  | v :: vs => strays keep v + straysIn keep vs

end

end Value

end EntityScript
