import EntityScript.Value

/-! # Messages -/

namespace EntityScript

structure Message where
  target : EntityId
  event : String
  args : List Value
  deriving Repr, Inhabited

namespace Message

/-- Whether two messages are the same for the queue: same target, same event, and
arguments that are the same one by one. -/
def same (a b : Message) : Bool :=
  a.target == b.target && a.event == b.event && Value.sameAll a.args b.args

/-- Whether two messages are equal. It differs from `same` only on a NaN. -/
def equal (a b : Message) : Bool :=
  a.target == b.target && a.event == b.event && Value.equalAll a.args b.args

instance : BEq Message := ⟨equal⟩

def key (m : Message) : EntityId × String := (m.target, m.event)

end Message

end EntityScript
