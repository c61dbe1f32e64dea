import EntityScript.Message
import EntityScript.OrderedMap

/-! # The message queue

Messages in the order in which they will be handled, no two of them the same. A
tally of the messages by key settles most searches for a duplicate at once. -/

namespace EntityScript

structure Queue where
  pending : List Message
  /-- How many messages there are of each key; no key has a zero. -/
  tally : OrderedMap (EntityId × String) Nat
  deriving Inhabited

namespace Queue

def empty : Queue := ⟨[], .empty⟩

def count (q : Queue) (key : EntityId × String) : Nat := (q.tally.get? key).getD 0

/-- Whether the same message is already waiting. -/
def holds (q : Queue) (m : Message) : Bool :=
  decide (0 < q.count m.key) && q.pending.any fun p => p.same m

def push (q : Queue) (m : Message) : Queue :=
  ⟨q.pending ++ [m], q.tally.insert m.key (q.count m.key + 1)⟩

def uncount (tally : OrderedMap (EntityId × String) Nat) (key : EntityId × String) :
    OrderedMap (EntityId × String) Nat :=
  match tally.get? key with
  | some n => if n ≤ 1 then tally.erase key else tally.insert key (n - 1)
  | none => tally

def pop? (q : Queue) : Option (Message × Queue) :=
  match q.pending with
  | [] => none
  | m :: rest => some (m, ⟨rest, uncount q.tally m.key⟩)

end Queue

end EntityScript
