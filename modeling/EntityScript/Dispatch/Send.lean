import EntityScript.World

/-! # Sending

A message that is not waiting yet is put into the queue, and then each live
subscriber of the event is told in the same way, so one message may bring many
others with it. A fault in the arguments of a subscriber ends the sending; what is
in the queue by then stays there.

The subscriptions may form a cycle. Sending ends all the same: a message in the
queue is not followed again, and the messages that can come up are few, because
each is for the handler of a subscription and its arguments are those of the first
message or those of a subscription. -/

namespace EntityScript

namespace Queue

/-- Tell the subscribers in `subs` of an event with arguments `args`, where
`deliver` sends one message. -/
def tell (deliver : Queue → Message → Option (Except Fault Unit × Queue)) (t : Table)
    (args : List Value) : List Subscription → Queue → Option (Except Fault Unit × Queue)
  | [], q => some (.ok (), q)
  | s :: subs, q =>
    match s.message t args with
    | .error fault => some (.error fault, q)
    | .ok none => tell deliver t args subs q
    | .ok (some m) =>
      match deliver q m with
      | none => none
      | some (.error fault, q) => some (.error fault, q)
      | some (.ok (), q) => tell deliver t args subs q

/-- Send a message along chains of at most `depth` subscriptions; none if a chain is
longer. -/
def deliver (t : Table) (subs : Subscriptions) :
    Nat → Queue → Message → Option (Except Fault Unit × Queue)
  | 0, _, _ => none
  | depth + 1, q, m =>
    if q.holds m then some (.ok (), q)
    else
      let q := q.push m
      match t.get? m.target with
      | none => some (.ok (), q)
      | some e => tell (deliver t subs depth) t m.args (subs.subscribers e.name m.event) q

/-- The length that no chain of subscriptions exceeds. With `n` subscriptions there
are at most `n` pairs of target and event and `n + 1` lists of arguments besides the
first message, and a chain ends at the first message that is met again. -/
def chainBound (subs : Subscriptions) : Nat := subs.size * (subs.size + 1) + 2

def send (q : Queue) (t : Table) (subs : Subscriptions) (m : Message) :
    Except Fault Unit × Queue :=
  (deliver t subs (chainBound subs) q m).getD (.ok (), q)

end Queue

namespace World

def send (w : World) (m : Message) : Except Fault Unit × World :=
  let (r, queue) := w.queue.send w.table w.subscriptions m
  (r, { w with queue := queue })

def sendNamed (w : World) (name event : String) (args : List Value) : Except Fault Unit × World :=
  match w.table.idOf? name with
  | none => (.error (.entityNotFound name), w)
  | some id => w.send ⟨id, event, args⟩

end World

def Run.send (m : Message) : Run Unit := fun w => w.send m

end EntityScript
