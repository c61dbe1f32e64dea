import EntityScript.Proofs.Send.FanOut

/-! # Sending reaches exactly the subscribers

The messages that a send adds are those that can be reached from the message sent by
telling live subscribers, along messages that were not waiting before. The queue serves
as the set of messages already met, and the subscriptions may form cycles. -/

namespace EntityScript

namespace Queue

variable {t : Table} {subs : Subscriptions}

/-- What can be reached from `m` by telling live subscribers, along messages that are
not waiting in `q`. -/
inductive Reached (q : Queue) (t : Table) (subs : Subscriptions) (m : Message) : Message → Prop
  | first : Reached q t subs m m
  | next {a b : Message} :
    Reached q t subs m a → a.Tells t subs b → ¬ q.Awaits b → Reached q t subs m b

/-- What was added to a valid queue was not waiting in it before. -/
theorem not_awaits_of_added {q q' : Queue} {new : List Message} (hq' : q'.Valid)
    (hnew : q'.pending = q.pending ++ new) : ∀ x ∈ new, ¬ q.Awaits x := by
  rintro x hx ⟨p, hp, hs⟩
  have hd := hq'.distinct
  rw [hnew, List.pairwise_append] at hd
  rw [hd.2.2 p hp x hx] at hs
  cases hs

theorem reached_of_grounded {q : Queue} {m : Message} {rest : List Message}
    (hg : Grounded t subs (m.Tells t subs) rest) (hnew : ∀ x ∈ rest, ¬ q.Awaits x) :
    ∀ x ∈ rest, Reached q t subs m x :=
  hg.forall_mem (fun x hx htells => .next .first htells (hnew x hx))
    fun _ ha x hx htells => .next ha htells (hnew x hx)

/-- Whatever can be reached was added, up to `Message.same`. The walk passes over a
message that it has met already in another guise; what the two bring is the same too. -/
theorem added_of_reached {q q' : Queue} {m : Message} {rest : List Message}
    (hadd : q'.pending = q.pending ++ m :: rest)
    (hsat : ∀ x ∈ m :: rest, q'.Satisfies t subs x) {x : Message} (hx : Reached q t subs m x) :
    ∃ y ∈ m :: rest, y.same x = true := by
  induction hx with
  | first => exact ⟨m, List.mem_cons_self, m.same_refl⟩
  | @next a b _ htells hb ih =>
    obtain ⟨y, hy, hya⟩ := ih
    obtain ⟨c, ⟨s, hs, hc⟩, hcb⟩ := Message.tells_of_same hya htells
    obtain ⟨c', hc', p, hp, hpc⟩ := hsat y hy s hs hc.live
    have hcc : c' = c := hc'.unique hc
    have hpb : p.same b = true := Message.same_trans hpc (hcc ▸ hcb)
    rw [hadd] at hp
    rcases List.mem_append.mp hp with hp | hp
    · exact absurd ⟨p, hp, hpb⟩ hb
    · exact ⟨p, hp, hpb⟩

end Queue

/-- **Sending is exact.** In every state whose queue is valid, as it is in all states that
requests lead to, a message that is waiting changes nothing when it is sent again. Any other
message whose sending succeeds comes behind the queue with messages `rest` such that no two
messages of the queue are the same, each of `rest` notifies a live subscriber of a message added
before it, and every live subscriber of an added message has its message waiting. So what is added
is, up to `Message.same`, what can be reached along messages that were not waiting. -/
theorem World.send_exact (w : World) (hq : w.queue.Valid) (m : Message) :
    (w.queue.Awaits m → w.send m = (.ok (), w)) ∧
    (¬ w.queue.Awaits m → (w.send m).1 = .ok () → ∃ rest,
      (w.send m).2.queue.pending = w.queue.pending ++ m :: rest ∧
      (w.send m).2.queue.pending.Pairwise (fun a b => a.same b = false ∧ b.same a = false) ∧
      (∀ before x after, rest = before ++ x :: after →
        ∃ a ∈ m :: before, ∃ s ∈ a.audience w.table w.subscriptions,
          s.Notifies w.table a.args x) ∧
      (∀ x ∈ m :: rest, ∀ s ∈ x.audience w.table w.subscriptions,
        w.table.isLive s.subscriber = true →
          ∃ b, s.Notifies w.table x.args b ∧ (w.send m).2.queue.Awaits b) ∧
      (∀ x ∈ m :: rest, w.queue.Reached w.table w.subscriptions m x) ∧
      (∀ x, w.queue.Reached w.table w.subscriptions m x → ∃ y ∈ m :: rest, y.same x = true)) := by
  constructor
  · exact World.send_of_awaits hq
  · intro hm hok
    have hfresh : w.queue.holds m = false := by
      rw [Bool.eq_false_iff]
      exact fun h => hm ((hq.holds_iff m).mp h)
    have hvalid : (w.send m).2.queue.Valid := hq.send m
    obtain ⟨rest, hadd, hg⟩ := Queue.send_adds w.table w.subscriptions w.queue m hfresh
    have hnew := Queue.not_awaits_of_added hvalid hadd
    have hsat : ∀ x ∈ m :: rest, (w.send m).2.queue.Satisfies w.table w.subscriptions x := by
      intro x hx
      have hmem : x ∈ (w.send m).2.queue.pending := by
        rw [show (w.send m).2.queue.pending = _ from hadd]
        exact List.mem_append_right _ hx
      refine (Queue.send_satisfies _ _ _ m hok x hmem).resolve_left ?_
      exact fun hold => hnew x hx ⟨x, hold, x.same_refl⟩
    refine ⟨rest, hadd, hvalid.pairwise_same, ?_, hsat, ?_, ?_⟩
    · intro before x after hrest
      rcases hg before x after hrest with h | ⟨a, ha, h⟩
      · exact ⟨m, List.mem_cons_self, h⟩
      · exact ⟨a, List.mem_cons_of_mem _ ha, h⟩
    · intro x hx
      rcases List.mem_cons.mp hx with rfl | hx
      · exact .first
      · exact Queue.reached_of_grounded hg (fun y hy => hnew y (List.mem_cons_of_mem _ hy)) x hx
    · exact fun x hx => Queue.added_of_reached hadd hsat hx

/-- Two entities that answer each other, one by passing its arguments on and one with
arguments of its own. -/
def World.pingPong : World where
  table := ⟨[⟨⟨0⟩, "a", .empty, ⟨[]⟩, false⟩, ⟨⟨1⟩, "b", .empty, ⟨[]⟩, false⟩],
    .ofList [("a", ⟨0⟩), ("b", ⟨1⟩)], 2⟩
  queue := Queue.empty.push ⟨⟨0⟩, "tick", []⟩
  subscriptions := .ofList [(("a", "ping"), [⟨⟨1⟩, "pong", none⟩]),
    (("b", "pong"), [⟨⟨0⟩, "ping", some [.literal (.number 1)]⟩])]

/-- A cycle of subscriptions, entered with a NaN. -/
theorem World.send_exact_pingPong :
    World.pingPong.queue.Valid ∧ ∃ rest,
      (World.pingPong.send ⟨⟨0⟩, "ping", [.number Number.nan]⟩).2.queue.pending =
        World.pingPong.queue.pending ++ ⟨⟨0⟩, "ping", [.number Number.nan]⟩ :: rest ∧
      (World.pingPong.send ⟨⟨0⟩, "ping", [.number Number.nan]⟩).2.queue.pending.Pairwise
        (fun a b => a.same b = false ∧ b.same a = false) := by
  have hvalid : World.pingPong.queue.Valid := Queue.empty_valid.push rfl
  have hfresh : ¬ World.pingPong.queue.Awaits ⟨⟨0⟩, "ping", [.number Number.nan]⟩ := by
    rw [← hvalid.holds_iff]
    exact Bool.false_ne_true
  obtain ⟨rest, hadd, hdistinct, _⟩ := (World.send_exact World.pingPong hvalid _).2 hfresh rfl
  exact ⟨hvalid, rest, hadd, hdistinct⟩

end EntityScript
