import EntityScript.Proofs.Message.Identity
import EntityScript.Queue

/-! # The queue and its tally

A queue is valid if its tally has for each key exactly the number of waiting messages,
with no entry for none, and no two waiting messages are the same. Adding a message
that is not held and taking the first one keep a queue valid. In a valid queue the
tally never changes the answer of the search for a duplicate (`holds_iff`). -/

namespace EntityScript.Queue

/-- How many messages of a key are waiting. -/
def waiting (q : Queue) (key : EntityId × String) : Nat :=
  q.pending.countP fun p => decide (p.key = key)

/-- A message is waiting that is the same as `m`. -/
def Awaits (q : Queue) (m : Message) : Prop := ∃ p ∈ q.pending, p.same m = true

/-- The tally is exact and no message waits twice. -/
structure Valid (q : Queue) : Prop where
  tallied : ∀ key, q.tally.get? key = if q.waiting key = 0 then none else some (q.waiting key)
  distinct : q.pending.Pairwise fun a b => a.same b = false

theorem empty_valid : Valid empty := ⟨fun _ => rfl, .nil⟩

theorem Valid.count_eq {q : Queue} (h : q.Valid) (key : EntityId × String) :
    q.count key = q.waiting key := by
  rw [count, h.tallied key]
  split
  · rename_i hz
    exact hz.symm
  · rfl

theorem waiting_pos {q : Queue} {m : Message} (h : q.Awaits m) : 0 < q.waiting m.key := by
  obtain ⟨p, hp, hs⟩ := h
  exact List.countP_pos_iff.mpr ⟨p, hp, decide_eq_true (Message.key_eq_of_same hs)⟩

theorem Valid.pairwise_same {q : Queue} (h : q.Valid) :
    q.pending.Pairwise fun a b => a.same b = false ∧ b.same a = false :=
  h.distinct.imp fun hab => ⟨hab, by rw [Message.same_comm]; exact hab⟩

/-- A message that is waiting waits once. -/
theorem Valid.countP_same {q : Queue} (hq : q.Valid) {m : Message} (hm : q.Awaits m) :
    q.pending.countP (fun p => p.same m) = 1 := by
  obtain ⟨p, hp, hsame⟩ := hm
  obtain ⟨before, after, hsplit⟩ := List.append_of_mem hp
  have hdistinct := hq.pairwise_same
  rw [hsplit, List.pairwise_append, List.pairwise_cons] at hdistinct
  have hother : ∀ x : Message, x.same p = false → ¬ x.same m = true := by
    intro x hx hxm
    rw [Message.same_trans hxm (by rwa [Message.same_comm])] at hx
    cases hx
  have hbefore : before.countP (fun p => p.same m) = 0 :=
    List.countP_eq_zero.mpr fun x hx =>
      hother x (hdistinct.2.2 x hx p List.mem_cons_self).1
  have hafter : after.countP (fun p => p.same m) = 0 :=
    List.countP_eq_zero.mpr fun x hx => hother x (hdistinct.2.1.1 x hx).2
  rw [hsplit, List.countP_append, List.countP_cons, if_pos hsame, hbefore,
    hafter]

/-! ## Searching -/

theorem any_same_iff {q : Queue} {m : Message} :
    (q.pending.any fun p => p.same m) = true ↔ q.Awaits m :=
  List.any_eq_true

/-- The tally settles no search wrongly. -/
theorem Valid.holds_eq_any {q : Queue} (h : q.Valid) (m : Message) :
    q.holds m = q.pending.any fun p => p.same m := by
  unfold holds
  cases ha : q.pending.any fun p => p.same m with
  | false => rw [Bool.and_false]
  | true =>
    have hpos := waiting_pos (any_same_iff.mp ha)
    rw [h.count_eq, Bool.and_true]
    exact decide_eq_true hpos

theorem Valid.holds_iff {q : Queue} (h : q.Valid) (m : Message) :
    q.holds m = true ↔ q.Awaits m := by
  rw [h.holds_eq_any, any_same_iff]

theorem awaits_of_holds {q : Queue} {m : Message} (h : q.holds m = true) : q.Awaits m :=
  any_same_iff.mp (Bool.and_eq_true_iff.mp h).2

/-! ## Adding a message -/

@[simp]
theorem pending_push (q : Queue) (m : Message) : (q.push m).pending = q.pending ++ [m] := rfl

theorem waiting_push (q : Queue) (m : Message) (key : EntityId × String) :
    (q.push m).waiting key = q.waiting key + if m.key = key then 1 else 0 := by
  simp [waiting, List.countP_append, List.countP_cons]

theorem awaits_push_self (q : Queue) (m : Message) : (q.push m).Awaits m :=
  ⟨m, by simp, m.same_refl⟩

theorem Valid.push {q : Queue} (h : q.Valid) {m : Message} (hm : q.holds m = false) :
    (q.push m).Valid := by
  constructor
  · intro key
    rw [waiting_push]
    simp only [Queue.push, OrderedMap.get?_insert, h.count_eq]
    by_cases hk : m.key = key
    · subst hk
      simp
    · simp only [if_neg hk, Nat.add_zero]
      exact h.tallied key
  · rw [pending_push, List.pairwise_append]
    refine ⟨h.distinct, List.pairwise_singleton _ m, ?_⟩
    intro p hp x hx
    rw [List.mem_singleton.mp hx]
    rw [h.holds_eq_any, List.any_eq_false] at hm
    exact Bool.eq_false_iff.mpr (hm p hp)

/-! ## Taking the first message -/

theorem pop?_eq_some_iff {q rest : Queue} {m : Message} :
    q.pop? = some (m, rest) ↔
      q.pending = m :: rest.pending ∧ rest.tally = uncount q.tally m.key := by
  obtain ⟨pending, tally⟩ := q
  obtain ⟨pending', tally'⟩ := rest
  cases pending with
  | nil => simp [pop?]
  | cons p ps =>
    simp only [pop?, Option.some.injEq, Prod.mk.injEq, Queue.mk.injEq, List.cons.injEq]
    constructor
    · rintro ⟨rfl, rfl, rfl⟩
      exact ⟨⟨rfl, rfl⟩, rfl⟩
    · rintro ⟨⟨rfl, rfl⟩, rfl⟩
      exact ⟨rfl, rfl, rfl⟩

theorem get?_uncount (tally : OrderedMap (EntityId × String) Nat) (key x : EntityId × String) :
    (uncount tally key).get? x =
      if key = x then (tally.get? key).bind fun n => if n ≤ 1 then none else some (n - 1)
      else tally.get? x := by
  unfold uncount
  split
  · rename_i n hn
    rw [hn, Option.bind_some]
    split
    · rw [OrderedMap.get?_erase]
    · rw [OrderedMap.get?_insert]
  · rename_i hn
    rw [hn, Option.bind_none]
    split
    · rename_i hx
      rw [← hx, hn]
    · rfl

theorem waiting_of_pop {q rest : Queue} {m : Message} (h : q.pop? = some (m, rest))
    (key : EntityId × String) :
    q.waiting key = rest.waiting key + if m.key = key then 1 else 0 := by
  rw [waiting, (pop?_eq_some_iff.mp h).1, List.countP_cons]
  simp [waiting]

/-- The message taken has an entry in the tally, and it is not zero. -/
theorem Valid.get?_of_pop {q rest : Queue} {m : Message} (hq : q.Valid)
    (h : q.pop? = some (m, rest)) : q.tally.get? m.key = some (rest.waiting m.key + 1) := by
  rw [hq.tallied, waiting_of_pop h, if_pos rfl, if_neg (Nat.succ_ne_zero _)]

theorem Valid.pop {q rest : Queue} {m : Message} (hq : q.Valid) (h : q.pop? = some (m, rest)) :
    rest.Valid := by
  obtain ⟨hp, ht⟩ := pop?_eq_some_iff.mp h
  constructor
  · intro key
    rw [ht, get?_uncount, hq.get?_of_pop h]
    -- the entry of the message taken goes when it was the last one of its key
    by_cases hk : m.key = key
    · subst hk
      rw [if_pos rfl, Option.bind_some, Nat.add_sub_cancel]
      by_cases hz : rest.waiting m.key = 0
      · rw [if_pos (by omega), if_pos hz]
      · rw [if_neg (by omega), if_neg hz]
    · rw [if_neg hk, hq.tallied, waiting_of_pop h, if_neg hk]
      rfl
  · have hd := hq.distinct
    rw [hp, List.pairwise_cons] at hd
    exact hd.2

end EntityScript.Queue
