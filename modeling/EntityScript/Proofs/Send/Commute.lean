import EntityScript.Proofs.Send.Reach

/-! # Two messages in either order

What sending a message brings into a queue (`Queue.Brings`) is said without the walk that
brings it. Sending ends in a fault only if something that it brings has a subscriber whose
arguments do (`send_fault`), and sending two messages one after the other brings what each of
them would bring alone, whichever walk comes upon it first (`awaits_after_two`). So the order
of two sends decides nothing but the order of the queue (`World.sends_commute`). -/

namespace EntityScript

/-! ## Subscribers with faulty arguments -/

/-- Whether the arguments of a subscription end in a fault has nothing to do with the arguments
of the event. -/
theorem Subscription.message_error {s : Subscription} {t : Table} {args : List Value}
    {fault : Fault} (h : s.message t args = .error fault) (args' : List Value) :
    s.message t args' = .error fault := by
  unfold message at h ⊢
  cases he : t.get? s.subscriber with
  | none => simp [he] at h
  | some e =>
    cases hd : e.destroyed with
    | true => simp [he, hd] at h
    | false =>
      cases ha : s.args with
      | none => simp [he, hd, ha] at h
      | some exprs => simpa [he, hd, ha] using h

namespace Message

variable {t : Table} {subs : Subscriptions}

/-- The message has a subscriber whose own arguments end in a fault. -/
def Faulty (t : Table) (subs : Subscriptions) (m : Message) : Prop :=
  ∃ s ∈ m.audience t subs, ∃ fault, s.message t m.args = .error fault

theorem Faulty.of_same {a b : Message} (hb : b.Faulty t subs) (h : a.same b = true) :
    a.Faulty t subs := by
  obtain ⟨s, hs, fault, hfault⟩ := hb
  rw [← audience_of_same h] at hs
  exact ⟨s, hs, fault, Subscription.message_error hfault a.args⟩

end Message

namespace Queue

variable {t : Table} {subs : Subscriptions} {q q' q'' : Queue} {m x : Message}

theorem Satisfies.not_faulty (h : q.Satisfies t subs x) : ¬ x.Faulty t subs := by
  rintro ⟨s, hs, fault, hfault⟩
  have hlive : t.isLive s.subscriber = true := by
    rw [← Bool.not_eq_false]
    intro hdead
    rw [Subscription.message_eq_none_iff.mpr hdead] at hfault
    cases hfault
  obtain ⟨b, hb, _⟩ := h s hs hlive
  rw [Subscription.message_eq_some_iff.mpr hb] at hfault
  cases hfault

/-! ## What a message brings -/

/-- Sending `m` brings `x` into the queue: `m` does not wait there, and `x` can be reached from
it. -/
structure Brings (q : Queue) (t : Table) (subs : Subscriptions) (m x : Message) : Prop where
  fresh : ¬ q.Awaits m
  reached : q.Reached t subs m x

theorem Brings.not_awaits (h : q.Brings t subs m x) : ¬ q.Awaits x := by
  cases h.reached with
  | first => exact h.fresh
  | next _ _ hx => exact hx

/-- What is reached with more messages waiting is reached with fewer. -/
theorem Reached.extend {b : Message} (hb : q.Reached t subs m b) (hq : q.pending <+: q'.pending)
    (hx : q'.Reached t subs b x) : q.Reached t subs m x := by
  induction hx with
  | first => exact hb
  | next _ htells hfresh ih => exact .next ih htells fun h => hfresh (h.mono hq)

theorem Brings.of_grown (h : q'.Brings t subs m x) (hq : q.pending <+: q'.pending) :
    q.Brings t subs m x :=
  ⟨fun hm => h.fresh (hm.mono hq), .extend .first hq h.reached⟩

/-- All that sending adds it brings, whether or not it ends in a fault. -/
theorem brings_of_added (hq : q.Valid) (hx : x ∈ (q.send t subs m).2.pending) :
    x ∈ q.pending ∨ q.Brings t subs m x := by
  by_cases hheld : q.holds m = true
  · rw [send_held hheld] at hx
    exact .inl hx
  · obtain ⟨rest, hadd, hg⟩ := send_adds t subs q m (by simpa using hheld)
    have hnew := not_awaits_of_added (hq.send m) hadd
    rw [hadd] at hx
    rcases List.mem_append.mp hx with hold | hadded
    · exact .inl hold
    · refine .inr ⟨hnew m List.mem_cons_self, ?_⟩
      rcases List.mem_cons.mp hadded with rfl | hrest
      · exact .first
      · exact reached_of_grounded hg (fun y hy => hnew y (List.mem_cons_of_mem _ hy)) x hrest

/-! ## Where a fault comes from -/

/-- A fault in sending comes from a subscriber of a message that is brought. -/
theorem send_fault (t : Table) (subs : Subscriptions) (q : Queue) (m : Message) (hq : q.Valid)
    {fault : Fault} (h : (q.send t subs m).1 = .error fault) :
    ∃ x, q.Brings t subs m x ∧ x.Faulty t subs := by
  -- telling `ss` ends in a fault of one of them, or of a message that one of them is told by
  refine send_induction t subs
    (fun q m => q.Valid → ∀ fault, (q.send t subs m).1 = .error fault →
      ∃ x, q.Brings t subs m x ∧ x.Faulty t subs)
    (fun args ss q => q.Valid → ∀ fault, (spread t subs args ss q).1 = .error fault →
      ∃ s ∈ ss, (∃ fault, s.message t args = .error fault) ∨
        ∃ b x, s.Notifies t args b ∧ q.Brings t subs b x ∧ x.Faulty t subs)
    ?_ ?_ ?_ ?_ ?_ ?_ ?_ q m hq fault h
  · intro q m hheld _ fault h
    rw [send_held hheld] at h
    cases h
  · intro q m hheld hR hq fault h
    have hfresh : ¬ q.Awaits m := by simp [← hq.holds_iff, hheld]
    have hpush : q.pending <+: (q.push m).pending := ⟨[m], rfl⟩
    rw [send_new hheld] at h
    obtain ⟨s, hs, hown | ⟨b, x, hb, hbrings, hfaulty⟩⟩ := hR (hq.push hheld) fault h
    · exact ⟨m, ⟨hfresh, .first⟩, s, hs, hown⟩
    · have hb' : q.Reached t subs m b :=
        .next .first ⟨s, hs, hb⟩ (hbrings.of_grown hpush).fresh
      exact ⟨x, ⟨hfresh, hb'.extend hpush hbrings.reached⟩, hfaulty⟩
  · intro args q _ fault h
    cases h
  · intro args s ss q fault hm _ _ _
    exact ⟨s, List.mem_cons_self, .inl ⟨fault, hm⟩⟩
  · intro args s ss q hm hR hq fault h
    rw [spread_silent hm] at h
    obtain ⟨s', hs', hcause⟩ := hR hq fault h
    exact ⟨s', List.mem_cons_of_mem _ hs', hcause⟩
  · intro args s ss q b fault hm hP hb hq _ _
    obtain ⟨x, hbrings, hfaulty⟩ := hP hq fault hb
    exact ⟨s, List.mem_cons_self,
      .inr ⟨b, x, Subscription.message_eq_some_iff.mp hm, hbrings, hfaulty⟩⟩
  · intro args s ss q b hm _ hb hR hq fault h
    rw [spread_told hm hb] at h
    obtain ⟨s', hs', hcause⟩ := hR (hq.send b) fault h
    refine ⟨s', List.mem_cons_of_mem _ hs', hcause.imp_right ?_⟩
    rintro ⟨c, x, hc, hbrings, hfaulty⟩
    exact ⟨c, x, hc, hbrings.of_grown (pending_prefix_send t subs q b), hfaulty⟩

/-! ## Queues from which nothing is missing -/

/-- The queue `q'` has grown from `q`, and all that its new messages bring is waiting. -/
structure Completes (t : Table) (subs : Subscriptions) (q q' : Queue) : Prop where
  grown : q.pending <+: q'.pending
  served : ∀ x ∈ q'.pending, x ∈ q.pending ∨ q'.Satisfies t subs x

theorem send_completes (h : (q.send t subs m).1 = .ok ()) :
    Completes t subs q (q.send t subs m).2 :=
  ⟨pending_prefix_send t subs q m, send_satisfies t subs q m h⟩

theorem Completes.trans (h : Completes t subs q q') (h' : Completes t subs q' q'') :
    Completes t subs q q'' where
  grown := h.grown.trans h'.grown
  served := by
    intro x hx
    rcases h'.served x hx with hmid | hserved
    · exact (h.served x hmid).imp_right fun hsat s hs => (hsat s hs).mono h'.grown
    · exact .inr hserved

/-- A message that came in has all its subscribers served. -/
theorem Completes.satisfies (h : Completes t subs q q') (hnew : ¬ q.Awaits x) (hx : q'.Awaits x) :
    ∃ y, y.same x = true ∧ q'.Satisfies t subs y := by
  obtain ⟨y, hy, hyx⟩ := hx
  exact ⟨y, hyx, (h.served y hy).resolve_left fun hold => hnew ⟨y, hold, hyx⟩⟩

theorem Completes.not_faulty (h : Completes t subs q q') (hnew : ¬ q.Awaits x)
    (hx : q'.Awaits x) : ¬ x.Faulty t subs := by
  obtain ⟨y, hyx, hsat⟩ := h.satisfies hnew hx
  exact fun hfaulty => hsat.not_faulty (hfaulty.of_same hyx)

/-- With a message, all that it brings is waiting. -/
theorem Completes.awaits (h : Completes t subs q q') (hm : q'.Awaits m)
    (hx : q.Brings t subs m x) : q'.Awaits x := by
  obtain ⟨hfresh, hreached⟩ := hx
  induction hreached with
  | first => exact hm
  | @next a b ha htells _ ih =>
    obtain ⟨y, hya, hsat⟩ := h.satisfies (Brings.not_awaits ⟨hfresh, ha⟩) ih
    obtain ⟨c, ⟨s, hs, hc⟩, hcb⟩ := Message.tells_of_same hya htells
    obtain ⟨c', hc', p, hp, hpc⟩ := hsat s hs hc.live
    rw [hc'.unique hc] at hpc
    exact ⟨p, hp, Message.same_trans hpc hcb⟩

/-! ## Sending two messages -/

section Two

variable {m₁ m₂ : Message}

/-- What waits after two sends is what waited before and what either message brings. -/
theorem awaits_after_two (hq : q.Valid) (h₁ : (q.send t subs m₁).1 = .ok ())
    (h₂ : ((q.send t subs m₁).2.send t subs m₂).1 = .ok ()) :
    ((q.send t subs m₁).2.send t subs m₂).2.Awaits x ↔
      q.Awaits x ∨ ∃ y, (q.Brings t subs m₁ y ∨ q.Brings t subs m₂ y) ∧ y.same x = true := by
  have hcompletes := (send_completes h₁).trans (send_completes h₂)
  have hgrown := pending_prefix_send t subs q m₁
  have hgrown' := pending_prefix_send t subs (q.send t subs m₁).2 m₂
  constructor
  · rintro ⟨p, hp, hpx⟩
    rcases brings_of_added (hq.send m₁) hp with hmid | hbrings
    · rcases brings_of_added hq hmid with hold | hbrings
      · exact .inl ⟨p, hold, hpx⟩
      · exact .inr ⟨p, .inl hbrings, hpx⟩
    · exact .inr ⟨p, .inr (hbrings.of_grown hgrown), hpx⟩
  · rintro (hold | ⟨y, hbrings, hyx⟩)
    · exact hold.mono hcompletes.grown
    · have hy : ((q.send t subs m₁).2.send t subs m₂).2.Awaits y := by
        rcases hbrings with hbrings | hbrings
        · exact hcompletes.awaits ((awaits_send t subs q m₁).mono hgrown') hbrings
        · exact hcompletes.awaits (awaits_send t subs _ m₂) hbrings
      obtain ⟨p, hp, hpy⟩ := hy
      exact ⟨p, hp, Message.same_trans hpy hyx⟩

/-- If two sends succeed, no message that either of them brings has a faulty subscriber. -/
theorem not_faulty_of_two (hq : q.Valid) (h₁ : (q.send t subs m₁).1 = .ok ())
    (h₂ : ((q.send t subs m₁).2.send t subs m₂).1 = .ok ())
    (hx : q.Brings t subs m₁ x ∨ q.Brings t subs m₂ x) : ¬ x.Faulty t subs := by
  have hcompletes := (send_completes h₁).trans (send_completes h₂)
  have hwaits := (awaits_after_two hq h₁ h₂).mpr (.inr ⟨x, hx, x.same_refl⟩)
  exact hcompletes.not_faulty (hx.elim Brings.not_awaits Brings.not_awaits) hwaits

/-- If two sends succeed, they succeed in the other order. -/
theorem send_ok_swapped (hq : q.Valid) (h₁ : (q.send t subs m₁).1 = .ok ())
    (h₂ : ((q.send t subs m₁).2.send t subs m₂).1 = .ok ()) :
    (q.send t subs m₂).1 = .ok () ∧ ((q.send t subs m₂).2.send t subs m₁).1 = .ok () := by
  constructor
  · cases hr : (q.send t subs m₂).1 with
    | ok => rfl
    | error fault =>
      obtain ⟨x, hx, hfaulty⟩ := send_fault t subs q m₂ hq hr
      exact absurd hfaulty (not_faulty_of_two hq h₁ h₂ (.inr hx))
  · cases hr : ((q.send t subs m₂).2.send t subs m₁).1 with
    | ok => rfl
    | error fault =>
      obtain ⟨x, hx, hfaulty⟩ := send_fault t subs _ m₁ (hq.send m₂) hr
      have hx' := hx.of_grown (pending_prefix_send t subs q m₂)
      exact absurd hfaulty (not_faulty_of_two hq h₁ h₂ (.inl hx'))

end Two

end Queue

/-! ## Messages up to sameness -/

/-- Messages that the queue does not tell apart. -/
instance Message.setoid : Setoid Message where
  r a b := a.same b = true
  iseqv := ⟨Message.same_refl, Message.same_symm, Message.same_trans⟩

/-- The waiting messages, of which those that the queue does not tell apart count as one. -/
def Queue.contents (q : Queue) : List (Quotient Message.setoid) :=
  q.pending.map (Quotient.mk Message.setoid)

theorem Queue.mem_contents_iff {q : Queue} {m : Message} :
    Quotient.mk Message.setoid m ∈ q.contents ↔ q.Awaits m := by
  unfold contents Awaits
  rw [List.mem_map]
  constructor
  · rintro ⟨p, hp, heq⟩
    exact ⟨p, hp, Quotient.exact heq⟩
  · rintro ⟨p, hp, hsame⟩
    exact ⟨p, hp, Quotient.sound hsame⟩

theorem Queue.Valid.nodup_contents {q : Queue} (hq : q.Valid) : q.contents.Nodup := by
  unfold Queue.contents
  rw [List.Nodup, List.pairwise_map]
  refine hq.distinct.imp fun hdiffer heq => ?_
  have hsame : _ = true := Quotient.exact heq
  rw [hdiffer] at hsame
  cases hsame

/-- **Sends commute up to the order of the queue.** If two messages can be sent one after the
other, they can be sent in the other order. Up to `Message.same` the two queues then have the
same messages, each of them once, and in everything but the queue the two states are equal. -/
theorem World.sends_commute (w : World) (hq : w.queue.Valid) (m₁ m₂ : Message)
    (h₁ : (w.send m₁).1 = .ok ()) (h₂ : ((w.send m₁).2.send m₂).1 = .ok ()) :
    (w.send m₂).1 = .ok () ∧ ((w.send m₂).2.send m₁).1 = .ok () ∧
    let w₁₂ := ((w.send m₁).2.send m₂).2
    let w₂₁ := ((w.send m₂).2.send m₁).2
    w₁₂.queue.contents.Perm w₂₁.queue.contents ∧
    w₁₂.queue.contents.Nodup ∧ w₂₁.queue.contents.Nodup ∧
    { w₁₂ with queue := w₂₁.queue } = w₂₁ := by
  obtain ⟨h₁', h₂'⟩ := Queue.send_ok_swapped hq h₁ h₂
  have hnodup : ((w.send m₁).2.send m₂).2.queue.contents.Nodup :=
    ((hq.send m₁).send m₂).nodup_contents
  have hnodup' : ((w.send m₂).2.send m₁).2.queue.contents.Nodup :=
    ((hq.send m₂).send m₁).nodup_contents
  refine ⟨h₁', h₂', (List.perm_ext_iff_of_nodup hnodup hnodup').mpr ?_, hnodup, hnodup', rfl⟩
  intro c
  induction c using Quotient.ind with
  | _ x =>
    rw [Queue.mem_contents_iff, Queue.mem_contents_iff]
    calc ((w.send m₁).2.send m₂).2.queue.Awaits x
      _ ↔ w.queue.Awaits x ∨ ∃ y, (w.queue.Brings w.table w.subscriptions m₁ y ∨
            w.queue.Brings w.table w.subscriptions m₂ y) ∧ y.same x = true :=
          Queue.awaits_after_two hq h₁ h₂
      _ ↔ w.queue.Awaits x ∨ ∃ y, (w.queue.Brings w.table w.subscriptions m₂ y ∨
            w.queue.Brings w.table w.subscriptions m₁ y) ∧ y.same x = true := by
          simp only [or_comm]
      _ ↔ ((w.send m₂).2.send m₁).2.queue.Awaits x :=
          (Queue.awaits_after_two hq h₁' h₂').symm

/-- Both messages bring each other along a cycle, and the two queues differ in their order. -/
theorem World.sends_commute_pingPong :
    let m₁ : Message := ⟨⟨0⟩, "ping", [.number Number.nan]⟩
    let m₂ : Message := ⟨⟨1⟩, "pong", [.number 1]⟩
    let w₁₂ := ((World.pingPong.send m₁).2.send m₂).2
    let w₂₁ := ((World.pingPong.send m₂).2.send m₁).2
    World.pingPong.queue.Valid ∧
    w₁₂.queue.pending.map Message.event = ["tick", "ping", "pong", "ping", "pong"] ∧
    w₂₁.queue.pending.map Message.event = ["tick", "pong", "ping", "ping", "pong"] ∧
    w₁₂.queue.contents.Perm w₂₁.queue.contents := by
  intro m₁ m₂ w₁₂ w₂₁
  have hvalid : World.pingPong.queue.Valid := Queue.empty_valid.push rfl
  obtain ⟨_, _, hperm, _⟩ := World.sends_commute World.pingPong hvalid m₁ m₂ rfl rfl
  exact ⟨hvalid, by decide +kernel, by decide +kernel, hperm⟩

end EntityScript
