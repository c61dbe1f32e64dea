import EntityScript.Proofs.Send.Commute

/-! # Subscribers behind a fault

The subscribers of a message are told in the order of their registration, and a fault in
telling one of them ends the sending. Those before it have their messages waiting
(`spread_serves`); those behind it are not told (`spread_stops`), although their own
arguments may be in order, and sending the message again does not help them because it is
waiting by then (`World.send_passes_over_page`). -/

namespace EntityScript

namespace Queue

variable {t : Table} {subs : Subscriptions} {args : List Value} {q q' : Queue}

/-- Telling a subscriber comes upon a fault: in its own arguments, or in those of somebody who
is reached by telling it. -/
def Trips (q : Queue) (t : Table) (subs : Subscriptions) (args : List Value) (s : Subscription) :
    Prop :=
  (∃ fault, s.message t args = .error fault) ∨
    ∃ b x, s.Notifies t args b ∧ q.Brings t subs b x ∧ x.Faulty t subs

theorem Trips.of_grown {s : Subscription} (h : q'.Trips t subs args s)
    (hq : q.pending <+: q'.pending) : q.Trips t subs args s := by
  refine h.imp_right ?_
  rintro ⟨b, x, hb, hbrings, hfaulty⟩
  exact ⟨b, x, hb, hbrings.of_grown hq, hfaulty⟩

theorem trips_of_send {s : Subscription} {b : Message} {fault : Fault} (hq : q.Valid)
    (hb : s.Notifies t args b) (h : (q.send t subs b).1 = .error fault) :
    q.Trips t subs args s := by
  obtain ⟨x, hbrings, hfaulty⟩ := send_fault t subs q b hq h
  exact .inr ⟨b, x, hb, hbrings, hfaulty⟩

theorem spread_awaits_first {s : Subscription} {b : Message} (hb : s.Notifies t args b)
    (ss : List Subscription) (q : Queue) : (spread t subs args (s :: ss) q).2.Awaits b := by
  have hm := Subscription.message_eq_some_iff.mpr hb
  have hsent := awaits_send t subs q b
  cases hr : (q.send t subs b).1 with
  | error fault =>
    rw [spread_stopped hm hr]
    exact hsent
  | ok =>
    rw [spread_told hm hr]
    exact hsent.mono (pending_prefix_spread t subs args ss _)

/-- A subscriber is told if telling those before it comes upon no fault. -/
theorem spread_serves {before after : List Subscription} {s : Subscription} {b : Message}
    (hq : q.Valid) (hb : s.Notifies t args b) (hbefore : ∀ s' ∈ before, ¬ q.Trips t subs args s') :
    (spread t subs args (before ++ s :: after) q).2.Awaits b := by
  induction before generalizing q with
  | nil => exact spread_awaits_first hb after q
  | cons s' before ih =>
    have hs' := hbefore s' List.mem_cons_self
    have hrest : ∀ x ∈ before, ¬ q.Trips t subs args x :=
      fun x hx => hbefore x (List.mem_cons_of_mem _ hx)
    rw [List.cons_append]
    match hm : s'.message t args with
    | .error fault => exact absurd (.inl ⟨fault, hm⟩) hs'
    | .ok none =>
      rw [spread_silent hm]
      exact ih hq hrest
    | .ok (some c) =>
      match hr : (q.send t subs c).1 with
      | .error fault =>
        exact absurd (trips_of_send hq (Subscription.message_eq_some_iff.mp hm) hr) hs'
      | .ok () =>
        -- with the messages that telling `s'` brought, the others come upon no more faults
        have hgrown := pending_prefix_send t subs q c
        rw [spread_told hm hr]
        exact ih (hq.send c) fun x hx htrips => hrest x hx (htrips.of_grown hgrown)

/-- Where telling ends in a fault, it is as if those behind were no subscribers. -/
theorem spread_stops {ss : List Subscription} {fault : Fault} (hq : q.Valid)
    (h : (spread t subs args ss q).1 = .error fault) :
    ∃ before s after, ss = before ++ s :: after ∧ q.Trips t subs args s ∧
      spread t subs args (before ++ [s]) q = spread t subs args ss q := by
  induction ss generalizing q with
  | nil => cases h
  | cons s ss ih =>
    match hm : s.message t args with
    | .error _ =>
      refine ⟨[], s, ss, rfl, .inl ⟨_, hm⟩, ?_⟩
      rw [List.nil_append, spread_error hm, spread_error hm]
    | .ok none =>
      rw [spread_silent hm] at h
      obtain ⟨before, s', after, rfl, htrips, hsame⟩ := ih hq h
      exact ⟨s :: before, s', after, rfl, htrips, by
        rw [List.cons_append, spread_silent hm, spread_silent hm, hsame]⟩
    | .ok (some b) =>
      match hr : (q.send t subs b).1 with
      | .error _ =>
        refine ⟨[], s, ss, rfl, trips_of_send hq (Subscription.message_eq_some_iff.mp hm) hr, ?_⟩
        rw [List.nil_append, spread_stopped hm hr, spread_stopped hm hr]
      | .ok () =>
        rw [spread_told hm hr] at h
        obtain ⟨before, s', after, rfl, htrips, hsame⟩ := ih (hq.send b) h
        refine ⟨s :: before, s', after, rfl, htrips.of_grown (pending_prefix_send t subs q b), ?_⟩
        rw [List.cons_append, spread_told hm hr, spread_told hm hr, hsame]

end Queue

/-- **A fault costs the subscribers behind it their messages, and nobody else.** When a message
that is not waiting is sent, a live subscriber with arguments in order has its message waiting
afterwards, unless telling a subscriber registered before it comes upon a fault. If sending ends
in a fault, there is a subscriber whose telling comes upon one, and the queue is the one in which
only that subscriber and those before it are told. -/
theorem World.send_serves_up_to_fault (w : World) (hq : w.queue.Valid) (m : Message)
    (hm : ¬ w.queue.Awaits m) :
    (∀ before s after b, m.audience w.table w.subscriptions = before ++ s :: after →
      s.Notifies w.table m.args b →
      (w.send m).2.queue.Awaits b ∨
        ∃ s' ∈ before, w.queue.Trips w.table w.subscriptions m.args s') ∧
    (∀ fault, (w.send m).1 = .error fault → ∃ before s after,
      m.audience w.table w.subscriptions = before ++ s :: after ∧
      w.queue.Trips w.table w.subscriptions m.args s ∧
      (.error fault, (w.send m).2.queue) =
        Queue.spread w.table w.subscriptions m.args (before ++ [s]) (w.queue.push m)) := by
  have hfresh : w.queue.holds m = false := by
    rw [Bool.eq_false_iff]
    exact fun hheld => hm ((hq.holds_iff m).mp hheld)
  have hsend : w.queue.send w.table w.subscriptions m = _ := Queue.send_new hfresh
  have hpushed : (w.queue.push m).Valid := hq.push hfresh
  have hgrown : w.queue.pending <+: (w.queue.push m).pending := ⟨[m], rfl⟩
  constructor
  · intro before s after b haudience hb
    by_cases htrips : ∃ s' ∈ before, w.queue.Trips w.table w.subscriptions m.args s'
    · exact .inr htrips
    · have hbefore : ∀ s' ∈ before,
          ¬ (w.queue.push m).Trips w.table w.subscriptions m.args s' :=
        fun s' hs' htrips' => htrips ⟨s', hs', htrips'.of_grown hgrown⟩
      have hserved : (Queue.spread w.table w.subscriptions m.args (before ++ s :: after)
          (w.queue.push m)).2.Awaits b := Queue.spread_serves hpushed hb hbefore
      rw [← haudience, ← hsend] at hserved
      exact .inl hserved
  · intro fault hfault
    have hspread : (Queue.spread w.table w.subscriptions m.args
        (m.audience w.table w.subscriptions) (w.queue.push m)).1 = .error fault := by
      rw [← hsend]
      exact hfault
    obtain ⟨before, s, after, haudience, htrips, hsame⟩ := Queue.spread_stops hpushed hspread
    refine ⟨before, s, after, haudience, htrips.of_grown hgrown, ?_⟩
    rw [hsame, ← hsend]
    exact Prod.ext hfault.symm rfl

/-- A bell with three subscribers, of which the second has arguments that end in a fault. -/
def World.belfry : World where
  table := ⟨[⟨⟨0⟩, "Bell", .empty, ⟨[]⟩, false⟩, ⟨⟨1⟩, "Cook", .empty, ⟨[]⟩, false⟩,
      ⟨⟨2⟩, "Ghost", .empty, ⟨[]⟩, false⟩, ⟨⟨3⟩, "Page", .empty, ⟨[]⟩, false⟩],
    .ofList [("Bell", ⟨0⟩), ("Cook", ⟨1⟩), ("Ghost", ⟨2⟩), ("Page", ⟨3⟩)], 4⟩
  subscriptions := .ofList [(("Bell", "ring"), [⟨⟨1⟩, "hear", none⟩,
    ⟨⟨2⟩, "hear", some [.var "nowhere"]⟩, ⟨⟨3⟩, "hear", none⟩])]

/-- The cook, who comes before the fault, is served. -/
theorem World.send_serves_up_to_fault_cook :
    World.belfry.queue.Valid ∧ ¬ World.belfry.queue.Awaits ⟨⟨0⟩, "ring", []⟩ ∧
    (World.belfry.send ⟨⟨0⟩, "ring", []⟩).2.queue.Awaits ⟨⟨1⟩, "hear", []⟩ := by
  have hempty : ¬ World.belfry.queue.Awaits ⟨⟨0⟩, "ring", []⟩ := by
    rintro ⟨p, hp, _⟩
    cases hp
  have hcook : Subscription.Notifies ⟨⟨1⟩, "hear", none⟩ World.belfry.table []
      ⟨⟨1⟩, "hear", []⟩ := ⟨rfl, rfl, rfl, .inl ⟨rfl, rfl⟩⟩
  refine ⟨Queue.empty_valid, hempty, ?_⟩
  refine ((World.send_serves_up_to_fault World.belfry Queue.empty_valid _ hempty).1
    [] _ _ _ rfl hcook).resolve_right ?_
  rintro ⟨s', hs', _⟩
  cases hs'

/-- The page, who comes behind the fault, is live and has arguments in order, and yet no message
waits for him after the bell is rung, nor when it is rung once more. -/
theorem World.send_passes_over_page :
    let ring : Message := ⟨⟨0⟩, "ring", []⟩
    let page : Subscription := ⟨⟨3⟩, "hear", none⟩
    ¬ World.belfry.queue.Awaits ring ∧
    page ∈ ring.audience World.belfry.table World.belfry.subscriptions ∧
    page.Notifies World.belfry.table ring.args ⟨⟨3⟩, "hear", []⟩ ∧
    (World.belfry.send ring).1 = .error (.unresolvedVariable "nowhere" "hear" "Ghost") ∧
    ¬ (World.belfry.send ring).2.queue.Awaits ⟨⟨3⟩, "hear", []⟩ ∧
    (World.belfry.send ring).2.send ring = (.ok (), (World.belfry.send ring).2) := by
  intro ring page
  have hsent : (World.belfry.send ring).2.queue.pending = [ring, ⟨⟨1⟩, "hear", []⟩] := rfl
  refine ⟨?_, ?_, ⟨rfl, rfl, rfl, .inl ⟨rfl, rfl⟩⟩, rfl, ?_, rfl⟩
  · rintro ⟨p, hp, _⟩
    cases hp
  · exact .tail _ (.tail _ (.head _))
  · rintro ⟨p, hp, hsame⟩
    rw [hsent, List.mem_cons, List.mem_singleton] at hp
    rcases hp with rfl | rfl <;> cases hsame

end EntityScript
