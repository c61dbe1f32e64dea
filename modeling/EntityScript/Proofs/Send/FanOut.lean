import EntityScript.Proofs.Send.Recursion

/-! # What sending adds to the queue

A message that is not held is put behind the queue, followed by messages each of which is
brought by one before it (`send_adds`). Whether sending succeeds or not, the queue stays
valid (`Valid.send`). If it succeeds, all that the added messages bring is waiting
(`send_satisfies`), so the added messages are those that can be reached from the first
one through messages that were not waiting yet. -/

namespace EntityScript

namespace Queue

variable {t : Table} {subs : Subscriptions}

/-! ## Messages brought by earlier ones -/

/-- Every message of a list is an origin or is brought by one that stands before it. -/
def Grounded (t : Table) (subs : Subscriptions) (origin : Message → Prop) (ms : List Message) :
    Prop :=
  ∀ before x after, ms = before ++ x :: after → origin x ∨ ∃ a ∈ before, a.Tells t subs x

section Grounded

variable {origin origin' : Message → Prop} {ms xs ys : List Message} {m : Message}

theorem Grounded.nil : Grounded t subs origin [] := by
  intro before x after h
  cases before <;> cases h

theorem Grounded.mono (h : Grounded t subs origin ms) (ho : ∀ x, origin x → origin' x) :
    Grounded t subs origin' ms :=
  fun before x after hms => (h before x after hms).imp_left (ho x)

theorem Grounded.append (hx : Grounded t subs origin xs) (hy : Grounded t subs origin ys) :
    Grounded t subs origin (xs ++ ys) := by
  intro before x after h
  rcases List.append_eq_append_iff.mp h with ⟨rest, rfl, hrest⟩ | ⟨rest, rfl, hrest⟩
  · refine (hy rest x after hrest).imp_right ?_
    rintro ⟨a, ha, htells⟩
    exact ⟨a, List.mem_append_right _ ha, htells⟩
  · cases rest with
    | nil => exact (hy [] x after hrest.symm).imp_right fun ⟨_, ha, _⟩ => nomatch ha
    | cons y rest =>
      cases hrest
      exact hx before x rest rfl

theorem Grounded.cons (h : Grounded t subs (m.Tells t subs) ms) :
    Grounded t subs (· = m) (m :: ms) := by
  intro before x after hms
  cases before with
  | nil => cases hms; exact .inl rfl
  | cons b before =>
    cases hms
    rcases h before x after rfl with hm | ⟨a, ha, hx⟩
    · exact .inr ⟨m, List.mem_cons_self, hm⟩
    · exact .inr ⟨a, List.mem_cons_of_mem _ ha, hx⟩

/-- What holds of the origins and passes from a message to those it brings holds of all
messages of a grounded list. -/
theorem Grounded.forall_mem {Q : Message → Prop} (h : Grounded t subs origin ms)
    (ho : ∀ x ∈ ms, origin x → Q x)
    (hstep : ∀ a, Q a → ∀ x ∈ ms, a.Tells t subs x → Q x) : ∀ x ∈ ms, Q x := by
  -- on how many messages stand before `x`
  have deep : ∀ n before x after, before.length < n → ms = before ++ x :: after → Q x := by
    intro n
    induction n with
    | zero => intro before x after hn; omega
    | succ n ih =>
      intro before x after hn hms
      have hx : x ∈ ms := hms ▸ List.mem_append_right _ List.mem_cons_self
      rcases h before x after hms with hox | ⟨a, ha, htells⟩
      · exact ho x hx hox
      · obtain ⟨b₁, b₂, rfl⟩ := List.append_of_mem ha
        have hlen : b₁.length < n := by
          rw [List.length_append, List.length_cons] at hn
          omega
        have hQa := ih b₁ a (b₂ ++ x :: after) hlen (by rw [hms, List.append_assoc]; rfl)
        exact hstep a hQa x hx htells
  intro x hx
  obtain ⟨before, after, rfl⟩ := List.append_of_mem hx
  exact deep _ before x after (Nat.lt_succ_self _) rfl

end Grounded

/-! ## The queue grows at its end -/

/-- What sending one message adds, in the form that telling many of them needs. -/
theorem grounded_of_adds {q : Queue} {m : Message}
    (h : q.holds m = false → ∃ rest, (q.send t subs m).2.pending = q.pending ++ m :: rest ∧
      Grounded t subs (m.Tells t subs) rest) :
    ∃ new, (q.send t subs m).2.pending = q.pending ++ new ∧ Grounded t subs (· = m) new := by
  cases hq : q.holds m with
  | true =>
    rw [send_held hq]
    exact ⟨[], (List.append_nil _).symm, .nil⟩
  | false =>
    obtain ⟨rest, hrest, hg⟩ := h hq
    exact ⟨m :: rest, hrest, hg.cons⟩

/-- A message that is not held comes behind the queue, and behind it only messages that
are brought by it or by one between. That holds whether or not sending ends in a fault. -/
theorem send_adds (t : Table) (subs : Subscriptions) (q : Queue) (m : Message) :
    q.holds m = false →
    ∃ rest, (q.send t subs m).2.pending = q.pending ++ m :: rest ∧
      Grounded t subs (m.Tells t subs) rest := by
  -- telling `ss` adds messages that notify a subscriber among `ss`, or are brought by such
  refine send_induction t subs
    (fun q m => q.holds m = false → ∃ rest,
      (q.send t subs m).2.pending = q.pending ++ m :: rest ∧
        Grounded t subs (m.Tells t subs) rest)
    (fun args ss q => ∃ new, (spread t subs args ss q).2.pending = q.pending ++ new ∧
      Grounded t subs (fun x => ∃ s ∈ ss, s.Notifies t args x) new) ?_ ?_ ?_ ?_ ?_ ?_ ?_ q m
  · intro q m hq hq'
    rw [hq] at hq'; cases hq'
  · intro q m hq hR _
    obtain ⟨new, hnew, hg⟩ := hR
    rw [send_new hq, hnew, pending_push, List.append_assoc]
    exact ⟨new, rfl, hg⟩
  · intro args q
    exact ⟨[], (List.append_nil _).symm, .nil⟩
  · intro args s ss q fault hm
    rw [spread_error hm]
    exact ⟨[], (List.append_nil _).symm, .nil⟩
  · intro args s ss q hm hR
    obtain ⟨new, hnew, hg⟩ := hR
    rw [spread_silent hm]
    exact ⟨new, hnew, hg.mono fun x ⟨s', hs', hx⟩ => ⟨s', List.mem_cons_of_mem _ hs', hx⟩⟩
  · intro args s ss q b fault hm hP hb
    obtain ⟨new, hnew, hg⟩ := grounded_of_adds hP
    rw [spread_stopped hm hb]
    refine ⟨new, hnew, hg.mono ?_⟩
    rintro x rfl
    exact ⟨s, List.mem_cons_self, Subscription.message_eq_some_iff.mp hm⟩
  · intro args s ss q b hm hP hb hR
    obtain ⟨new₁, hnew₁, hg₁⟩ := grounded_of_adds hP
    obtain ⟨new₂, hnew₂, hg₂⟩ := hR
    rw [spread_told hm hb, hnew₂, hnew₁, List.append_assoc]
    refine ⟨new₁ ++ new₂, rfl, .append (hg₁.mono ?_) (hg₂.mono ?_)⟩
    · rintro x rfl
      exact ⟨s, List.mem_cons_self, Subscription.message_eq_some_iff.mp hm⟩
    · exact fun x ⟨s', hs', hx⟩ => ⟨s', List.mem_cons_of_mem _ hs', hx⟩

theorem pending_prefix_send (t : Table) (subs : Subscriptions) (q : Queue) (m : Message) :
    q.pending <+: (q.send t subs m).2.pending := by
  obtain ⟨new, hnew, _⟩ := grounded_of_adds (send_adds t subs q m)
  exact ⟨new, hnew.symm⟩

theorem pending_prefix_spread (t : Table) (subs : Subscriptions) (args : List Value)
    (ss : List Subscription) (q : Queue) :
    q.pending <+: (spread t subs args ss q).2.pending := by
  induction ss generalizing q with
  | nil => exact List.prefix_rfl
  | cons s ss ih =>
    match hm : s.message t args with
    | .error fault => exact ⟨[], by rw [spread_error hm, List.append_nil]⟩
    | .ok none => rw [spread_silent hm]; exact ih q
    | .ok (some m) =>
      match hr : (q.send t subs m).1 with
      | .error fault => rw [spread_stopped hm hr]; exact pending_prefix_send t subs q m
      | .ok () => rw [spread_told hm hr]; exact (pending_prefix_send t subs q m).trans (ih _)

theorem Awaits.mono {q q' : Queue} {m : Message} (h : q.Awaits m)
    (hq : q.pending <+: q'.pending) : q'.Awaits m := by
  obtain ⟨p, hp, hs⟩ := h
  exact ⟨p, hq.subset hp, hs⟩

/-- A message that was sent is waiting, also after a fault. -/
theorem awaits_send (t : Table) (subs : Subscriptions) (q : Queue) (m : Message) :
    (q.send t subs m).2.Awaits m := by
  cases hq : q.holds m with
  | true => rw [send_held hq]; exact awaits_of_holds hq
  | false =>
    obtain ⟨rest, hrest, _⟩ := send_adds t subs q m hq
    exact ⟨m, by rw [hrest]; simp, m.same_refl⟩

/-! ## Where the added messages come from -/

/-- The message `x` goes to the handler of a subscription, with the arguments of `m` or
with a subscription's own. -/
def Derived (t : Table) (subs : Subscriptions) (m x : Message) : Prop :=
  (∃ s, subs.Registered s ∧ x.target = s.subscriber ∧ x.event = s.handler) ∧
  (x.args = m.args ∨ ∃ s, subs.Registered s ∧ s.OwnArgs t x.args)

theorem derived_of_tells {m a x : Message} (hx : a.Tells t subs x)
    (ha : a.args = m.args ∨ ∃ s, subs.Registered s ∧ s.OwnArgs t a.args) :
    Derived t subs m x := by
  obtain ⟨s, hs, _, ht, he, hc⟩ := hx
  have hreg := Message.registered_of_audience hs
  refine ⟨⟨s, hreg, ht, he⟩, ?_⟩
  rcases hc with ⟨_, hargs⟩ | hown
  · rw [hargs]; exact ha
  · exact .inr ⟨s, hreg, hown⟩

theorem derived_of_grounded {m : Message} {rest : List Message}
    (h : Grounded t subs (m.Tells t subs) rest) : ∀ x ∈ rest, Derived t subs m x :=
  h.forall_mem (fun _ _ hx => derived_of_tells hx (.inl rfl))
    fun _ ha _ _ hx => derived_of_tells hx ha.2

/-! ## Validity -/

/-- Sending keeps a queue valid, whether or not it ends in a fault. -/
theorem Valid.send {q : Queue} (h : q.Valid) (m : Message) : (q.send t subs m).2.Valid := by
  refine send_induction t subs
    (fun q m => q.Valid → (q.send t subs m).2.Valid)
    (fun args ss q => q.Valid → (spread t subs args ss q).2.Valid) ?_ ?_ ?_ ?_ ?_ ?_ ?_ q m h
  · intro q m hq h
    rw [send_held hq]; exact h
  · intro q m hq hR h
    rw [send_new hq]; exact hR (h.push hq)
  · intro args q h
    exact h
  · intro args s ss q fault hm h
    rw [spread_error hm]; exact h
  · intro args s ss q hm hR h
    rw [spread_silent hm]; exact hR h
  · intro args s ss q b fault hm hP hb h
    rw [spread_stopped hm hb]; exact hP h
  · intro args s ss q b hm hP hb hR h
    rw [spread_told hm hb]; exact hR (hP h)

/-! ## Nobody is left out -/

/-- If the subscriber is live, the message that notifies it is waiting. -/
def Serves (q : Queue) (t : Table) (args : List Value) (s : Subscription) : Prop :=
  t.isLive s.subscriber = true → ∃ b, s.Notifies t args b ∧ q.Awaits b

/-- All live subscribers of a message are served. -/
def Satisfies (q : Queue) (t : Table) (subs : Subscriptions) (m : Message) : Prop :=
  ∀ s ∈ m.audience t subs, q.Serves t m.args s

theorem Serves.mono {q q' : Queue} {args : List Value} {s : Subscription} (h : q.Serves t args s)
    (hq : q.pending <+: q'.pending) : q'.Serves t args s := by
  intro hlive
  obtain ⟨b, hb, hw⟩ := h hlive
  exact ⟨b, hb, hw.mono hq⟩

/-- After sending without a fault, every message that was added has all its live
subscribers served. -/
theorem send_satisfies (t : Table) (subs : Subscriptions) (q : Queue) (m : Message) :
    (q.send t subs m).1 = .ok () →
    ∀ x ∈ (q.send t subs m).2.pending,
      x ∈ q.pending ∨ (q.send t subs m).2.Satisfies t subs x := by
  refine send_induction t subs
    (fun q m => (q.send t subs m).1 = .ok () → ∀ x ∈ (q.send t subs m).2.pending,
      x ∈ q.pending ∨ (q.send t subs m).2.Satisfies t subs x)
    (fun args ss q => (spread t subs args ss q).1 = .ok () →
      (∀ s ∈ ss, (spread t subs args ss q).2.Serves t args s) ∧
      ∀ x ∈ (spread t subs args ss q).2.pending,
        x ∈ q.pending ∨ (spread t subs args ss q).2.Satisfies t subs x)
    ?_ ?_ ?_ ?_ ?_ ?_ ?_ q m
  · intro q m hq _ x hx
    rw [send_held hq] at hx
    exact .inl hx
  · intro q m hq hR hok x hx
    rw [send_new hq] at hok hx ⊢
    obtain ⟨hserved, hrest⟩ := hR hok
    rcases hrest x hx with hx | hx
    · rcases List.mem_append.mp hx with hx | hx
      · exact .inl hx
      · rw [List.mem_singleton.mp hx]
        exact .inr hserved
    · exact .inr hx
  · intro args q _
    exact ⟨fun s hs => (nomatch hs), fun x hx => .inl hx⟩
  · intro args s ss q fault hm hok
    rw [spread_error hm] at hok; cases hok
  · intro args s ss q hm hR hok
    rw [spread_silent hm] at hok ⊢
    obtain ⟨hserved, hrest⟩ := hR hok
    refine ⟨?_, hrest⟩
    intro s' hs'
    rcases List.mem_cons.mp hs' with rfl | hs'
    · intro hlive
      rw [Subscription.message_eq_none_iff.mp hm] at hlive; cases hlive
    · exact hserved s' hs'
  · intro args s ss q b fault hm _ hb hok
    rw [spread_stopped hm hb] at hok; cases hok
  · intro args s ss q b hm hP hb hR hok
    rw [spread_told hm hb] at hok ⊢
    obtain ⟨hserved, hrest⟩ := hR hok
    have hmono := pending_prefix_spread t subs args ss (q.send t subs b).2
    refine ⟨?_, ?_⟩
    · intro s' hs'
      rcases List.mem_cons.mp hs' with rfl | hs'
      · have hnotifies := Subscription.message_eq_some_iff.mp hm
        exact fun _ => ⟨b, hnotifies, (awaits_send t subs q b).mono hmono⟩
      · exact hserved s' hs'
    · intro x hx
      rcases hrest x hx with hx | hx
      · rcases hP hb x hx with hx | hx
        · exact .inl hx
        · exact .inr fun s' hs' => (hx s' hs').mono hmono
      · exact .inr hx

end Queue

namespace World

/-- A message that is held is not sent again. -/
theorem send_of_holds {w : World} {m : Message} (hm : w.queue.holds m = true) :
    w.send m = (.ok (), w) := by
  rw [send, Queue.send_held hm]

theorem send_of_awaits {w : World} (hw : w.queue.Valid) {m : Message} (hm : w.queue.Awaits m) :
    w.send m = (.ok (), w) :=
  send_of_holds ((hw.holds_iff m).mpr hm)

/-- **Sending ends.** For every table, all subscriptions, every queue and every message,
chains of at most `chainBound` subscriptions are enough, and no longer bound gives another
answer. A message that is held changes nothing. Any other is added itself, and apart from it all
that is added goes to the handler of some subscription, with the arguments of the message or with
a subscription's own. -/
theorem send_terminates (w : World) (m : Message) :
    (∀ depth, Queue.chainBound w.subscriptions ≤ depth →
      Queue.deliver w.table w.subscriptions depth w.queue m =
        some ((w.send m).1, (w.send m).2.queue)) ∧
    (w.queue.holds m = true ∧ w.send m = (.ok (), w) ∨
      w.queue.holds m = false ∧
      ∃ rest, (w.send m).2.queue.pending = w.queue.pending ++ m :: rest ∧ ∀ x ∈ rest,
        (∃ s, w.subscriptions.Registered s ∧ x.target = s.subscriber ∧ x.event = s.handler) ∧
        (x.args = m.args ∨ ∃ s, w.subscriptions.Registered s ∧ s.OwnArgs w.table x.args)) := by
  refine ⟨fun depth hd => Queue.deliver_mono hd (Queue.deliver_chainBound _ _ _ m), ?_⟩
  cases hq : w.queue.holds m with
  | true => exact .inl ⟨rfl, send_of_holds hq⟩
  | false =>
    obtain ⟨rest, hrest, hg⟩ := Queue.send_adds w.table w.subscriptions w.queue m hq
    exact .inr ⟨rfl, rest, hrest, Queue.derived_of_grounded hg⟩

end World

end EntityScript
