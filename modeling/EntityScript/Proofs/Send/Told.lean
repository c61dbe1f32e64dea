import EntityScript.Proofs.Message.Identity
import EntityScript.Subscription

/-! # Who is told of a message

`Subscription.Notifies` says which message tells a live subscriber of an event, and
`Message.Tells` which messages one message brings with it. Both depend on a message up
to `Message.same` only. -/

namespace EntityScript

theorem Table.isLive_iff {t : Table} {id : EntityId} :
    t.isLive id = true ↔ ∃ e, t.get? id = some e ∧ e.destroyed = false := by
  unfold isLive
  cases t.get? id with
  | none => simp
  | some e => simp

namespace Subscription

/-- The values `vs` of the arguments that a subscription gives of its own, evaluated for
the subscriber. -/
def OwnArgs (s : Subscription) (t : Table) (vs : List Value) : Prop :=
  ∃ e exprs, t.get? s.subscriber = some e ∧ s.args = some exprs ∧
    Expr.evalAll ⟨e, .empty, t, s.handler⟩ exprs = .ok vs

/-- The message `b` tells the live subscriber of an event with arguments `args`: it goes
to the handler, with those arguments or with the subscription's own. -/
structure Notifies (s : Subscription) (t : Table) (args : List Value) (b : Message) : Prop where
  live : t.isLive s.subscriber = true
  target : b.target = s.subscriber
  event : b.event = s.handler
  carried : (s.args = none ∧ b.args = args) ∨ s.OwnArgs t b.args

/-- No message is made exactly for a subscriber that is not live. -/
theorem message_eq_none_iff {s : Subscription} {t : Table} {args : List Value} :
    s.message t args = .ok none ↔ t.isLive s.subscriber = false := by
  unfold message Table.isLive
  cases t.get? s.subscriber with
  | none => simp
  | some e =>
    cases hd : e.destroyed with
    | true => simp [hd]
    | false =>
      cases s.args with
      | none => simp [hd]
      | some exprs =>
        cases hv : Expr.evalAll ⟨e, .empty, t, s.handler⟩ exprs <;>
          simp [hd, hv, bind, Except.bind]

/-- The message that is made is the one that notifies. -/
theorem message_eq_some_iff {s : Subscription} {t : Table} {args : List Value} {b : Message} :
    s.message t args = .ok (some b) ↔ s.Notifies t args b := by
  constructor
  · intro h
    have hlive : t.isLive s.subscriber = true := by
      rw [← Bool.not_eq_false]
      intro hl
      rw [message_eq_none_iff.mpr hl] at h
      cases h
    obtain ⟨e, he, hd⟩ := Table.isLive_iff.mp hlive
    unfold message at h
    simp only [he, hd, Bool.false_eq_true, if_false] at h
    cases ha : s.args with
    | none =>
      simp only [ha] at h
      cases h
      exact ⟨hlive, rfl, rfl, .inl ⟨ha, rfl⟩⟩
    | some exprs =>
      simp only [ha] at h
      cases hv : Expr.evalAll ⟨e, .empty, t, s.handler⟩ exprs with
      | error fault => rw [hv] at h; cases h
      | ok own =>
        rw [hv] at h
        cases h
        exact ⟨hlive, rfl, rfl, .inr ⟨e, exprs, he, ha, hv⟩⟩
  · rintro ⟨hlive, ht, hv, hc⟩
    obtain ⟨e, he, hd⟩ := Table.isLive_iff.mp hlive
    obtain ⟨target, event, bargs⟩ := b
    simp only at ht hv hc
    subst ht hv
    unfold message
    simp only [he, hd, Bool.false_eq_true, if_false]
    rcases hc with ⟨ha, rfl⟩ | ⟨e', exprs, he', ha, hv⟩
    · rw [ha]
    · rw [he] at he'
      cases he'
      simp only [ha, hv]
      rfl

/-- One message tells of an event. -/
theorem Notifies.unique {s : Subscription} {t : Table} {args : List Value} {b c : Message}
    (hb : s.Notifies t args b) (hc : s.Notifies t args c) : b = c := by
  have h := (message_eq_some_iff.mpr hb).symm.trans (message_eq_some_iff.mpr hc)
  cases h
  rfl

end Subscription

/-- A subscription stands in some list. -/
def Subscriptions.Registered (subs : Subscriptions) (s : Subscription) : Prop :=
  ∃ list ∈ subs.values, s ∈ list

namespace Message

/-- The subscriptions to the event of a message under the name of its target. -/
def audience (m : Message) (t : Table) (subs : Subscriptions) : List Subscription :=
  match t.get? m.target with
  | none => []
  | some e => subs.subscribers e.name m.event

/-- The message `a` brings `b` with it: `b` notifies a live subscriber of `a`. -/
def Tells (t : Table) (subs : Subscriptions) (a b : Message) : Prop :=
  ∃ s ∈ a.audience t subs, s.Notifies t a.args b

theorem registered_of_audience {m : Message} {t : Table} {subs : Subscriptions} {s : Subscription}
    (h : s ∈ m.audience t subs) : subs.Registered s := by
  unfold audience at h
  cases he : t.get? m.target with
  | none => rw [he] at h; cases h
  | some e =>
    rw [he] at h
    simp only [Subscriptions.subscribers] at h
    cases hl : subs.get? (e.name, m.event) with
    | none => rw [hl] at h; cases h
    | some list =>
      rw [hl] at h
      exact ⟨list, OrderedMap.mem_values_of_get? hl, h⟩

/-! ## The same message tells the same -/

theorem audience_of_same {a b : Message} (h : a.same b = true) (t : Table) (subs : Subscriptions) :
    a.audience t subs = b.audience t subs := by
  obtain ⟨ht, he, _⟩ := same_iff.mp h
  unfold audience
  rw [ht, he]

theorem tells_of_same {t : Table} {subs : Subscriptions} {a a' b : Message}
    (h : a.same a' = true) (hb : a'.Tells t subs b) :
    ∃ c, a.Tells t subs c ∧ c.same b = true := by
  obtain ⟨s, hs, hlive, ht, he, hc⟩ := hb
  have hs' : s ∈ a.audience t subs := by rw [audience_of_same h]; exact hs
  rcases hc with ⟨hn, hargs⟩ | hown
  · -- arguments that are passed on are the same because those of `a` and `a'` are
    refine ⟨⟨b.target, b.event, a.args⟩, ⟨s, hs', hlive, ht, he, .inl ⟨hn, rfl⟩⟩, ?_⟩
    exact same_iff.mpr ⟨rfl, rfl, hargs ▸ (same_iff.mp h).2.2⟩
  · exact ⟨b, ⟨s, hs', hlive, ht, he, .inr hown⟩, b.same_refl⟩

end Message

end EntityScript
