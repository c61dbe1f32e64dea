import EntityScript.Proofs.Sweep.Exact
import EntityScript.Proofs.Table.History

/-! # Registered subscriptions

What subscribing, unsubscribing and sweeping do to the map of subscriptions
(`Subscriptions.Edited`), and what it keeps through all of them (`Subscriptions.Valid`): no key
has an empty list, no list has a subscriber twice with one handler, and no entity is told of
its own events. The last is asked only when a subscription is registered, and later on names
may stand for other entities; but a name never comes to stand for an identity that was used up
before (`Table.Precedes`), and subscribers have such identities.

A subscription that stays in its list keeps its arguments (`Edited.kept`), and one that comes
in was not there before (`Edited.came`). -/

namespace EntityScript

/-- Who is told, and by which handler. -/
def Subscription.pair (s : Subscription) : EntityId × String := (s.subscriber, s.handler)

theorem Subscription.isFor_iff {s : Subscription} {subscriber : EntityId} {handler : String} :
    s.isFor subscriber handler = true ↔ s.pair = (subscriber, handler) := by
  simp [isFor, pair]

namespace Subscriptions

/-! ## Registering and withdrawing -/

/-- Whether the subscriber is told of the event by the handler. -/
def has (subs : Subscriptions) (target event : String) (subscriber : EntityId)
    (handler : String) : Bool :=
  (subs.subscribers target event).any fun s => s.isFor subscriber handler

theorem has_iff {subs : Subscriptions} {target event : String} {subscriber : EntityId}
    {handler : String} : subs.has target event subscriber handler = true ↔
      ∃ s ∈ subs.subscribers target event, s.pair = (subscriber, handler) := by
  simp [has, Subscription.isFor_iff]

/-- Put a subscription behind the others, unless its subscriber has one with its handler. -/
def register (subs : Subscriptions) (target event : String) (s : Subscription) : Subscriptions :=
  if subs.has target event s.subscriber s.handler then subs
  else subs.insert (target, event) (subs.subscribers target event ++ [s])

/-- Take out the subscription of a subscriber with a handler, and a list that gets empty. -/
def withdraw (subs : Subscriptions) (target event : String) (subscriber : EntityId)
    (handler : String) : Subscriptions :=
  match subs.get? (target, event) with
  | none => subs
  | some list =>
    let rest := list.filter fun s => !s.isFor subscriber handler
    if rest.isEmpty then subs.erase (target, event) else subs.insert (target, event) rest

section Operations

variable {subs subs' : Subscriptions} {t : Table} {subscriber : EntityId}
  {target event handler : String} {args : Option (List Expr)}

theorem subscribe_eq_ok_iff : subs.subscribe t subscriber target event handler args = .ok subs' ↔
    (∃ id, t.idOf? target = some id ∧ id ≠ subscriber) ∧
      subs' = subs.register target event ⟨subscriber, handler, args⟩ := by
  unfold subscribe
  cases hid : t.idOf? target with
  | none => simp
  | some id =>
    have hhas : ((subs.subscribers target event).any fun s => s.isFor subscriber handler) =
        subs.has target event subscriber handler := rfl
    by_cases hself : id = subscriber
    · simp [hself]
    · by_cases hthere : subs.has target event subscriber handler = true
      · simp [hself, hhas, register, hthere, @eq_comm _ subs']
      · simp [hself, hhas, register, hthere, @eq_comm _ subs']

theorem unsubscribe_eq_ok_iff : subs.unsubscribe t subscriber target event handler = .ok subs' ↔
    (t.idOf? target).isSome ∧ subs' = subs.withdraw target event subscriber handler := by
  unfold unsubscribe withdraw
  cases hid : t.idOf? target with
  | none => simp
  | some id =>
    cases hlist : subs.get? (target, event) with
    | none => simp [eq_comm]
    | some list =>
      by_cases hrest : (list.filter fun s => !s.isFor subscriber handler).isEmpty = true
      · simp [hrest, eq_comm]
      · simp [hrest, eq_comm]

end Operations

variable {subs subs' : Subscriptions} {t : Table} {target event : String} {s x : Subscription}

theorem register_new (h : subs.has target event s.subscriber s.handler = false) :
    subs.register target event s =
      subs.insert (target, event) (subs.subscribers target event ++ [s]) := by
  simp [register, h]

theorem subscribers_register_new
    (h : subs.has target event s.subscriber s.handler = false) (target' event' : String) :
    (subs.register target event s).subscribers target' event' =
      if (target, event) = (target', event') then subs.subscribers target event ++ [s]
      else subs.subscribers target' event' := by
  rw [register_new h]
  by_cases hkey : (target, event) = (target', event')
  · simp [subscribers, hkey]
  · simp [subscribers, hkey, OrderedMap.get?_insert]

theorem mem_subscribers_register {target' event' : String} :
    x ∈ (subs.register target event s).subscribers target' event' ↔
      x ∈ subs.subscribers target' event' ∨ (target' = target ∧ event' = event ∧ x = s ∧
        subs.has target event s.subscriber s.handler = false) := by
  by_cases hthere : subs.has target event s.subscriber s.handler = true
  · simp [register, hthere]
  · rw [Bool.not_eq_true] at hthere
    rw [subscribers_register_new hthere]
    by_cases hkey : (target, event) = (target', event')
    · cases hkey
      simp [hthere]
    · rw [if_neg hkey]
      refine ⟨.inl, ?_⟩
      rintro (hold | ⟨rfl, rfl, _⟩)
      · exact hold
      · exact absurd rfl hkey

theorem subscribers_withdraw (subscriber : EntityId) (handler target' event' : String) :
    (subs.withdraw target event subscriber handler).subscribers target' event' =
      if (target, event) = (target', event') then
        (subs.subscribers target event).filter fun s => !s.isFor subscriber handler
      else subs.subscribers target' event' := by
  unfold withdraw subscribers
  by_cases hkey : (target, event) = (target', event')
  · cases hkey
    cases hlist : subs.get? (target, event) with
    | none => simp [hlist]
    | some list =>
      by_cases hrest : (list.filter fun s => !s.isFor subscriber handler).isEmpty = true
      · simp [OrderedMap.get?_erase, List.isEmpty_iff.mp hrest]
      · simp [hrest]
  · cases hlist : subs.get? (target, event) with
    | none => simp [hkey]
    | some list =>
      by_cases hrest : (list.filter fun s => !s.isFor subscriber handler).isEmpty = true
      · simp [hrest, OrderedMap.get?_erase, hkey]
      · simp [hrest, OrderedMap.get?_insert, hkey]

theorem mem_subscribers_withdraw {subscriber : EntityId} {handler target' event' : String} :
    x ∈ (subs.withdraw target event subscriber handler).subscribers target' event' ↔
      x ∈ subs.subscribers target' event' ∧
        (target' = target → event' = event → x.pair ≠ (subscriber, handler)) := by
  rw [subscribers_withdraw]
  by_cases hkey : (target, event) = (target', event')
  · cases hkey
    simp [List.mem_filter, ← Subscription.isFor_iff]
  · rw [if_neg hkey]
    refine ⟨fun hx => ⟨hx, ?_⟩, And.left⟩
    rintro rfl rfl
    exact absurd rfl hkey

/-! ## Edits -/

/-- What can happen to the subscriptions while the table is `t`. -/
inductive Edited (t : Table) (subs : Subscriptions) : Subscriptions → Prop
  | same : Edited t subs subs
  | register {target : String} {id : EntityId} {s : Subscription} (event : String) :
    t.idOf? target = some id → id ≠ s.subscriber → s.subscriber.raw < t.nextId →
    Edited t subs (subs.register target event s)
  | withdraw (target event : String) (subscriber : EntityId) (handler : String) :
    Edited t subs (subs.withdraw target event subscriber handler)
  | retain (keep : EntityId → Bool) : Edited t subs (subs.retain keep)

/-- As long as a subscriber has a subscription with a handler, it is the same one. -/
theorem Edited.kept (h : Edited t subs subs') {target event : String} {s : Subscription}
    (hs : s ∈ subs.subscribers target event)
    (hthere : subs'.has target event s.subscriber s.handler = true) :
    s ∈ subs'.subscribers target event := by
  obtain ⟨x, hx, hpair⟩ := has_iff.mp hthere
  cases h with
  | same => exact hs
  | register event' hid hne hused => exact mem_subscribers_register.mpr (.inl hs)
  | withdraw target' event' subscriber handler =>
    rw [mem_subscribers_withdraw] at hx ⊢
    refine ⟨hs, fun htarget hevent hgone => hx.2 htarget hevent ?_⟩
    exact hpair.trans hgone
  | retain keep =>
    rw [subscribers_retain, List.mem_filter] at hx ⊢
    have hsubscriber : x.subscriber = s.subscriber := congrArg Prod.fst hpair
    exact ⟨hs, by rw [← hsubscriber]; exact hx.2⟩

/-- What comes into a list is being registered, and its subscriber had none with its handler. -/
theorem Edited.came (h : Edited t subs subs') {target event : String} {s : Subscription}
    (hs : s ∈ subs'.subscribers target event) (hnew : s ∉ subs.subscribers target event) :
    subs.has target event s.subscriber s.handler = false ∧
      subs.subscribe t s.subscriber target event s.handler s.args = .ok subs' := by
  cases h with
  | same => exact absurd hs hnew
  | register event' hid hne hused =>
    rcases mem_subscribers_register.mp hs with hold | ⟨rfl, rfl, rfl, hfree⟩
    · exact absurd hold hnew
    · exact ⟨hfree, subscribe_eq_ok_iff.mpr ⟨⟨_, hid, hne⟩, rfl⟩⟩
  | withdraw target' event' subscriber handler =>
    exact absurd (mem_subscribers_withdraw.mp hs).1 hnew
  | retain keep =>
    rw [subscribers_retain] at hs
    exact absurd (List.mem_of_mem_filter hs) hnew

/-! ## The invariant -/

/-- The subscriptions are in order, the table being `t`. -/
structure Valid (subs : Subscriptions) (t : Table) : Prop where
  nonempty : ∀ key, subs.get? key ≠ some []
  distinct : ∀ target event, ((subs.subscribers target event).map Subscription.pair).Nodup
  used : ∀ target event, ∀ s ∈ subs.subscribers target event, s.subscriber.raw < t.nextId
  others : ∀ target event, ∀ s ∈ subs.subscribers target event,
    t.idOf? target ≠ some s.subscriber

namespace Valid

theorem empty (t : Table) : Valid .empty t where
  nonempty := by simp
  distinct := by simp [subscribers]
  used := by simp [subscribers]
  others := by simp [subscribers]

/-- A name that comes to stand for another entity later stands for one that was not there when
the subscription was registered. -/
theorem later {t' : Table} (h : subs.Valid t) (ht : t.Precedes t') : subs.Valid t' where
  nonempty := h.nonempty
  distinct := h.distinct
  used := fun target event s hs => Nat.lt_of_lt_of_le (h.used target event s hs) ht.nextId
  others := by
    intro target event s hs hid
    exact h.others target event s hs (ht.indexed target _ (h.used target event s hs) hid)

theorem register (h : subs.Valid t) {id : EntityId} (hid : t.idOf? target = some id)
    (hne : id ≠ s.subscriber) (hused : s.subscriber.raw < t.nextId) (event : String) :
    (subs.register target event s).Valid t where
  nonempty := by
    intro key
    unfold Subscriptions.register
    by_cases hthere : subs.has target event s.subscriber s.handler = true
    · simpa [hthere] using h.nonempty key
    · by_cases hkey : (target, event) = key
      · simp [hthere, hkey]
      · simpa [hthere, OrderedMap.get?_insert, hkey] using h.nonempty key
  distinct := by
    intro target' event'
    by_cases hthere : subs.has target event s.subscriber s.handler = true
    · simpa [Subscriptions.register, hthere] using h.distinct target' event'
    · rw [Bool.not_eq_true] at hthere
      rw [subscribers_register_new hthere]
      by_cases hkey : (target, event) = (target', event')
      · rw [if_pos hkey, List.map_append, List.map_singleton, List.nodup_append]
        refine ⟨h.distinct target event, by simp, ?_⟩
        intro a ha b hb hab
        obtain ⟨x, hx, rfl⟩ := List.mem_map.mp ha
        have hfound : subs.has target event s.subscriber s.handler = true :=
          has_iff.mpr ⟨x, hx, hab.trans (List.mem_singleton.mp hb)⟩
        rw [hthere] at hfound
        cases hfound
      · rw [if_neg hkey]
        exact h.distinct target' event'
  used := by
    intro target' event' x hx
    rcases mem_subscribers_register.mp hx with hold | ⟨_, _, rfl, _⟩
    · exact h.used target' event' x hold
    · exact hused
  others := by
    intro target' event' x hx hself
    rcases mem_subscribers_register.mp hx with hold | ⟨rfl, _, rfl, _⟩
    · exact h.others target' event' x hold hself
    · rw [hid] at hself
      exact hne (Option.some.inj hself)

/-- Taking out subscriptions does no harm if lists that get empty go as well. -/
theorem of_sublist (h : subs.Valid t) (hnonempty : ∀ key, subs'.get? key ≠ some [])
    (hsub : ∀ target event,
      (subs'.subscribers target event).Sublist (subs.subscribers target event)) :
    subs'.Valid t where
  nonempty := hnonempty
  distinct := fun target event => (h.distinct target event).sublist ((hsub target event).map _)
  used := fun target event s hs => h.used target event s ((hsub target event).mem hs)
  others := fun target event s hs => h.others target event s ((hsub target event).mem hs)

theorem withdraw (h : subs.Valid t) (target event : String) (subscriber : EntityId)
    (handler : String) : (subs.withdraw target event subscriber handler).Valid t := by
  refine h.of_sublist ?_ ?_
  · intro key
    unfold Subscriptions.withdraw
    cases hlist : subs.get? (target, event) with
    | none => exact h.nonempty key
    | some list =>
      by_cases hkey : (target, event) = key
      · by_cases hrest : (list.filter fun s => !s.isFor subscriber handler).isEmpty = true
        · simp [hrest, OrderedMap.get?_erase, hkey]
        · simp only [hrest, Bool.false_eq_true, if_false, OrderedMap.get?_insert, hkey, if_true]
          exact fun hnil => hrest (List.isEmpty_iff.mpr (Option.some.inj hnil))
      · have hold := h.nonempty key
        by_cases hrest : (list.filter fun s => !s.isFor subscriber handler).isEmpty = true
        · simpa [hrest, OrderedMap.get?_erase, hkey] using hold
        · simpa [hrest, OrderedMap.get?_insert, hkey] using hold
  · intro target' event'
    rw [subscribers_withdraw]
    by_cases hkey : (target, event) = (target', event')
    · cases hkey
      simp
    · simp [hkey]

theorem retain (h : subs.Valid t) (keep : EntityId → Bool) : (subs.retain keep).Valid t := by
  refine h.of_sublist ?_ ?_
  · intro key hnil
    exact nil_not_mem_values_retain subs keep (OrderedMap.mem_values_of_get? hnil)
  · intro target event
    rw [subscribers_retain]
    exact List.filter_sublist

theorem edited (h : subs.Valid t) (hedit : Edited t subs subs') : subs'.Valid t := by
  cases hedit with
  | same => exact h
  | register event hid hne hused => exact h.register hid hne hused event
  | withdraw target event subscriber handler => exact h.withdraw target event subscriber handler
  | retain keep => exact h.retain keep

/-! ## Subscribing again, and taking back -/

/-- Subscribing again is no self-subscription, and changes nothing. -/
theorem subscribe_again (h : subs.Valid t) (hs : s ∈ subs.subscribers target event)
    (args : Option (List Expr)) :
    subs.subscribe t s.subscriber target event s.handler args =
      if (t.idOf? target).isSome then .ok subs else .error (.unknownSubscriptionTarget target) := by
  cases hid : t.idOf? target with
  | none => simp [subscribe, hid]
  | some id =>
    have hne : id ≠ s.subscriber := by
      rintro rfl
      exact h.others target event s hs hid
    have hthere : subs.has target event s.subscriber s.handler = true := has_iff.mpr ⟨s, hs, rfl⟩
    rw [Option.isSome_some, if_pos rfl, subscribe_eq_ok_iff]
    exact ⟨⟨id, hid, hne⟩, by simp [Subscriptions.register, hthere]⟩

/-- Withdrawing what was registered last brings back the map with its order. -/
theorem withdraw_register (h : subs.Valid t)
    (hnew : subs.has target event s.subscriber s.handler = false) :
    (subs.register target event s).withdraw target event s.subscriber s.handler = subs := by
  have hrest : (subs.subscribers target event ++ [s]).filter
      (fun x => !x.isFor s.subscriber s.handler) = subs.subscribers target event := by
    have hothers : ∀ x ∈ subs.subscribers target event,
        (!x.isFor s.subscriber s.handler) = true := by
      intro x hx
      simpa using List.any_eq_false.mp hnew x hx
    have hself : s.isFor s.subscriber s.handler = true := Subscription.isFor_iff.mpr rfl
    simp [List.filter_append, List.filter_eq_self.mpr hothers, hself]
  simp only [register_new hnew, Subscriptions.withdraw, OrderedMap.get?_insert_self, hrest]
  cases hlist : subs.get? (target, event) with
  | none =>
    -- the key came with the subscription, and goes with it
    simp [subscribers, hlist, OrderedMap.erase_insert_new hlist]
  | some list =>
    have hfull : list ≠ [] := by
      rintro rfl
      exact h.nonempty _ hlist
    have hsubscribers : subs.subscribers target event = list := by simp [subscribers, hlist]
    simp [hsubscribers, hfull, OrderedMap.insert_insert, OrderedMap.insert_of_get? hlist]

end Valid

end Subscriptions

end EntityScript
