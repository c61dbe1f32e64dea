import EntityScript.Dispatch.Send
import EntityScript.Proofs.Queue.Tally
import EntityScript.Proofs.Send.Told

/-! # The bound on chains of subscriptions

Sending is defined with a bound on the length of a chain of subscriptions. The bound is
proved to suffice for every table, all subscriptions and every queue
(`deliver_chainBound`), so the computational default in `Queue.send` is unreachable.

The measure is the number of candidates that the queue does not hold: a message that is
sent is a candidate, it is held afterwards, and a queue never holds less than before.
That needs no exact tally, and of `Message.same` only that it is reflexive. -/

namespace EntityScript

namespace Queue

variable {t : Table} {subs : Subscriptions}

theorem deliver_succ (t : Table) (subs : Subscriptions) (depth : Nat) (q : Queue) (m : Message) :
    deliver t subs (depth + 1) q m =
      if q.holds m then some (.ok (), q)
      else tell (deliver t subs depth) t m.args (m.audience t subs) (q.push m) := by
  rw [deliver]
  unfold Message.audience
  cases t.get? m.target <;> rfl

/-- How telling the first of some subscribers, and then the others, comes to an end. -/
theorem tell_cons_cases {f : Queue → Message → Option (Except Fault Unit × Queue)}
    {args : List Value} {s : Subscription} {ss : List Subscription} {q q' : Queue}
    {r : Except Fault Unit} (h : tell f t args (s :: ss) q = some (r, q')) :
    (∃ fault, s.message t args = .error fault ∧ r = .error fault ∧ q' = q) ∨
    (s.message t args = .ok none ∧ tell f t args ss q = some (r, q')) ∨
    (∃ b fault, s.message t args = .ok (some b) ∧ f q b = some (.error fault, q') ∧
      r = .error fault) ∨
    (∃ b q₁, s.message t args = .ok (some b) ∧ f q b = some (.ok (), q₁) ∧
      tell f t args ss q₁ = some (r, q')) := by
  rw [tell] at h
  match hm : s.message t args with
  | .error fault =>
    rw [hm] at h
    cases h
    exact .inl ⟨fault, rfl, rfl, rfl⟩
  | .ok none =>
    rw [hm] at h
    exact .inr (.inl ⟨rfl, h⟩)
  | .ok (some b) =>
    simp only [hm] at h
    match hf : f q b with
    | none => rw [hf] at h; cases h
    | some (.error fault, q₁) =>
      rw [hf] at h
      cases h
      exact .inr (.inr (.inl ⟨b, fault, rfl, hf, rfl⟩))
    | some (.ok (), q₁) =>
      rw [hf] at h
      exact .inr (.inr (.inr ⟨b, q₁, rfl, hf, h⟩))

/-! ## A longer bound gives the same answer -/

theorem tell_mono {f g : Queue → Message → Option (Except Fault Unit × Queue)}
    (hfg : ∀ q m x, f q m = some x → g q m = some x) {args : List Value}
    {ss : List Subscription} {q q' : Queue} {r : Except Fault Unit}
    (h : tell f t args ss q = some (r, q')) : tell g t args ss q = some (r, q') := by
  induction ss generalizing q with
  | nil => exact h
  | cons s ss ih =>
    rw [tell]
    rcases tell_cons_cases h with ⟨fault, hm, rfl, rfl⟩ | ⟨hm, h⟩ | ⟨b, fault, hm, hf, rfl⟩ |
      ⟨b, q₁, hm, hf, h⟩
    · rw [hm]
    · rw [hm]; exact ih h
    · simp only [hm, hfg _ _ _ hf]
    · simp only [hm, hfg _ _ _ hf]; exact ih h

theorem deliver_mono {d d' : Nat} (hd : d ≤ d') {q : Queue} {m : Message}
    {x : Except Fault Unit × Queue} (h : deliver t subs d q m = some x) :
    deliver t subs d' q m = some x := by
  induction d generalizing d' q m x with
  | zero => cases h
  | succ d ih =>
    obtain ⟨d', rfl⟩ : ∃ k, d' = k + 1 := ⟨d' - 1, by omega⟩
    rw [deliver_succ] at h ⊢
    split at h
    · rename_i hq
      rw [if_pos hq]; exact h
    · rename_i hq
      rw [if_neg hq]
      exact tell_mono (fun _ _ _ hx => ih (by omega) hx) h

/-! ## What is held stays held -/

theorem holds_iff_count {q : Queue} {m : Message} :
    q.holds m = true ↔ 0 < q.count m.key ∧ q.Awaits m := by
  rw [holds, Bool.and_eq_true_iff, decide_eq_true_iff, any_same_iff]

theorem count_push (q : Queue) (m : Message) (key : EntityId × String) :
    (q.push m).count key = q.count key + if m.key = key then 1 else 0 := by
  unfold count push
  rw [OrderedMap.get?_insert]
  split
  · rename_i hk
    rw [← hk]; rfl
  · rfl

theorem holds_push {q : Queue} {m x : Message} (h : q.holds x = true) :
    (q.push m).holds x = true := by
  obtain ⟨hc, p, hp, hs⟩ := holds_iff_count.mp h
  refine holds_iff_count.mpr ⟨?_, p, List.mem_append_left _ hp, hs⟩
  rw [count_push]
  omega

/-- A message just added is held, whatever the tally was. -/
theorem holds_push_self (q : Queue) (m : Message) : (q.push m).holds m = true := by
  refine holds_iff_count.mpr ⟨?_, awaits_push_self q m⟩
  rw [count_push, if_pos rfl]
  omega

theorem tell_holds {f : Queue → Message → Option (Except Fault Unit × Queue)} {x : Message}
    (hf : ∀ q m r q', f q m = some (r, q') → q.holds x = true → q'.holds x = true)
    {args : List Value} {ss : List Subscription} {q q' : Queue} {r : Except Fault Unit}
    (h : tell f t args ss q = some (r, q')) (hx : q.holds x = true) : q'.holds x = true := by
  induction ss generalizing q with
  | nil => cases h; exact hx
  | cons s ss ih =>
    rcases tell_cons_cases h with ⟨_, _, _, rfl⟩ | ⟨_, h⟩ | ⟨b, _, _, hb, _⟩ | ⟨b, q₁, _, hb, h⟩
    · exact hx
    · exact ih h hx
    · exact hf _ _ _ _ hb hx
    · exact ih h (hf _ _ _ _ hb hx)

theorem deliver_holds {x : Message} (depth : Nat) :
    ∀ (q : Queue) (m : Message) (r : Except Fault Unit) (q' : Queue),
      deliver t subs depth q m = some (r, q') → q.holds x = true → q'.holds x = true := by
  induction depth with
  | zero => intro q m r q' h; cases h
  | succ depth ih =>
    intro q m r q' h hx
    rw [deliver_succ] at h
    split at h
    · cases h; exact hx
    · exact tell_holds ih h (holds_push hx)

end Queue

/-! ## Candidates -/

namespace Subscription

/-- The values of the arguments that a subscription gives of its own, if it has any. -/
def ownArgs? (s : Subscription) (t : Table) : Option (List Value) :=
  match t.get? s.subscriber, s.args with
  | some e, some exprs => (Expr.evalAll ⟨e, .empty, t, s.handler⟩ exprs).toOption
  | _, _ => none

theorem ownArgs?_of_ownArgs {s : Subscription} {t : Table} {vs : List Value}
    (h : s.OwnArgs t vs) : s.ownArgs? t = some vs := by
  obtain ⟨e, exprs, he, ha, hv⟩ := h
  simp only [ownArgs?, he, ha, hv]
  rfl

end Subscription

namespace Subscriptions

/-- All subscriptions, in order. -/
def all (subs : Subscriptions) : List Subscription := subs.values.flatten

theorem mem_all_of_registered {subs : Subscriptions} {s : Subscription} (h : subs.Registered s) :
    s ∈ subs.all := by
  obtain ⟨list, hl, hs⟩ := h
  exact List.mem_flatten.mpr ⟨list, hl, hs⟩

theorem length_all (subs : Subscriptions) : subs.all.length = subs.size := by
  unfold all size
  induction subs.values with
  | nil => rfl
  | cons list lists ih => rw [List.flatten_cons, List.length_append, ih, List.foldr_cons]

end Subscriptions

namespace Queue

variable {t : Table} {subs : Subscriptions}

/-- The lists of arguments that messages can carry when `m` is sent. -/
def argLists (t : Table) (subs : Subscriptions) (m : Message) : List (List Value) :=
  m.args :: subs.all.filterMap fun s => s.ownArgs? t

/-- The messages that can come up when `m` is sent. -/
def candidates (t : Table) (subs : Subscriptions) (m : Message) : List Message :=
  m :: subs.all.flatMap fun s => (argLists t subs m).map fun args => ⟨s.subscriber, s.handler, args⟩

theorem args_mem_argLists {m x : Message} (h : x ∈ candidates t subs m) :
    x.args ∈ argLists t subs m := by
  rcases List.mem_cons.mp h with rfl | h
  · exact List.mem_cons_self
  · obtain ⟨s, _, hx⟩ := List.mem_flatMap.mp h
    obtain ⟨args, ha, rfl⟩ := List.mem_map.mp hx
    exact ha

theorem mem_candidates_of_tells {m x b : Message} (hx : x ∈ candidates t subs m)
    (hb : x.Tells t subs b) : b ∈ candidates t subs m := by
  obtain ⟨s, hs, _, ht, he, hc⟩ := hb
  have hall := Subscriptions.mem_all_of_registered (Message.registered_of_audience hs)
  have hargs : b.args ∈ argLists t subs m := by
    rcases hc with ⟨_, hargs⟩ | hown
    · rw [hargs]; exact args_mem_argLists hx
    · exact List.mem_cons_of_mem _
        (List.mem_filterMap.mpr ⟨s, hall, Subscription.ownArgs?_of_ownArgs hown⟩)
  refine List.mem_cons_of_mem _ (List.mem_flatMap.mpr ⟨s, hall, ?_⟩)
  refine List.mem_map.mpr ⟨b.args, hargs, ?_⟩
  rw [← ht, ← he]

theorem length_candidates (t : Table) (subs : Subscriptions) (m : Message) :
    (candidates t subs m).length < chainBound subs := by
  have hargs : (argLists t subs m).length ≤ subs.size + 1 := by
    rw [argLists, List.length_cons, ← Subscriptions.length_all subs]
    exact Nat.succ_le_succ (List.length_filterMap_le _ _)
  have hlen : (candidates t subs m).length = subs.size * (argLists t subs m).length + 1 := by
    simp only [candidates, List.length_cons, List.length_flatMap, List.length_map,
      List.map_const', List.sum_replicate_nat, Subscriptions.length_all]
  have hmul := Nat.mul_le_mul_left subs.size hargs
  rw [hlen, chainBound]
  omega

/-! ## The bound suffices -/

/-- How many of some messages the queue does not hold. -/
def unheld (q : Queue) (ms : List Message) : Nat := ms.countP fun m => !q.holds m

theorem unheld_le {q q' : Queue} (h : ∀ x, q.holds x = true → q'.holds x = true)
    (ms : List Message) : q'.unheld ms ≤ q.unheld ms := by
  refine List.countP_mono_left ?_
  intro x _ hx
  simp only [Bool.not_eq_true', Bool.eq_false_iff] at hx ⊢
  exact fun hq => hx (h x hq)

theorem unheld_push_lt {q : Queue} {m : Message} {ms : List Message} (hm : m ∈ ms)
    (hq : q.holds m = false) : (q.push m).unheld ms < q.unheld ms := by
  obtain ⟨before, after, rfl⟩ := List.append_of_mem hm
  have hb : (q.push m).unheld before ≤ q.unheld before := unheld_le (fun _ => holds_push) before
  have ha : (q.push m).unheld after ≤ q.unheld after := unheld_le (fun _ => holds_push) after
  simp only [unheld, List.countP_append, List.countP_cons, hq, holds_push_self] at hb ha ⊢
  simp only [Bool.not_true, Bool.not_false, Bool.false_eq_true, if_true, if_false]
  omega

theorem tell_isSome {f : Queue → Message → Option (Except Fault Unit × Queue)} {n : Nat}
    {ms : List Message} {args : List Value} {ss : List Subscription}
    (hf : ∀ q m, m ∈ ms → q.unheld ms < n → (f q m).isSome = true)
    (hmono : ∀ x q m r q', f q m = some (r, q') → q.holds x = true → q'.holds x = true)
    (hms : ∀ s ∈ ss, ∀ b, s.message t args = .ok (some b) → b ∈ ms)
    {q : Queue} (hq : q.unheld ms < n) : (tell f t args ss q).isSome = true := by
  induction ss generalizing q with
  | nil => rfl
  | cons s ss ih =>
    have hms' : ∀ s ∈ ss, ∀ b, s.message t args = .ok (some b) → b ∈ ms :=
      fun s hs => hms s (List.mem_cons_of_mem _ hs)
    rw [tell]
    match hm : s.message t args with
    | .error fault => rfl
    | .ok none => exact ih hms' hq
    | .ok (some b) =>
      obtain ⟨⟨r, q₁⟩, hb⟩ := Option.isSome_iff_exists.mp
        (hf q b (hms s List.mem_cons_self b hm) hq)
      simp only [hb]
      match r with
      | .error fault => rfl
      | .ok () =>
        -- the next subscriber is told with a queue that holds no less
        have hle := unheld_le (fun x hx => hmono x q b _ q₁ hb hx) ms
        exact ih hms' (by omega)

/-- A chain needs no more links than there are candidates that are not held. -/
theorem deliver_isSome (t : Table) (subs : Subscriptions) (root : Message) (depth : Nat) :
    ∀ (q : Queue) (m : Message), m ∈ candidates t subs root →
      q.unheld (candidates t subs root) < depth → (deliver t subs depth q m).isSome = true := by
  induction depth with
  | zero => intro q m _ h; omega
  | succ depth ih =>
    intro q m hm hq
    rw [deliver_succ]
    split
    · rfl
    · rename_i hn
      -- `m` is held from here on, so the subscribers have one candidate fewer
      have hlt := unheld_push_lt hm (Bool.eq_false_iff.mpr hn)
      refine tell_isSome ih (fun x => deliver_holds depth) ?_ (by omega)
      intro s hs b hb
      exact mem_candidates_of_tells hm ⟨s, hs, Subscription.message_eq_some_iff.mp hb⟩

theorem deliver_chainBound (t : Table) (subs : Subscriptions) (q : Queue) (m : Message) :
    deliver t subs (chainBound subs) q m = some (q.send t subs m) := by
  have hlen := length_candidates t subs m
  have hle : q.unheld (candidates t subs m) ≤ (candidates t subs m).length :=
    List.countP_le_length
  obtain ⟨x, hx⟩ := Option.isSome_iff_exists.mp
    (deliver_isSome t subs m (chainBound subs) q m List.mem_cons_self (by omega))
  rw [send, hx]
  rfl

theorem send_of_deliver {depth : Nat} {q : Queue} {m : Message} {x : Except Fault Unit × Queue}
    (h : deliver t subs depth q m = some x) : q.send t subs m = x := by
  have hx := deliver_mono (Nat.le_max_left depth (chainBound subs)) h
  have hs := deliver_mono (Nat.le_max_right depth (chainBound subs)) (deliver_chainBound t subs q m)
  exact Option.some.inj (hs.symm.trans hx)

end Queue

end EntityScript
