import EntityScript.Proofs.Send.Told
import EntityScript.Proofs.Subscription.Invariant

/-! # Subscriptions to one's own events

Nobody may subscribe to its own events. Whoever asks is compared with the entity that is declared
under the name, by identity (`Subscriptions.subscribe_own_iff`), while an event is told to the
subscribers of the name. A copy has the name of another entity, so it is let through, and from
then on it is told of its own events (`World.bell_copy_told_itself`). Nobody else ever is:
`World.own_events_told_to_copies`. -/

namespace EntityScript

/-- A request for the events of the own name is refused as one for one's own events exactly if
the subscriber is declared under the name. -/
theorem Subscriptions.subscribe_own_iff {subs : Subscriptions} {t : Table} {subscriber : EntityId}
    {name event handler : String} {args : Option (List Expr)} :
    subs.subscribe t subscriber name event handler args = .error (.selfSubscription name) ↔
      t.idOf? name = some subscriber := by
  unfold subscribe
  cases hid : t.idOf? name with
  | none => simp
  | some id =>
    by_cases hself : id = subscriber
    · simp [hself]
    · simp only [hself, if_false, Option.some.injEq, iff_false]
      split <;> simp

/-- Whoever is let through is a subscriber afterwards. -/
theorem Subscriptions.has_of_subscribe {subs subs' : Subscriptions} {t : Table}
    {subscriber : EntityId} {target event handler : String} {args : Option (List Expr)}
    (h : subs.subscribe t subscriber target event handler args = .ok subs') :
    subs'.has target event subscriber handler = true := by
  obtain ⟨_, rfl⟩ := subscribe_eq_ok_iff.mp h
  cases hthere : subs.has target event subscriber handler with
  | true => simp [register, hthere]
  | false =>
    refine has_iff.mpr ⟨⟨subscriber, handler, args⟩, ?_, rfl⟩
    exact mem_subscribers_register.mpr (.inr ⟨rfl, rfl, rfl, hthere⟩)

namespace Table.Valid

variable {t : Table} {e : Entity}

/-- An entity is in the index under its own name or not at all. -/
theorem idOf?_ne (h : t.Valid) (he : e ∈ t.entities) (hown : t.idOf? e.name ≠ some e.id)
    (name : String) : t.idOf? name ≠ some e.id := by
  intro hid
  obtain ⟨x, hx, hname⟩ := h.indexed name e.id hid
  cases (h.get?_id he).symm.trans hx
  exact hown (hname ▸ hid)

/-- A message to an entity is for the subscribers of its name. -/
theorem audience_eq (h : t.Valid) (he : e ∈ t.entities) (event : String) (args : List Value)
    (subs : Subscriptions) :
    (⟨e.id, event, args⟩ : Message).audience t subs = subs.subscribers e.name event := by
  simp only [Message.audience, h.get?_id he]

end Table.Valid

namespace World

/-- **Only copies are told of their own events.** In every state that can be reached, a declared
entity is no subscriber of an event that is sent to it. If another entity of the table is, then
no name of the index leads to it, and on whatever way the state was reached, it was admitted as
a subscriber of the name that it shares, when the name stood for another entity. Asking for the
events of the own name is refused to declared entities and to no others: a copy whose name is
declared is let through, and is told of its own events from then on. -/
theorem own_events_told_to_copies {host : Host} {settings : Settings} {w : World}
    (h : (fresh .empty host settings).Reaches w) :
    (∀ ms, w.admitsAll ms = true → w.Reaches (w.moves ms)) ∧
    ∀ e ∈ w.table.entities,
      (w.table.idOf? e.name = some e.id → ∀ event args,
        ∀ s ∈ (⟨e.id, event, args⟩ : Message).audience w.table w.subscriptions,
          s.subscriber ≠ e.id) ∧
      (∀ event args, ∀ s ∈ (⟨e.id, event, args⟩ : Message).audience w.table w.subscriptions,
        s.subscriber = e.id →
          (∀ name, w.table.idOf? name ≠ some e.id) ∧
          ∀ path, (fresh .empty host settings :: path).IsChain Step →
            (fresh .empty host settings :: path).getLast? = some w →
            RegisteredOn (fresh .empty host settings :: path) e.name event s) ∧
      (∀ event handler args,
        w.subscriptions.subscribe w.table e.id e.name event handler args =
            .error (.selfSubscription e.name) ↔
          w.table.idOf? e.name = some e.id) ∧
      (∀ id, w.table.idOf? e.name = some id → id ≠ e.id → ∀ event handler args,
        ∃ subs, w.subscriptions.subscribe w.table e.id e.name event handler args = .ok subs ∧
          ∀ sent, ∃ s ∈ (⟨e.id, event, sent⟩ : Message).audience w.table subs,
            s.pair = (e.id, handler)) := by
  have hstart := fresh_inOrder host settings
  obtain ⟨ht, hsubs⟩ := h.inOrder hstart
  refine ⟨fun ms hms => moves_reached ht ms hms, ?_⟩
  intro e he
  have hdeclared : w.table.idOf? e.name = some e.id → ∀ event,
      ∀ s ∈ w.subscriptions.subscribers e.name event, s.subscriber ≠ e.id := by
    intro hid event s hs hself
    exact hsubs.others e.name event s hs (hself ▸ hid)
  refine ⟨?_, ?_, fun _ _ _ => Subscriptions.subscribe_own_iff, ?_⟩
  · intro hid event args s hs
    rw [ht.audience_eq he] at hs
    exact hdeclared hid event s hs
  · intro event args s hs hself
    rw [ht.audience_eq he] at hs
    refine ⟨ht.idOf?_ne he fun hid => hdeclared hid event s hs hself, ?_⟩
    intro path hpath hlast
    exact registered_on_path hstart rfl hpath hlast hs
  · intro id hid hother event handler args
    have hgranted : w.subscriptions.subscribe w.table e.id e.name event handler args = .ok _ :=
      Subscriptions.subscribe_eq_ok_iff.mpr ⟨⟨id, hid, hother⟩, rfl⟩
    refine ⟨_, hgranted, fun sent => ?_⟩
    rw [ht.audience_eq he]
    exact Subscriptions.has_iff.mp (Subscriptions.has_of_subscribe hgranted)

/-- A bell and its copy, and the copy asks to hear the bell. -/
def carillon : List Move :=
  [.declare "Bell" .empty [], .copy ⟨0⟩,
    .request (.subscribe ⟨1⟩ "Bell" "ring" "hear" none) rfl]

theorem carillon_reached : (fresh .empty {} {}).Reaches ((fresh .empty {} {}).moves carillon) :=
  moves_reached (fresh_inOrder {} {}).1 carillon (by decide +kernel)

/-- The bell itself is not told of its ringing, although its copy is. -/
theorem own_events_told_to_copies_bell :
    let w := (fresh .empty {} {}).moves carillon
    (fresh .empty {} {}).Reaches w ∧ w.table.idOf? "Bell" = some ⟨0⟩ ∧
    ((⟨⟨0⟩, "ring", []⟩ : Message).audience w.table w.subscriptions).map Subscription.pair =
      [(⟨1⟩, "hear")] ∧
    ∀ s ∈ (⟨⟨0⟩, "ring", []⟩ : Message).audience w.table w.subscriptions,
      s.subscriber ≠ ⟨0⟩ := by
  intro w
  refine ⟨carillon_reached, by decide +kernel, by decide +kernel, ?_⟩
  exact ((own_events_told_to_copies carillon_reached).2
    ⟨⟨0⟩, "Bell", .empty, ⟨[]⟩, false⟩ (.head _)).1 rfl "ring" []

/-- The copy of a bell is a subscriber of its own ringing, and when it is sent the event, a
message for its own handler waits behind it. -/
theorem bell_copy_told_itself :
    let w := (fresh .empty {} {}).moves carillon
    let ring : Message := ⟨⟨1⟩, "ring", []⟩
    (fresh .empty {} {}).Reaches w ∧ w.table.contains ⟨1⟩ = true ∧
    (⟨⟨1⟩, "hear", none⟩ : Subscription) ∈ ring.audience w.table w.subscriptions ∧
    (w.send ring).2.queue.pending = [ring, ⟨⟨1⟩, "hear", []⟩] := by
  intro w ring
  exact ⟨carillon_reached, by decide +kernel, .head _, rfl⟩

end World

end EntityScript
