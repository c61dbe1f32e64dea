import EntityScript.Proofs.Queue.Invariant
import EntityScript.Proofs.Subscription.Registration
import Mathlib.Data.List.Chain
import Mathlib.Data.List.Induction

/-! # Subscriptions in every state that can be reached

A simulation goes on in small steps (`World.Step`): an event that runs does something
(`World.Deed`), a message is taken from the queue, the host is used, the table changes to a later
one, or there is a sweep. Every request and every change of the table is a succession of such
steps (`World.moves_reached`), so that the states in the middle of a running event are looked at
as well. Each step edits the subscriptions in one of the ways that keep them in order
(`World.Step.edited`), and `World.subscriptions_in_order` says what follows for all states that
can be reached.

A host may subscribe entities of the table only (`World.admits`). Events run for such entities
anyway, because no entity leaves the table while an event is running
(`World.Change.contains`). -/

namespace EntityScript

/-! ## Deeds -/

namespace Table

variable {t : Table} {id : EntityId}

theorem contains_iff : t.contains id = true ↔ id ∈ t.ids := by
  simp [contains, get?, ids]

theorem ids_modify {f : Entity → Entity} (hf : ∀ e, (f e).id = e.id) :
    (t.modify id f).ids = t.ids := by
  refine ids_mapEntities fun e _ => ?_
  by_cases hid : e.id = id <;> simp [hid, hf]

theorem ids_subset_copy (source : EntityId) : t.ids ⊆ (t.copy source).2.ids := by
  cases he : t.get? source <;> simp [copy, he, ids]

end Table

namespace World

/-- What an event does in one step, run for an entity of the table. -/
inductive Deed : World → World → Prop
  | quiet {w w' : World} : Change w w' → w'.subscriptions = w.subscriptions → Deed w w'
  | subscribe (w : World) {subscriber : EntityId} {target event handler : String}
    {args : Option (List Expr)} {subs : Subscriptions} :
    w.table.contains subscriber = true →
    w.subscriptions.subscribe w.table subscriber target event handler args = .ok subs →
    Deed w { w with subscriptions := subs }
  | unsubscribe (w : World) {subscriber : EntityId} {target event handler : String}
    {subs : Subscriptions} :
    w.subscriptions.unsubscribe w.table subscriber target event handler = .ok subs →
    Deed w { w with subscriptions := subs }

/-- No elementary change takes an entity out of the table. -/
theorem Change.contains {w w' : World} (h : Change w w') {id : EntityId}
    (hid : w.table.contains id = true) : w'.table.contains id = true := by
  rw [Table.contains_iff] at hid ⊢
  cases h with
  | assign v he hf => simpa [Table.setField, Entity.setField, Table.ids_modify] using hid
  | destroy x => simpa [Table.destroy, Table.ids_modify] using hid
  | copy hs => exact Table.ids_subset_copy _ hid
  | send | subscribe | unsubscribe | host => exact hid

theorem Deed.withMark {w w' : World} (b : Bool) (h : Deed w w') :
    Deed { w with calling := b } { w' with calling := b } := by
  cases h with
  | quiet hc heq => exact .quiet (hc.withMark b) heq
  | subscribe hs hsubs => exact .subscribe { w with calling := b } hs hsubs
  | unsubscribe hsubs => exact .unsubscribe { w with calling := b } hsubs

/-- By deeds, the entities of the table may subscribe. -/
theorem Deed.licence (id : EntityId) :
    Licence Deed id fun w => w.table.contains id = true where
  kept := by
    intro w w' h hid
    cases h with
    | quiet hc _ => exact hc.contains hid
    | subscribe | unsubscribe => exact hid
  subscribe := fun hid hs => .subscribe _ hid hs
  unsubscribe := fun _ hs => .unsubscribe _ hs

instance : Licensed Deed where
  quiet := .quiet
  mark := fun b h => h.withMark b
  licence := fun he => ⟨_, Deed.licence _, by simp [Table.contains, he]⟩

/-! ## Steps -/

/-- One small step of a simulation or its host. -/
inductive Step : World → World → Prop
  | deed {w w' : World} : Deed w w' → Step w w'
  | pop (w : World) {m : Message} {rest : Queue} :
    w.queue.pop? = some (m, rest) → Step w { w with queue := rest }
  | host (w : World) (host : Host) : Step w { w with host := host }
  | table (w : World) {t : Table} : w.table.Follows t → Step w { w with table := t }
  | sweep (w : World) : Step w w.sweep.2

/-- The second state can be reached from the first. -/
abbrev Reaches : World → World → Prop := Relation.ReflTransGen Step

variable {w w' : World}

/-- What a step does to the table and the subscriptions. -/
theorem Step.edited (h : Step w w') (ht : w.table.Valid) :
    w.table.Follows w'.table ∧ w.subscriptions.Edited w.table w'.subscriptions := by
  cases h with
  | deed hd =>
    cases hd with
    | quiet hc heq =>
      refine ⟨follows_of_shape ht ((shape_kept ht).change _ _ hc ⟨ht, .refl _⟩), ?_⟩
      rw [heq]
      exact .same
    | subscribe hthere hs =>
      obtain ⟨⟨id, hid, hne⟩, rfl⟩ := Subscriptions.subscribe_eq_ok_iff.mp hs
      have hused := ht.below _ (Table.contains_iff.mp hthere)
      exact ⟨.refl ht, .register _ hid hne hused⟩
    | unsubscribe hs =>
      obtain ⟨_, rfl⟩ := Subscriptions.unsubscribe_eq_ok_iff.mp hs
      exact ⟨.refl ht, .withdraw _ _ _ _⟩
  | pop | host => exact ⟨.refl ht, .same⟩
  | table hfollows => exact ⟨hfollows, .same⟩
  | sweep => exact ⟨sweep_follows ht, .retain _⟩

/-- The table and the subscriptions are in order. -/
def InOrder (w : World) : Prop := w.table.Valid ∧ w.subscriptions.Valid w.table

theorem Step.inOrder (h : Step w w') (hw : w.InOrder) : w'.InOrder := by
  obtain ⟨hfollows, hedited⟩ := h.edited hw.1
  exact ⟨hfollows.valid, (hw.2.edited hedited).later hfollows.precedes⟩

theorem Reaches.inOrder (h : w.Reaches w') (hw : w.InOrder) : w'.InOrder :=
  steps_keep (fun _ _ hstep hx => hstep.inOrder hx) h hw

theorem fresh_inOrder (host : Host) (settings : Settings) :
    (fresh .empty host settings).InOrder :=
  ⟨Table.empty_valid, .empty _⟩

/-! ## Requests and other moves are successions of steps -/

/-- Whether a host may make the move: it subscribes entities of the table only. -/
def admits (w : World) : Move → Bool
  | .request (.subscribe subscriber _ _ _ _) _ => w.table.contains subscriber
  | _ => true

/-- Whether a host may make the moves, one after another. -/
def admitsAll (w : World) : List Move → Bool
  | [] => true
  | m :: ms => w.admits m && (w.move m).admitsAll ms

/-- Running events stays among the states that can be reached. -/
theorem reaches_kept (w : World) : KeptBy Deed w.Reaches where
  change := fun _ _ hd hx => hx.tail (.deed hd)
  pop := fun x _ _ hpop hx => hx.tail (.pop x hpop)
  report := fun x _ hx => hx.tail (.host x _)

theorem TakesIn.reached {budget : Nat} (h : w.TakesIn w' budget) : w.Reaches w' := by
  obtain ⟨table, ids, event, hfollows, rfl⟩ := h
  exact (reaches_kept w).broadcast budget ids event [] (.single (.table w hfollows))

theorem pulse_reached (w : World) (budget : Nat) (elapsed : Float) :
    w.Reaches (w.pulse budget elapsed).2 := by
  have hrun := (reaches_kept w).broadcast budget w.table.ids w.settings.tickEvent
    [.number elapsed] .refl
  unfold pulse
  dsimp only
  split
  · exact hrun.tail (.sweep _)
  · exact hrun

theorem subscribe_reached {subscriber : EntityId} (hthere : w.table.contains subscriber = true)
    (target event handler : String) (args : Option (List Expr)) :
    w.Reaches (w.serve (.subscribe subscriber target event handler args)) := by
  rw [serve]
  cases hs : w.subscriptions.subscribe w.table subscriber target event handler args with
  | ok subs => exact .single (.deed (.subscribe w hthere hs))
  | error fault => exact .refl

theorem unsubscribe_reached (subscriber : EntityId) (target event handler : String) :
    w.Reaches (w.serve (.unsubscribe subscriber target event handler)) := by
  rw [serve]
  cases hs : w.subscriptions.unsubscribe w.table subscriber target event handler with
  | ok subs => exact .single (.deed (.unsubscribe w hs))
  | error fault => exact .refl

theorem serve_reached (ht : w.table.Valid) (r : Request) (hr : r.editsTable = false)
    (hadmits : w.admits (.request r hr) = true) : w.Reaches (w.serve r) := by
  have hkept := reaches_kept w
  cases r with
  | send m => exact hkept.send m .refl
  | sendNamed name event args => exact hkept.sendNamed name event args .refl
  | drain budget => exact hkept.drainFrom budget {} .refl
  | call target event args => exact hkept.call target event args .refl
  | subscribe subscriber target event handler args =>
    exact subscribe_reached hadmits target event handler args
  | unsubscribe subscriber target event handler =>
    exact unsubscribe_reached subscriber target event handler
  | sweep => exact .single (.sweep w)
  | load budget source =>
    rcases w.load_takesIn ht budget source with heq | htaken
    · rw [serve, heq]
    · exact htaken.reached
  | pulse budget elapsed => exact w.pulse_reached budget elapsed
  | reload budget source =>
    rcases w.reload_takesIn ht budget source with heq | htaken
    · rw [serve, heq]
    · exact htaken.reached
  | editTable table => cases hr
  | editHost host => exact .single (.host w host)

theorem move_reached (ht : w.table.Valid) (m : Move) (hadmits : w.admits m = true) :
    w.Reaches (w.move m) := by
  have hfollows := move_follows ht m
  cases m with
  | declare name fields events =>
    cases hd : w.table.declare name fields events with
    | ok r =>
      simp only [move, hd] at hfollows ⊢
      exact .single (.table w hfollows)
    | error fault =>
      simp only [move, hd]
      exact .refl
  | copy source => exact .single (.table w hfollows)
  | discard id =>
    cases hd : w.table.discard id with
    | some r =>
      simp only [move, hd] at hfollows ⊢
      exact .single (.table w hfollows)
    | none =>
      simp only [move, hd]
      exact .refl
  | request r hr => exact serve_reached ht r hr hadmits

theorem moves_reached (ht : w.table.Valid) (ms : List Move) (hadmits : w.admitsAll ms = true) :
    w.Reaches (w.moves ms) := by
  induction ms generalizing w with
  | nil => exact .refl
  | cons m ms ih =>
    obtain ⟨hfirst, hrest⟩ := Bool.and_eq_true_iff.mp hadmits
    have hone := move_reached ht m hfirst
    exact hone.trans (ih (move_follows ht m).valid hrest)

/-! ## Paths -/

/-- On the way `path`, the subscription was registered with its arguments when its subscriber
had none with its handler, and it has been in its list ever since. -/
def RegisteredOn (path : List World) (target event : String) (s : Subscription) : Prop :=
  ∃ before a b after, path = before ++ a :: b :: after ∧
    a.subscriptions.has target event s.subscriber s.handler = false ∧
    a.subscriptions.subscribe a.table s.subscriber target event s.handler s.args =
      .ok b.subscriptions ∧
    ∀ x ∈ b :: after, s ∈ x.subscriptions.subscribers target event

theorem RegisteredOn.snoc {path : List World} {target event : String} {s : Subscription}
    (h : RegisteredOn path target event s)
    (hs : s ∈ w.subscriptions.subscribers target event) :
    RegisteredOn (path ++ [w]) target event s := by
  obtain ⟨before, a, b, after, rfl, hfree, hsubscribe, hsince⟩ := h
  refine ⟨before, a, b, after ++ [w], by simp, hfree, hsubscribe, ?_⟩
  intro x hx
  rcases List.mem_append.mp (List.cons_append ▸ hx) with hold | hlast
  · exact hsince x hold
  · rw [List.mem_singleton.mp hlast]
    exact hs

/-- However a state was reached without subscriptions at the start, all that it has were
registered on the way. -/
theorem registered_on_path {path : List World} (hw : w.InOrder) (hempty : w.subscriptions = .empty)
    (hpath : (w :: path).IsChain Step) (hlast : (w :: path).getLast? = some w')
    {target event : String} {s : Subscription}
    (hs : s ∈ w'.subscriptions.subscribers target event) :
    RegisteredOn (w :: path) target event s := by
  induction path using List.reverseRecOn generalizing w' with
  | nil =>
    cases hlast
    simp [hempty, Subscriptions.subscribers] at hs
  | append_singleton path x ih =>
    rw [← List.cons_append] at hpath hlast ⊢
    rw [List.getLast?_concat, Option.some.injEq] at hlast
    subst hlast
    obtain ⟨hbefore, -, hstep⟩ := List.isChain_append.mp hpath
    have hv : (w :: path).getLast? = some ((w :: path).getLast (List.cons_ne_nil w path)) :=
      List.getLast?_eq_some_getLast _
    generalize hlast : (w :: path).getLast (List.cons_ne_nil w path) = v at hv
    have hreached : w.Reaches v :=
      List.relationReflTransGen_of_exists_isChain_cons path hbefore hlast
    by_cases hold : s ∈ v.subscriptions.subscribers target event
    · exact (ih hbefore hv hold).snoc hs
    · have hedited := ((hstep v hv x rfl).edited (hreached.inOrder hw).1).2
      obtain ⟨hfree, hsubscribe⟩ := hedited.came hs hold
      refine ⟨(w :: path).dropLast, v, x, [], ?_, hfree, hsubscribe, by simpa using hs⟩
      rw [← List.dropLast_append_getLast? v hv, List.append_assoc, List.dropLast_concat]
      rfl

/-! ## All states -/

/-- **The subscriptions are in order in every state that can be reached** from an empty table,
among them those after any moves of a host, and those in the middle of a running event. No key
has an empty list. In a list, no subscriber stands twice with one handler, and on whatever way
the state was reached, each subscription has the arguments with which it was registered first
and has been there since; as long as a subscriber has one with a handler, it is the same one. No
entity is told of the events of the name that stands for it, which may have been discarded and
declared again. Subscribing again changes nothing, and unsubscribing after having subscribed
brings back all subscriptions, with their order. -/
theorem subscriptions_in_order {host : Host} {settings : Settings} {w : World}
    (h : (fresh .empty host settings).Reaches w) :
    (∀ ms, w.admitsAll ms = true → w.Reaches (w.moves ms)) ∧
    (∀ key, w.subscriptions.get? key ≠ some []) ∧
    (∀ target event, ((w.subscriptions.subscribers target event).map Subscription.pair).Nodup) ∧
    (∀ path, (fresh .empty host settings :: path).IsChain Step →
      (fresh .empty host settings :: path).getLast? = some w →
      ∀ target event, ∀ s ∈ w.subscriptions.subscribers target event,
        RegisteredOn (fresh .empty host settings :: path) target event s) ∧
    (∀ w', Step w w' → ∀ target event, ∀ s ∈ w.subscriptions.subscribers target event,
      w'.subscriptions.has target event s.subscriber s.handler = true →
      s ∈ w'.subscriptions.subscribers target event) ∧
    (∀ target id, w.table.idOf? target = some id →
      ∀ event, ∀ s ∈ w.subscriptions.subscribers target event, s.subscriber ≠ id) ∧
    (∀ target event, ∀ s ∈ w.subscriptions.subscribers target event, ∀ args,
      (w.table.idOf? target).isSome →
      w.subscriptions.subscribe w.table s.subscriber target event s.handler args =
        .ok w.subscriptions) ∧
    (∀ target event, ∀ s ∈ w.subscriptions.subscribers target event, ∀ args,
      w.serve (.subscribe s.subscriber target event s.handler args) = w) ∧
    (∀ subscriber target event handler args subs,
      w.subscriptions.has target event subscriber handler = false →
      w.subscriptions.subscribe w.table subscriber target event handler args = .ok subs →
      subs.unsubscribe w.table subscriber target event handler = .ok w.subscriptions) := by
  have hstart := fresh_inOrder host settings
  obtain ⟨ht, hsubs⟩ := h.inOrder hstart
  refine ⟨fun ms hms => moves_reached ht ms hms, hsubs.nonempty, hsubs.distinct,
    ?_, ?_, ?_, ?_, ?_, ?_⟩
  · intro path hpath hlast target event s hs
    exact registered_on_path hstart rfl hpath hlast hs
  · intro w' hstep target event s hs hthere
    exact (hstep.edited ht).2.kept hs hthere
  · intro target id hid event s hs heq
    exact hsubs.others target event s hs (heq ▸ hid)
  · intro target event s hs args hdeclared
    rw [hsubs.subscribe_again hs, if_pos hdeclared]
  · intro target event s hs args
    rw [serve, hsubs.subscribe_again hs]
    by_cases hdeclared : (w.table.idOf? target).isSome = true <;> simp [hdeclared, resubscribe]
  · intro subscriber target event handler args subs hnew hs
    obtain ⟨⟨id, hid, _⟩, rfl⟩ := Subscriptions.subscribe_eq_ok_iff.mp hs
    rw [Subscriptions.unsubscribe_eq_ok_iff]
    exact ⟨by simp [hid], (hsubs.withdraw_register hnew).symm⟩

/-- A cat that wants to hear the owl hears of it also after the owl was discarded and another one
declared, which cannot subscribe to itself. -/
def vigil : List Move :=
  [.declare "owl" .empty [],
    .declare "cat" .empty [⟨"wake", [], [.subscribe "owl" "hoot" "listen" none]⟩],
    .request (.sendNamed "cat" "wake" []) rfl, .request (.drain 1) rfl,
    .discard ⟨0⟩, .declare "owl" .empty [],
    .request (.subscribe ⟨2⟩ "owl" "hoot" "listen" none) rfl]

theorem subscriptions_in_order_vigil :
    let w := (fresh .empty {} {}).moves vigil
    (fresh .empty {} {}).Reaches w ∧ w.table.idOf? "owl" = some ⟨2⟩ ∧
    (w.subscriptions.subscribers "owl" "hoot").map Subscription.pair = [(⟨1⟩, "listen")] ∧
    (∀ s ∈ w.subscriptions.subscribers "owl" "hoot", s.subscriber ≠ ⟨2⟩) ∧
    w.subscriptions.subscribe w.table ⟨1⟩ "owl" "hoot" "listen" (some []) =
      .ok w.subscriptions := by
  intro w
  have hreached : (fresh .empty {} {}).Reaches w :=
    moves_reached (fresh_inOrder {} {}).1 vigil (by decide +kernel)
  have howl : w.table.idOf? "owl" = some ⟨2⟩ := by decide +kernel
  have hcat : (w.subscriptions.subscribers "owl" "hoot").map Subscription.pair =
      [(⟨1⟩, "listen")] := by decide +kernel
  obtain ⟨-, -, -, -, -, hothers, hagain, -⟩ := subscriptions_in_order hreached
  refine ⟨hreached, howl, hcat, hothers "owl" ⟨2⟩ howl "hoot", ?_⟩
  obtain ⟨s, hs, hpair⟩ : ∃ s ∈ w.subscriptions.subscribers "owl" "hoot",
      s.pair = (⟨1⟩, "listen") := by
    rw [← List.mem_map, hcat]
    exact List.mem_singleton_self _
  have hsame := hagain "owl" "hoot" s hs (some []) (by rw [howl]; rfl)
  simp only [Subscription.pair, Prod.mk.injEq] at hpair
  rwa [hpair.1, hpair.2] at hsame

end World

end EntityScript
