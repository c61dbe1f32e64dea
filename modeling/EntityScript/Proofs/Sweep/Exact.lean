import EntityScript.Dispatch.Sweep
import EntityScript.Proofs.Send.Bound
import Mathlib.Data.List.Forall2

/-! # Sweeping is exact

A sweep takes out of every pool, at every depth, the references to entities that are not
live, and ends the subscriptions of such entities; all else stays as and where it is
(`Value.Swept`, `Entity.Swept`). The references that pools hold are listed by
`Value.references`: a sweep leaves of them those that are live (`Value.references_retain`),
and its report counts the others. A second sweep finds nothing to do. -/

namespace EntityScript

/-! ## Values -/

namespace Value

mutual

/-- The references in the pools of a value, at every depth and in order. -/
def references : Value → List EntityId
  | .pool items => referencesIn items
  | _ => []

/-- The references among the items of a pool, at every depth and in order. -/
def referencesIn : List Value → List EntityId
  | [] => []
  | .entity id :: vs => id :: referencesIn vs
  | v :: vs => references v ++ referencesIn vs

end

mutual

/-- What has become of a value: its pools have lost the references that are not to be kept,
and nothing else. -/
inductive Swept (keep : EntityId → Bool) : Value → Value → Prop
  | pool {items items' : List Value} : SweptItems keep items items' →
    Swept keep (.pool items) (.pool items')
  | other {v : Value} : v.type ≠ .pool → Swept keep v v

/-- What has become of the items of a pool. -/
inductive SweptItems (keep : EntityId → Bool) : List Value → List Value → Prop
  | nil : SweptItems keep [] []
  | drop {id : EntityId} {vs vs' : List Value} : keep id = false → SweptItems keep vs vs' →
    SweptItems keep (.entity id :: vs) vs'
  | stay {id : EntityId} {vs vs' : List Value} : keep id = true → SweptItems keep vs vs' →
    SweptItems keep (.entity id :: vs) (.entity id :: vs')
  | item {v v' : Value} {vs vs' : List Value} : v.type ≠ .entity → Swept keep v v' →
    SweptItems keep vs vs' → SweptItems keep (v :: vs) (v' :: vs')

end

variable (keep : EntityId → Bool)

mutual

theorem retain_swept : ∀ v : Value, Swept keep v (retain keep v)
  | .pool items => .pool (retainAll_swept items)
  | .null | .number _ | .bool _ | .string _ | .entity _ => .other (by simp [type])

theorem retainAll_swept : ∀ vs : List Value, SweptItems keep vs (retainAll keep vs)
  | [] => .nil
  | .entity id :: vs => by
    have ih := retainAll_swept vs
    cases hk : keep id with
    | true => simpa [retainAll, hk] using .stay hk ih
    | false => simpa [retainAll, hk] using .drop hk ih
  | .pool items :: vs => .item (by simp [type]) (retain_swept (.pool items)) (retainAll_swept vs)
  | .null :: vs | .number _ :: vs | .bool _ :: vs | .string _ :: vs =>
    .item (by simp [type]) (.other (by simp [type])) (retainAll_swept vs)

end

mutual

theorem references_retain : ∀ v : Value, references (retain keep v) = (references v).filter keep
  | .pool items => referencesIn_retainAll items
  | .null | .number _ | .bool _ | .string _ | .entity _ => rfl

theorem referencesIn_retainAll : ∀ vs : List Value,
    referencesIn (retainAll keep vs) = (referencesIn vs).filter keep
  | [] => rfl
  | .entity id :: vs => by
    have ih := referencesIn_retainAll vs
    cases hk : keep id <;> simp [retainAll, referencesIn, hk, ih]
  | .pool items :: vs => by
    have hpool := references_retain (.pool items)
    have ih := referencesIn_retainAll vs
    simp only [retain, references] at hpool
    simp [retainAll, retain, referencesIn, references, hpool, ih]
  | .null :: vs | .number _ :: vs | .bool _ :: vs | .string _ :: vs =>
    referencesIn_retainAll vs

end

mutual

theorem strays_eq : ∀ v : Value, strays keep v = (references v).countP fun id => !keep id
  | .pool items => straysIn_eq items
  | .null | .number _ | .bool _ | .string _ | .entity _ => rfl

theorem straysIn_eq : ∀ vs : List Value,
    straysIn keep vs = (referencesIn vs).countP fun id => !keep id
  | [] => rfl
  | .entity id :: vs => by
    have ih := straysIn_eq vs
    cases hk : keep id <;> simp [straysIn, referencesIn, hk, ih, Nat.add_comm]
  | .pool items :: vs => by
    have hpool := strays_eq (.pool items)
    have ih := straysIn_eq vs
    simp only [references] at hpool
    simp [straysIn, referencesIn, references, hpool, ih]
  | .null :: vs | .number _ :: vs | .bool _ :: vs | .string _ :: vs => by
    have ih := straysIn_eq vs
    simp [straysIn, strays, referencesIn, references, ih]

end

mutual

/-- Where all references are to be kept, there is nothing to do. -/
theorem retain_eq_self : ∀ {v : Value}, (∀ id ∈ references v, keep id = true) → retain keep v = v
  | .pool _, h => congrArg Value.pool (retainAll_eq_self h)
  | .null, _ | .number _, _ | .bool _, _ | .string _, _ | .entity _, _ => rfl

theorem retainAll_eq_self : ∀ {vs : List Value}, (∀ id ∈ referencesIn vs, keep id = true) →
    retainAll keep vs = vs
  | [], _ => rfl
  | .entity id :: vs, h => by
    simp only [referencesIn, List.mem_cons, forall_eq_or_imp] at h
    simp [retainAll, h.1, retainAll_eq_self h.2]
  | .pool _ :: vs, h => by
    simp only [referencesIn, List.mem_append, or_imp, forall_and] at h
    simp [retainAll, retain_eq_self h.1, retainAll_eq_self h.2]
  | .null :: vs, h | .number _ :: vs, h | .bool _ :: vs, h | .string _ :: vs, h =>
    congrArg (List.cons _) (retainAll_eq_self h)

end

end Value

/-! ## Entities and the table -/

/-- Counts added up are one count over all lists. -/
theorem foldr_countP {α β : Type} {f : α → Nat} {g : α → List β} {p : β → Bool}
    (h : ∀ a, f a = (g a).countP p) (as : List α) :
    as.foldr (fun a n => f a + n) 0 = (as.flatMap g).countP p := by
  induction as with
  | nil => rfl
  | cons a as ih => rw [List.foldr_cons, ih, h, List.flatMap_cons, List.countP_append]

/-- The references in the pools of an entity. -/
def Entity.references (e : Entity) : List EntityId := e.fields.values.flatMap Value.references

/-- The references in the pools of a table. -/
def Table.references (t : Table) : List EntityId := t.entities.flatMap Entity.references

/-- What has become of an entity: the pools in its fields are swept, and nothing else has
changed. -/
structure Entity.Swept (keep : EntityId → Bool) (e e' : Entity) : Prop where
  id : e'.id = e.id
  name : e'.name = e.name
  events : e'.events = e.events
  destroyed : e'.destroyed = e.destroyed
  fieldNames : e'.fields.keys = e.fields.keys
  values : List.Forall₂ (Value.Swept keep) e.fields.values e'.fields.values

namespace Entity

variable (e : Entity) (keep : EntityId → Bool)

theorem retain_swept : e.Swept keep (e.retain keep) where
  id := rfl
  name := rfl
  events := rfl
  destroyed := rfl
  fieldNames := OrderedMap.keys_mapValues _ _
  values := by
    simp only [retain, OrderedMap.values_mapValues, List.forall₂_map_right_iff]
    exact List.forall₂_same.mpr fun v _ => Value.retain_swept keep v

theorem references_retain : (e.retain keep).references = e.references.filter keep := by
  simp only [references, retain, OrderedMap.values_mapValues, List.flatMap_map,
    List.filter_flatMap, Value.references_retain]

theorem strays_eq : e.strays keep = e.references.countP fun id => !keep id :=
  foldr_countP (Value.strays_eq keep) _

theorem retain_eq_self {keep : EntityId → Bool} {e : Entity}
    (h : ∀ id ∈ e.references, keep id = true) : e.retain keep = e := by
  have hvalues : e.fields.mapValues (Value.retain keep) = e.fields := by
    apply OrderedMap.mapValues_eq_self
    intro v hv
    exact Value.retain_eq_self keep fun id hid => h id (List.mem_flatMap.mpr ⟨v, hv, hid⟩)
  rw [retain, hvalues]

end Entity

namespace Table

variable {t : Table}

/-- The table with its pools swept. -/
def retain (t : Table) (keep : EntityId → Bool) : Table :=
  { t with entities := t.entities.map fun e => e.retain keep }

theorem get?_retain (t : Table) (keep : EntityId → Bool) (id : EntityId) :
    (t.retain keep).get? id = (t.get? id).map fun e => e.retain keep := by
  simp only [get?, retain, List.find?_map]
  rfl

theorem isLive_retain (t : Table) (keep : EntityId → Bool) (id : EntityId) :
    (t.retain keep).isLive id = t.isLive id := by
  unfold isLive
  rw [get?_retain]
  cases t.get? id <;> rfl

theorem references_retain (t : Table) (keep : EntityId → Bool) :
    (t.retain keep).references = t.references.filter keep := by
  simp only [references, retain, List.flatMap_map, List.filter_flatMap, Entity.references_retain]

theorem retain_eq_self {keep : EntityId → Bool} (h : ∀ id ∈ t.references, keep id = true) :
    t.retain keep = t := by
  have hentities : (t.entities.map fun e => e.retain keep) = t.entities := by
    refine (List.map_congr_left ?_).trans (List.map_id _)
    intro e he
    exact Entity.retain_eq_self fun id hid => h id (List.mem_flatMap.mpr ⟨e, he, hid⟩)
  rw [retain, hentities]

end Table

/-! ## Subscriptions -/

namespace Subscriptions

variable (subs : Subscriptions) (keep : EntityId → Bool)

theorem all_retain : (subs.retain keep).all = subs.all.filter fun s => keep s.subscriber := by
  simp only [all, retain, OrderedMap.values_filterValues, OrderedMap.values_mapValues,
    List.filter_flatten, List.flatten_filter_not_isEmpty]

theorem subscribers_retain (target event : String) : (subs.retain keep).subscribers target event =
    (subs.subscribers target event).filter fun s => keep s.subscriber := by
  simp only [subscribers, retain, OrderedMap.get?_filterValues, OrderedMap.get?_mapValues]
  cases subs.get? (target, event) with
  | none => rfl
  | some list =>
    cases hempty : (list.filter fun s => keep s.subscriber).isEmpty with
    | true => simp [Option.filter, List.isEmpty_iff.mp hempty]
    | false => simp [Option.filter, hempty]

theorem nil_not_mem_values_retain : [] ∉ (subs.retain keep).values := by
  simp [retain, OrderedMap.values_filterValues]

theorem keys_retain_sublist : (subs.retain keep).keys.Sublist subs.keys := by
  have h := OrderedMap.keys_filterValues_sublist
    (subs.mapValues fun list => list.filter fun s => keep s.subscriber) fun list => !list.isEmpty
  rwa [OrderedMap.keys_mapValues] at h

theorem strays_eq : subs.strays keep = subs.all.countP fun s => !keep s.subscriber := by
  have h := foldr_countP (g := id) (p := fun s : Subscription => !keep s.subscriber)
    (fun list => (List.countP_eq_length_filter (l := list)).symm) subs.values
  rwa [List.flatMap_id] at h

/-- Where all subscribers are to be kept and no list is empty, there is nothing to do. -/
theorem retain_eq_self {subs : Subscriptions} {keep : EntityId → Bool}
    (h : ∀ s ∈ subs.all, keep s.subscriber = true) (hempty : [] ∉ subs.values) :
    subs.retain keep = subs := by
  have hkept : subs.mapValues (fun list => list.filter fun s => keep s.subscriber) = subs := by
    apply OrderedMap.mapValues_eq_self
    intro list hlist
    exact List.filter_eq_self.mpr fun s hs => h s (List.mem_flatten.mpr ⟨list, hlist, hs⟩)
  apply OrderedMap.ext
  rw [retain, hkept]
  refine List.filter_eq_self.mpr ?_
  intro f hf
  cases hf2 : f.2 with
  | nil => exact absurd (hf2 ▸ List.mem_map_of_mem hf) hempty
  | cons s list => rfl

end Subscriptions

/-! ## Sweeping -/

/-- A sweep has turned the state `w` into `w'` and reported `r`. -/
structure World.SweptTo (w : World) (r : SweepReport) (w' : World) : Prop where
  live : ∀ id, w'.table.isLive id = w.table.isLive id
  clean : ∀ id ∈ w'.table.references, w'.table.isLive id = true
  entities : List.Forall₂ (Entity.Swept w.table.isLive) w.table.entities w'.table.entities
  others : w' = { w with
    table := { w.table with entities := w'.table.entities }
    subscriptions := w'.subscriptions }
  subscribers : ∀ target event, w'.subscriptions.subscribers target event =
    (w.subscriptions.subscribers target event).filter fun s => w.table.isLive s.subscriber
  order : w'.subscriptions.keys.Sublist w.subscriptions.keys
  nonempty : [] ∉ w'.subscriptions.values
  references : r.references = w.table.references.countP fun id => !w.table.isLive id
  subscriptions : r.subscriptions =
    w.subscriptions.all.countP fun s => !w.table.isLive s.subscriber

namespace World

theorem sweep_eq (w : World) : w.sweep =
    (⟨w.table.references.countP fun id => !w.table.isLive id,
      w.subscriptions.all.countP fun s => !w.table.isLive s.subscriber⟩,
      { w with
        table := w.table.retain w.table.isLive
        subscriptions := w.subscriptions.retain w.table.isLive }) := by
  have hreferences : w.table.entities.foldr (fun e n => e.strays w.table.isLive + n) 0 =
      w.table.references.countP fun id => !w.table.isLive id :=
    foldr_countP (fun e => e.strays_eq w.table.isLive) _
  simp only [sweep, hreferences, Subscriptions.strays_eq, Table.retain]

/-- Where all is live, a sweep does nothing. -/
theorem sweep_idle {w : World} (hreferences : ∀ id ∈ w.table.references, w.table.isLive id = true)
    (hsubscribers : ∀ s ∈ w.subscriptions.all, w.table.isLive s.subscriber = true)
    (hempty : [] ∉ w.subscriptions.values) : w.sweep = (⟨0, 0⟩, w) := by
  have hcount : (w.table.references.countP fun id => !w.table.isLive id) = 0 := by
    simpa [List.countP_eq_zero] using hreferences
  have hcount' : (w.subscriptions.all.countP fun s => !w.table.isLive s.subscriber) = 0 := by
    simpa [List.countP_eq_zero] using hsubscribers
  rw [sweep_eq, hcount, hcount', Table.retain_eq_self hreferences,
    Subscriptions.retain_eq_self hsubscribers hempty]

theorem sweep_swept (w : World) : w.SweptTo w.sweep.1 w.sweep.2 where
  live := by
    intro id
    rw [sweep_eq]
    exact Table.isLive_retain _ _ id
  clean := by
    intro id hid
    rw [sweep_eq] at hid ⊢
    rw [Table.references_retain] at hid
    rw [Table.isLive_retain]
    exact (List.mem_filter.mp hid).2
  entities := by
    rw [sweep_eq]
    simp only [Table.retain, List.forall₂_map_right_iff]
    exact List.forall₂_same.mpr fun e _ => e.retain_swept _
  others := by rw [sweep_eq]; rfl
  subscribers := by
    rw [sweep_eq]
    exact Subscriptions.subscribers_retain _ _
  order := by
    rw [sweep_eq]
    exact Subscriptions.keys_retain_sublist _ _
  nonempty := by
    rw [sweep_eq]
    exact Subscriptions.nil_not_mem_values_retain _ _
  references := by rw [sweep_eq]
  subscriptions := by rw [sweep_eq]

/-- **Sweeping is exact.** Every pool loses exactly its references to what is not live and
every such subscriber its subscriptions, nothing else changes, and the report gives the
numbers of both. A second sweep changes nothing and has nothing to report. -/
theorem sweep_exact (w : World) :
    w.SweptTo w.sweep.1 w.sweep.2 ∧ w.sweep.2.sweep = (⟨0, 0⟩, w.sweep.2) := by
  have hswept := w.sweep_swept
  refine ⟨hswept, sweep_idle hswept.clean ?_ hswept.nonempty⟩
  intro s hs
  rw [hswept.live]
  rw [sweep_eq, Subscriptions.all_retain] at hs
  exact (List.mem_filter.mp hs).2

end World

end EntityScript
