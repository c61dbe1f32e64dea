import EntityScript.Program

/-! # Declaring entities

Under a free name an entity is declared at the end of the table, with the next free
identity (`Table.declare_free`). So declarations whose names are free and differ all go
through, and what they do to the table can be written down at once
(`Table.declareAll_free`). -/

namespace EntityScript

/-! ## Sets of events -/

/-- If names differ, each item is found by its own. -/
theorem find?_name_of_mem {α : Type} {name : α → String} {xs : List α} (h : (xs.map name).Nodup)
    {x : α} (hx : x ∈ xs) : xs.find? (fun y => name y == name x) = some x := by
  induction xs with
  | nil => cases hx
  | cons y ys ih =>
    rw [List.map_cons, List.nodup_cons] at h
    rcases List.mem_cons.mp hx with rfl | hmem
    · simp
    · have hne : name y ≠ name x := by
        intro heq
        exact h.1 (heq ▸ List.mem_map_of_mem hmem)
      simpa [hne] using ih h.2 hmem

namespace EventSet

theorem foldl_add {kept events : List Event}
    (h : ((kept ++ events).map Event.name).Nodup) :
    events.foldl ofList.add kept = kept ++ events := by
  induction events generalizing kept with
  | nil => simp
  | cons e events ih =>
    have hnew : (kept.any fun k => k.name == e.name) = false := by
      rw [List.any_eq_false]
      intro k hk heq
      rw [List.map_append] at h
      exact (List.nodup_append.mp h).2.2 _ (List.mem_map_of_mem hk) _ (by simp) (eq_of_beq heq)
    rw [List.append_cons] at h
    rw [List.foldl_cons, ofList.add, hnew, List.append_cons kept e events]
    exact ih h

/-- Events with distinct names are all kept. -/
theorem ofList_eq {events : List Event} (h : (events.map Event.name).Nodup) :
    ofList events = ⟨events⟩ := by
  rw [ofList, foldl_add (by simpa using h), List.nil_append]

theorem get?_of_mem {events : List Event} (h : (events.map Event.name).Nodup) {e : Event}
    (he : e ∈ events) : (⟨events⟩ : EventSet).get? e.name = some e :=
  find?_name_of_mem h he

end EventSet

/-! ## Declarations -/

/-- The entity that a declaration stands for, under the identity `id`. -/
def Declaration.entity (d : Declaration) (id : Nat) : Entity :=
  ⟨⟨id⟩, d.name, d.fields, .ofList d.events, false⟩

theorem Declaration.mapIdx_entity {ds : List Declaration}
    (h : ∀ d ∈ ds, (d.events.map Event.name).Nodup) (n : Nat) :
    (ds.mapIdx fun i d => d.entity (n + i)) =
      ds.mapIdx fun i d => ⟨⟨n + i⟩, d.name, d.fields, ⟨d.events⟩, false⟩ := by
  refine List.ext_getElem (by simp) ?_
  intro i hi _
  rw [List.length_mapIdx] at hi
  have hset := EventSet.ofList_eq (h _ (List.getElem_mem hi))
  simp [Declaration.entity, hset]

/-- The table `t` has become `t'` by the declarations `ds`, in their order. -/
structure Table.Declares (t : Table) (ds : List Declaration) (t' : Table) : Prop where
  entities : t'.entities = t.entities ++ ds.mapIdx fun i d => d.entity (t.nextId + i)
  names : t'.names.entries = t.names.entries ++ ds.mapIdx fun i d => (d.name, ⟨t.nextId + i⟩)
  nextId : t'.nextId = t.nextId + ds.length

namespace Table

variable {t t₁ t' : Table} {d : Declaration} {ds : List Declaration}

theorem Declares.nil (t : Table) : t.Declares [] t := ⟨by simp, by simp, rfl⟩

theorem Declares.append {ds' : List Declaration} (h : t.Declares ds t₁) (h' : t₁.Declares ds' t') :
    t.Declares (ds ++ ds') t' := by
  have hshift : ∀ i, t.nextId + ds.length + i = t.nextId + (i + ds.length) := by
    intro i
    omega
  refine ⟨?_, ?_, ?_⟩
  · rw [h'.entities, h.entities, h.nextId]
    simp [List.mapIdx_append, hshift]
  · rw [h'.names, h.names, h.nextId]
    simp [List.mapIdx_append, hshift]
  · rw [h'.nextId, h.nextId, List.length_append]
    omega

theorem declare_free (h : t.idOf? d.name = none) :
    ∃ t', t.declare d.name d.fields d.events = .ok (⟨t.nextId⟩, t') ∧ t.Declares [d] t' := by
  have hfree : t.names.contains d.name = false := by
    simpa [OrderedMap.contains, idOf?] using h
  refine ⟨_, by rw [declare, hfree]; rfl, rfl, ?_, rfl⟩
  exact OrderedMap.entries_insert_new h _

/-- A declaration concerns its own name only. -/
theorem Declares.idOf? (h : t.Declares [d] t') (hfree : t.idOf? d.name = none) (name : String) :
    t'.idOf? name = if d.name = name then some ⟨t.nextId⟩ else t.idOf? name := by
  have heq : t'.names = t.names.insert d.name ⟨t.nextId⟩ := by
    apply OrderedMap.ext
    rw [h.names, OrderedMap.entries_insert_new hfree]
    rfl
  simp only [Table.idOf?, heq, OrderedMap.get?_insert]

theorem Declares.isSome_idOf?_iff (h : t.Declares ds t') {name : String} :
    (t'.idOf? name).isSome ↔ (t.idOf? name).isSome ∨ name ∈ ds.map Declaration.name := by
  have hnew : (ds.mapIdx fun i d => (d.name, (⟨t.nextId + i⟩ : EntityId))).map Prod.fst =
      ds.map Declaration.name := List.ext_getElem (by simp) (by simp)
  have hkeys : t'.names.keys = t.names.keys ++ ds.map Declaration.name := by
    rw [OrderedMap.keys, h.names, List.map_append, hnew]
    rfl
  unfold Table.idOf?
  rw [OrderedMap.isSome_get?_iff, OrderedMap.isSome_get?_iff, hkeys, List.mem_append]

theorem declareAll_free (hnames : (ds.map Declaration.name).Nodup)
    (hfree : ∀ d ∈ ds, t.idOf? d.name = none) : ∃ t',
      t.declareAll ds = (.ok (ds.mapIdx fun i _ => ⟨t.nextId + i⟩), t') ∧ t.Declares ds t' := by
  induction ds generalizing t with
  | nil => exact ⟨t, rfl, .nil t⟩
  | cons d ds ih =>
    rw [List.map_cons, List.nodup_cons] at hnames
    have hd := hfree d List.mem_cons_self
    obtain ⟨t₁, hdeclare, hdeclared⟩ := declare_free hd
    have hrest : ∀ x ∈ ds, t₁.idOf? x.name = none := by
      intro x hx
      have hne : d.name ≠ x.name := by
        intro heq
        exact hnames.1 (heq ▸ List.mem_map_of_mem hx)
      rw [hdeclared.idOf? hd, if_neg hne]
      exact hfree x (List.mem_cons_of_mem _ hx)
    obtain ⟨t', hall, hdeclared'⟩ := ih hnames.2 hrest
    refine ⟨t', ?_, hdeclared.append hdeclared'⟩
    have hnext : t₁.nextId = t.nextId + 1 := hdeclared.nextId
    simp [declareAll, hdeclare, hall, List.mapIdx_cons, hnext, Nat.add_comm, Nat.add_left_comm]

end Table

end EntityScript
