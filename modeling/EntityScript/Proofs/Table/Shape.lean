import EntityScript.Proofs.Simulation.Request

/-! # The shape of the table

A table is valid if its identities increase and are used up in that order, and its index
leads from each declared name to an entity of that name (`Table.Valid`). Running events
change values only: every entity keeps its place, its identity, its name, its events and
its field names, a destroyed one stays destroyed, and what comes in behind them are copies
of declared entities (`Table.GrowsTo`). `World.table_shape_kept` says so of drains and
calls. -/

namespace EntityScript

/-! ## Valid tables -/

/-- The table is in order. -/
structure Table.Valid (t : Table) : Prop where
  increasing : t.ids.Pairwise fun a b => a.raw < b.raw
  below : ∀ id ∈ t.ids, id.raw < t.nextId
  indexed : ∀ name id, t.idOf? name = some id → ∃ e, t.get? id = some e ∧ e.name = name

namespace Table

theorem empty_valid : empty.Valid where
  increasing := .nil
  below := by simp [ids, empty]
  indexed := by
    intro name id hid
    cases hid

theorem mem_of_get? {t : Table} {id : EntityId} {e : Entity} (h : t.get? id = some e) :
    e ∈ t.entities ∧ e.id = id := by
  unfold get? at h
  have hid := List.find?_some h
  exact ⟨List.mem_of_find?_eq_some h, eq_of_beq hid⟩

/-- With increasing identities, an entity is found by its own. -/
theorem find?_id_of_mem {es : List Entity}
    (h : (es.map Entity.id).Pairwise fun a b => a.raw < b.raw) {e : Entity} (he : e ∈ es) :
    es.find? (fun x => x.id == e.id) = some e := by
  induction es with
  | nil => cases he
  | cons x xs ih =>
    rw [List.map_cons, List.pairwise_cons] at h
    rcases List.mem_cons.mp he with rfl | hmem
    · exact List.find?_cons_of_pos (beq_self_eq_true _)
    · have hlt : x.id.raw < e.id.raw := h.1 e.id (List.mem_map_of_mem hmem)
      have hne : ¬ (x.id == e.id) = true := by
        intro heq
        rw [eq_of_beq heq] at hlt
        omega
      exact (List.find?_cons_of_neg (p := fun x : Entity => x.id == e.id) hne).trans (ih h.2 hmem)

theorem Valid.get?_id {t : Table} (h : t.Valid) {e : Entity} (he : e ∈ t.entities) :
    t.get? e.id = some e :=
  find?_id_of_mem h.increasing he

end Table

/-! ## What an entity keeps -/

/-- An entity `e` has become `e'`: only the values of its fields are others, and it may have
been destroyed meanwhile. -/
structure Entity.Becomes (e e' : Entity) : Prop where
  id : e'.id = e.id
  name : e'.name = e.name
  events : e'.events = e.events
  fieldNames : e'.fields.keys = e.fields.keys
  destroyed : e.destroyed = true → e'.destroyed = true

namespace Entity.Becomes

theorem refl (e : Entity) : e.Becomes e := ⟨rfl, rfl, rfl, rfl, fun hd => hd⟩

theorem trans {e₁ e₂ e₃ : Entity} (h : e₁.Becomes e₂) (h' : e₂.Becomes e₃) : e₁.Becomes e₃ :=
  ⟨h'.id.trans h.id, h'.name.trans h.name, h'.events.trans h.events,
    h'.fieldNames.trans h.fieldNames, fun hd => h'.destroyed (h.destroyed hd)⟩

theorem setField {e : Entity} {name : String} (h : e.fields.contains name = true) (v : Value) :
    e.Becomes (e.setField name v) :=
  ⟨rfl, rfl, rfl, OrderedMap.keys_insert_of_contains h v, fun hd => hd⟩

theorem destroy (e : Entity) : e.Becomes { e with destroyed := true } :=
  ⟨rfl, rfl, rfl, rfl, fun _ => rfl⟩

end Entity.Becomes

/-! ## What the table keeps -/

/-- A copy of an entity that `t` declares, with an identity that is not used in `t`. -/
structure Table.IsCopy (t : Table) (c : Entity) : Prop where
  fresh : t.nextId ≤ c.id.raw
  declared : ∃ name id e, t.idOf? name = some id ∧ t.get? id = some e ∧ e.name = name ∧
    c.name = name ∧ c.fields.keys = e.fields.keys ∧ c.events = e.events

/-- The table `t` has become `t'`: entities are where they were, and behind them are copies
of declared ones. -/
structure Table.GrowsTo (t t' : Table) : Prop where
  names : t'.names = t.names
  nextId : t.nextId ≤ t'.nextId
  kept : ∀ (i : Nat) e, t.entities[i]? = some e → ∃ e', t'.entities[i]? = some e' ∧ e.Becomes e'
  added : ∀ (i : Nat) c, t.entities.length ≤ i → t'.entities[i]? = some c → t.IsCopy c

namespace Table

theorem IsCopy.becomes {t : Table} {c c' : Entity} (h : t.IsCopy c) (hc : c.Becomes c') :
    t.IsCopy c' := by
  obtain ⟨hfresh, name, id, e, hid, he, hname, hcopy, hkeys, hevents⟩ := h
  exact ⟨by rw [hc.id]; exact hfresh, name, id, e, hid, he, hname, hc.name.trans hcopy,
    hc.fieldNames.trans hkeys, hc.events.trans hevents⟩

theorem GrowsTo.refl (t : Table) : t.GrowsTo t where
  names := rfl
  nextId := Nat.le_refl _
  kept := fun _ e he => ⟨e, he, .refl e⟩
  added := by
    intro i c hi hc
    rw [List.getElem?_eq_none hi] at hc
    cases hc

theorem GrowsTo.length_le {t t' : Table} (h : t.GrowsTo t') :
    t.entities.length ≤ t'.entities.length := by
  rcases Nat.lt_or_ge t'.entities.length t.entities.length with hlt | hle
  · obtain ⟨e', he', _⟩ := h.kept _ _ (List.getElem?_eq_getElem hlt)
    rw [List.getElem?_eq_none (Nat.le_refl _)] at he'
    cases he'
  · exact hle

/-- An entity is found where it was found, as what it has become. -/
theorem GrowsTo.get? {t t' : Table} (h : t.GrowsTo t') (ht' : t'.Valid) {id : EntityId}
    {e : Entity} (he : t.get? id = some e) : ∃ e', t'.get? id = some e' ∧ e.Becomes e' := by
  obtain ⟨hmem, hid⟩ := mem_of_get? he
  obtain ⟨i, hi⟩ := List.mem_iff_getElem?.mp hmem
  obtain ⟨e', hi', hbecomes⟩ := h.kept i e hi
  refine ⟨e', ?_, hbecomes⟩
  rw [← hid, ← hbecomes.id]
  exact ht'.get?_id (List.mem_of_getElem? hi')

/-! ## Changing entities -/

section Map

variable {t : Table} {g : Entity → Entity}

/-- Change every entity of a table. -/
def mapEntities (t : Table) (g : Entity → Entity) : Table :=
  { t with entities := t.entities.map g }

theorem ids_mapEntities (hid : ∀ e ∈ t.entities, (g e).id = e.id) :
    (t.mapEntities g).ids = t.ids := by
  unfold ids mapEntities
  rw [List.map_map]
  exact List.map_congr_left hid

theorem Valid.mapEntities (ht : t.Valid) (hid : ∀ e ∈ t.entities, (g e).id = e.id)
    (hname : ∀ e ∈ t.entities, (g e).name = e.name) : (t.mapEntities g).Valid := by
  have hids := ids_mapEntities hid
  have hincreasing : (t.mapEntities g).ids.Pairwise fun a b => a.raw < b.raw := by
    rw [hids]
    exact ht.increasing
  refine ⟨hincreasing, by rw [hids]; exact ht.below, ?_⟩
  intro name id hindexed
  obtain ⟨e, he, rfl⟩ := ht.indexed name id hindexed
  obtain ⟨hmem, rfl⟩ := mem_of_get? he
  refine ⟨g e, ?_, hname e hmem⟩
  rw [← hid e hmem]
  exact find?_id_of_mem hincreasing (List.mem_map_of_mem hmem)

theorem GrowsTo.mapEntities {t₀ : Table} (h : t₀.GrowsTo t)
    (hg : ∀ e ∈ t.entities, e.Becomes (g e)) : t₀.GrowsTo (t.mapEntities g) where
  names := h.names
  nextId := h.nextId
  kept := by
    intro i e he
    obtain ⟨e', he', hbecomes⟩ := h.kept i e he
    refine ⟨g e', ?_, hbecomes.trans (hg e' (List.mem_of_getElem? he'))⟩
    simp [Table.mapEntities, he']
  added := by
    intro i c hi hc
    simp only [Table.mapEntities, List.getElem?_map, Option.map_eq_some_iff] at hc
    obtain ⟨c', hc', rfl⟩ := hc
    exact (h.added i c' hi hc').becomes (hg c' (List.mem_of_getElem? hc'))

/-- An assignment to a field that is there. -/
theorem becomes_setField (ht : t.Valid) {id : EntityId} {e₀ : Entity} {name : String}
    (he₀ : t.get? id = some e₀) (hname : e₀.fields.contains name = true) (v : Value) :
    ∀ e ∈ t.entities, e.Becomes (if e.id = id then e.setField name v else e) := by
  intro e he
  split
  · rename_i hid
    have hfound := ht.get?_id he
    rw [hid, he₀] at hfound
    cases hfound
    exact .setField hname v
  · exact .refl e

theorem becomes_destroy (id : EntityId) : ∀ e ∈ t.entities,
    e.Becomes (if e.id = id then { e with destroyed := true } else e) := by
  intro e _
  split
  · exact .destroy e
  · exact .refl e

end Map

/-! ## Adding a copy -/

section Copy

variable {t : Table} {source : EntityId} {e : Entity}

theorem copy_found (he : t.get? source = some e) : (t.copy source).2 = { t with
    entities := t.entities ++ [{ e with id := ⟨t.nextId⟩, destroyed := false }]
    nextId := t.nextId + 1 } := by
  rw [copy, he]

theorem Valid.copy (ht : t.Valid) (he : t.get? source = some e) : (t.copy source).2.Valid := by
  rw [copy_found he]
  constructor
  · simp only [ids, List.map_append, List.map_cons, List.map_nil, List.pairwise_append]
    refine ⟨ht.increasing, List.pairwise_singleton _ _, ?_⟩
    intro a ha b hb
    rw [List.mem_singleton.mp hb]
    exact ht.below a ha
  · intro id hid
    simp only [ids, List.map_append, List.map_cons, List.map_nil, List.mem_append,
      List.mem_singleton] at hid
    rcases hid with hid | rfl
    · exact Nat.lt_succ_of_lt (ht.below id hid)
    · exact Nat.lt_succ_self _
  · intro name id hid
    obtain ⟨x, hx, hname⟩ := ht.indexed name id hid
    refine ⟨x, ?_, hname⟩
    unfold Table.get? at hx ⊢
    rw [List.find?_append, hx]
    rfl

theorem GrowsTo.copy {t₀ : Table} (h : t₀.GrowsTo t) (ht₀ : t₀.Valid) (ht : t.Valid)
    {name : String} (hname : t.idOf? name = some source) (he : t.get? source = some e) :
    t₀.GrowsTo (t.copy source).2 := by
  have hlength := h.length_le
  rw [copy_found he]
  refine ⟨h.names, Nat.le_succ_of_le h.nextId, ?_, ?_⟩
  · intro i x hx
    obtain ⟨x', hx', hbecomes⟩ := h.kept i x hx
    have hi : i < t.entities.length := (List.getElem?_eq_some_iff.mp hx').1
    exact ⟨x', by rw [List.getElem?_append_left hi]; exact hx', hbecomes⟩
  · intro i c hi hc
    by_cases hold : i < t.entities.length
    · rw [List.getElem?_append_left hold] at hc
      exact h.added i c hi hc
    · -- the one behind all others is the copy of what `source` has become
      rw [List.getElem?_append_right (by omega)] at hc
      have hcopy := List.mem_singleton.mp (List.mem_of_getElem? hc)
      have hdeclared : t₀.idOf? name = some source := by
        unfold idOf? at hname ⊢
        rw [← h.names]
        exact hname
      obtain ⟨e₀, he₀, hname₀⟩ := ht₀.indexed name source hdeclared
      obtain ⟨e', he', hbecomes⟩ := h.get? ht he₀
      rw [he] at he'
      cases he'
      rw [hcopy]
      exact ⟨h.nextId, name, source, e₀, hdeclared, he₀, hname₀,
        hbecomes.name.trans hname₀, hbecomes.fieldNames, hbecomes.events⟩

end Copy

end Table

/-! ## Running events -/

namespace World

/-- What running events keep of a table `t`: it is in order, and has grown from `t`. -/
theorem shape_kept {t : Table} (ht : t.Valid) :
    Kept fun w => w.table.Valid ∧ t.GrowsTo w.table where
  change := by
    rintro w w' hc ⟨hvalid, hgrown⟩
    cases hc with
    | assign v he hf =>
      have hbecomes := Table.becomes_setField hvalid he hf v
      exact ⟨hvalid.mapEntities (fun e he => (hbecomes e he).id) fun e he => (hbecomes e he).name,
        hgrown.mapEntities hbecomes⟩
    | destroy id =>
      have hbecomes := Table.becomes_destroy (t := w.table) id
      exact ⟨hvalid.mapEntities (fun e he => (hbecomes e he).id) fun e he => (hbecomes e he).name,
        hgrown.mapEntities hbecomes⟩
    | @copy name source hname =>
      obtain ⟨e, he, _⟩ := hvalid.indexed name source hname
      exact ⟨hvalid.copy he, hgrown.copy ht hvalid hname he⟩
    | send | subscribe | unsubscribe | host => exact ⟨hvalid, hgrown⟩
  pop := fun _ _ _ _ hw => hw
  report := fun _ _ hw => hw

/-- **Programs do not change the shape of the table.** After any number of turns of a drain
and after a call, however they end, a table in order is still in order; its index of names
is the same; each entity is at its place with its identity, name, events and field names,
and destroyed if it was; and the entities behind them are copies of declared ones, with
identities from the next free one on. -/
theorem table_shape_kept (w : World) (h : w.table.Valid) :
    (∀ budget, (w.drain budget).2.table.Valid ∧ w.table.GrowsTo (w.drain budget).2.table) ∧
    (∀ target event args, (w.call target event args).2.table.Valid ∧
      w.table.GrowsTo (w.call target event args).2.table) := by
  have hkept := shape_kept h
  have hstart : w.table.Valid ∧ w.table.GrowsTo w.table := ⟨h, .refl w.table⟩
  constructor
  · intro budget
    exact hkept.drainFrom budget {} hstart
  · intro target event args
    exact hkept.call target event args hstart

/-- An entity that is about to add a copy of itself to its pool and to destroy itself. -/
def phoenix : World where
  table := ⟨[⟨⟨0⟩, "phoenix", .ofList [("young", .pool [])], ⟨[⟨"burn", [],
      [.emit (.named "young") "add" [.literal (.string "phoenix")],
        .emit .self "destroy" []]⟩]⟩, false⟩],
    .ofList [("phoenix", ⟨0⟩)], 1⟩
  queue := Queue.empty.push ⟨⟨0⟩, "burn", []⟩

theorem phoenix_valid : phoenix.table.Valid where
  increasing := by decide
  below := by decide
  indexed := by
    intro name id hid
    have hfound : (if "phoenix" = name then some (⟨0⟩ : EntityId) else none) = some id := hid
    split at hfound
    · rename_i hname
      cases hfound
      exact ⟨_, rfl, hname⟩
    · cases hfound

theorem table_shape_kept_phoenix :
    phoenix.table.Valid ∧
    (phoenix.drain 1).2.table.entities.map (fun e => (e.id, e.destroyed)) =
      [(⟨0⟩, true), (⟨1⟩, false)] ∧
    (phoenix.drain 1).2.table.Valid ∧ phoenix.table.GrowsTo (phoenix.drain 1).2.table := by
  refine ⟨phoenix_valid, ?_, (table_shape_kept phoenix phoenix_valid).1 1⟩
  decide

end World

end EntityScript
