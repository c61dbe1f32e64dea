import EntityScript.Proofs.Simulation.Reloading

/-! # The table through its history

Whatever happens to a table, it stays valid, and no identity is ever given out again: one that
was used up denotes what it denoted, or nothing any more, and comes into the index of names in
the moment when it is given out or never (`Table.Precedes`). Both are shown of declaring, copying
and discarding entities, of all requests to a simulation, and by induction of all that can
happen one after another (`World.moves_follow`). -/

namespace EntityScript

namespace Table

/-! ## Earlier and later tables -/

/-- The table `t'` comes after `t`: of the identities that were used up in `t` no other denotes
an entity, and no other is in the index. -/
structure Precedes (t t' : Table) : Prop where
  nextId : t.nextId ≤ t'.nextId
  denotes : ∀ id, id.raw < t.nextId → (t'.get? id).isSome → (t.get? id).isSome
  indexed : ∀ name id, id.raw < t.nextId → t'.idOf? name = some id → t.idOf? name = some id

theorem Precedes.refl (t : Table) : t.Precedes t :=
  ⟨Nat.le_refl _, fun _ _ h => h, fun _ _ _ h => h⟩

theorem Precedes.trans {t₁ t₂ t₃ : Table} (h : t₁.Precedes t₂) (h' : t₂.Precedes t₃) :
    t₁.Precedes t₃ where
  nextId := Nat.le_trans h.nextId h'.nextId
  denotes := by
    intro id hid hdenotes
    exact h.denotes id hid (h'.denotes id (Nat.lt_of_lt_of_le hid h.nextId) hdenotes)
  indexed := by
    intro name id hid hindexed
    exact h.indexed name id hid (h'.indexed name id (Nat.lt_of_lt_of_le hid h.nextId) hindexed)

/-- The table `t'` is valid and comes after `t`. -/
structure Follows (t t' : Table) : Prop where
  valid : t'.Valid
  precedes : t.Precedes t'

variable {t t' : Table}

theorem Valid.raw_lt (h : t.Valid) {id : EntityId} {e : Entity} (he : t.get? id = some e) :
    id.raw < t.nextId := by
  obtain ⟨hmem, rfl⟩ := mem_of_get? he
  exact h.below _ (List.mem_map_of_mem hmem)

/-- It is enough that each old identity of `t'` was one of `t`. -/
theorem Valid.precedes (h : t.Valid) (hnext : t.nextId ≤ t'.nextId)
    (hids : ∀ id ∈ t'.ids, id.raw < t.nextId → id ∈ t.ids)
    (hindexed : ∀ name id, id.raw < t.nextId → t'.idOf? name = some id → t.idOf? name = some id) :
    t.Precedes t' where
  nextId := hnext
  denotes := by
    intro id hid hdenotes
    obtain ⟨e', he'⟩ := Option.isSome_iff_exists.mp hdenotes
    obtain ⟨hmem', rfl⟩ := mem_of_get? he'
    obtain ⟨e, he, heq⟩ := List.mem_map.mp (hids _ (List.mem_map_of_mem hmem') hid)
    rw [← heq, h.get?_id he]
    rfl
  indexed := hindexed

/-! ## Changing entities -/

theorem Valid.follows_mapEntities (h : t.Valid) {g : Entity → Entity}
    (hid : ∀ e ∈ t.entities, (g e).id = e.id) (hname : ∀ e ∈ t.entities, (g e).name = e.name) :
    t.Follows (t.mapEntities g) where
  valid := h.mapEntities hid hname
  precedes := by
    refine h.precedes (Nat.le_refl _) ?_ (fun _ _ _ hindexed => hindexed)
    intro id hmem _
    rwa [ids_mapEntities hid] at hmem

/-! ## Running events -/

theorem GrowsTo.precedes (h : t.GrowsTo t') (ht : t.Valid) : t.Precedes t' := by
  refine ht.precedes h.nextId ?_ ?_
  · intro id hmem hid
    obtain ⟨e', he', rfl⟩ := List.mem_map.mp hmem
    obtain ⟨i, hi⟩ := List.mem_iff_getElem?.mp he'
    by_cases hold : i < t.entities.length
    · obtain ⟨x, hx, hbecomes⟩ := h.kept i _ (List.getElem?_eq_getElem hold)
      cases hi.symm.trans hx
      rw [hbecomes.id]
      exact List.mem_map_of_mem (List.getElem_mem hold)
    · have hfresh := (h.added i e' (by omega) hi).fresh
      omega
  · intro name id _ hindexed
    unfold idOf? at hindexed ⊢
    rwa [h.names] at hindexed

/-! ## Declaring -/

section Declaring

variable {ds : List Declaration}

theorem Declares.ids_eq (h : t.Declares ds t') :
    t'.ids = t.ids ++ ds.mapIdx fun i _ => (⟨t.nextId + i⟩ : EntityId) := by
  unfold ids
  rw [h.entities, List.map_append]
  exact congrArg _ (List.ext_getElem (by simp) (by simp [Declaration.entity]))

theorem Declares.idOf?_old_or_new (h : t.Declares ds t') {name : String} {id : EntityId}
    (hid : t'.idOf? name = some id) : t.idOf? name = some id ∨
      ∃ e ∈ t'.entities, e.id = id ∧ e.name = name ∧ t.nextId ≤ id.raw := by
  have hmem := OrderedMap.mem_of_lookup hid
  rw [h.names] at hmem
  rcases List.mem_append.mp hmem with hold | hnew
  · exact .inl (OrderedMap.lookup_of_mem t.names.nodup hold)
  · obtain ⟨i, hi, heq⟩ := List.mem_mapIdx.mp hnew
    cases heq
    refine .inr ⟨ds[i].entity (t.nextId + i), ?_, rfl, rfl, Nat.le_add_right _ _⟩
    rw [h.entities]
    exact List.mem_append_right _ (List.mem_mapIdx.mpr ⟨i, hi, rfl⟩)

theorem Valid.declares (ht : t.Valid) (h : t.Declares ds t') : t'.Valid := by
  have hids := h.ids_eq
  have hincreasing : t'.ids.Pairwise fun a b => a.raw < b.raw := by
    rw [hids, List.pairwise_append]
    refine ⟨ht.increasing, ?_, ?_⟩
    · rw [List.pairwise_iff_getElem]
      intro i j _ _ hlt
      simpa using hlt
    · intro a ha b hb
      obtain ⟨i, _, rfl⟩ := List.mem_mapIdx.mp hb
      exact Nat.lt_of_lt_of_le (ht.below a ha) (Nat.le_add_right _ _)
  refine ⟨hincreasing, ?_, ?_⟩
  · intro id hid
    rw [hids] at hid
    rw [h.nextId]
    rcases List.mem_append.mp hid with hold | hnew
    · exact Nat.lt_of_lt_of_le (ht.below id hold) (Nat.le_add_right _ _)
    · obtain ⟨i, hi, rfl⟩ := List.mem_mapIdx.mp hnew
      exact Nat.add_lt_add_left hi _
  · intro name id hid
    rcases h.idOf?_old_or_new hid with hold | ⟨e, he, rfl, hname, _⟩
    · obtain ⟨e, he, hname⟩ := ht.indexed name id hold
      obtain ⟨hmem, rfl⟩ := mem_of_get? he
      refine ⟨e, find?_id_of_mem hincreasing ?_, hname⟩
      rw [h.entities]
      exact List.mem_append_left _ hmem
    · exact ⟨e, find?_id_of_mem hincreasing he, hname⟩

theorem Declares.follows (h : t.Declares ds t') (ht : t.Valid) : t.Follows t' where
  valid := ht.declares h
  precedes := by
    refine ht.precedes (by rw [h.nextId]; exact Nat.le_add_right _ _) ?_ ?_
    · intro id hmem hid
      rw [h.ids_eq] at hmem
      rcases List.mem_append.mp hmem with hold | hnew
      · exact hold
      · obtain ⟨i, _, rfl⟩ := List.mem_mapIdx.mp hnew
        exact absurd hid (Nat.not_lt.mpr (Nat.le_add_right _ _))
    · intro name id hid hindexed
      rcases h.idOf?_old_or_new hindexed with hold | ⟨_, _, _, _, hnew⟩
      · exact hold
      · omega

end Declaring

/-! ## Copying -/

theorem Valid.follows_copy (h : t.Valid) (source : EntityId) : t.Follows (t.copy source).2 := by
  cases he : t.get? source with
  | none =>
    have hcopy : (t.copy source).2 = { t with nextId := t.nextId + 1 } := by rw [Table.copy, he]
    rw [hcopy]
    refine ⟨⟨h.increasing, fun id hid => Nat.lt_succ_of_lt (h.below id hid), h.indexed⟩, ?_⟩
    exact h.precedes (Nat.le_succ _) (fun _ hmem _ => hmem) (fun _ _ _ hindexed => hindexed)
  | some e =>
    refine ⟨h.copy he, ?_⟩
    rw [copy_found he]
    refine h.precedes (Nat.le_succ _) ?_ (fun _ _ _ hindexed => hindexed)
    intro id hmem hid
    rw [ids, List.map_append] at hmem
    rcases List.mem_append.mp hmem with hold | hnew
    · exact hold
    · rw [List.mem_singleton.mp hnew] at hid
      exact absurd hid (Nat.lt_irrefl _)

/-! ## Discarding -/

theorem discard_eq_some_iff {id : EntityId} {e : Entity} :
    t.discard id = some (e, t') ↔ t.get? id = some e ∧ t' = { t with
      entities := t.entities.filter fun x => x.id != id
      names := if t.idOf? e.name = some id then t.names.erase e.name else t.names } := by
  unfold discard
  rw [Option.map_eq_some_iff]
  constructor
  · rintro ⟨x, hx, heq⟩
    cases heq
    exact ⟨hx, rfl⟩
  · rintro ⟨he, rfl⟩
    exact ⟨e, he, rfl⟩

/-- No name is led elsewhere, and the identity that is discarded leaves the index. -/
theorem idOf?_of_discard (h : t.Valid) {id : EntityId} {e : Entity}
    (hd : t.discard id = some (e, t')) {name : String} {other : EntityId}
    (hname : t'.idOf? name = some other) : t.idOf? name = some other ∧ other ≠ id := by
  obtain ⟨he, rfl⟩ := discard_eq_some_iff.mp hd
  have hsame : t.idOf? name = some id → e.name = name := by
    intro hid
    obtain ⟨x, hx, hxname⟩ := h.indexed name id hid
    cases he.symm.trans hx
    exact hxname
  unfold idOf? at hname
  dsimp only at hname
  split at hname
  · rw [OrderedMap.get?_erase] at hname
    split at hname
    · cases hname
    · rename_i hne
      refine ⟨hname, ?_⟩
      rintro rfl
      exact hne (hsame hname)
  · rename_i hother
    refine ⟨hname, ?_⟩
    rintro rfl
    exact hother (hsame hname ▸ hname)

theorem Valid.follows_discard (h : t.Valid) {id : EntityId} {e : Entity}
    (hd : t.discard id = some (e, t')) : t.Follows t' ∧ t'.get? id = none := by
  have hindex : ∀ name other, t'.idOf? name = some other → t.idOf? name = some other ∧ other ≠ id :=
    fun _ _ => idOf?_of_discard h hd
  obtain ⟨he, rfl⟩ := discard_eq_some_iff.mp hd
  have hsublist : ((t.entities.filter fun x => x.id != id).map Entity.id).Sublist t.ids :=
    List.filter_sublist.map Entity.id
  have hincreasing := h.increasing.sublist hsublist
  refine ⟨⟨⟨hincreasing, fun x hx => h.below x (hsublist.mem hx), ?_⟩, ?_⟩, ?_⟩
  · intro name other hname
    obtain ⟨hold, hne⟩ := hindex name other hname
    obtain ⟨x, hx, hxname⟩ := h.indexed name other hold
    obtain ⟨hmem, rfl⟩ := mem_of_get? hx
    exact ⟨x, find?_id_of_mem hincreasing (List.mem_filter.mpr ⟨hmem, by simpa using hne⟩), hxname⟩
  · exact h.precedes (Nat.le_refl _) (fun _ hmem _ => hsublist.mem hmem)
      fun name other _ hname => (hindex name other hname).1
  · unfold get?
    rw [List.find?_eq_none]
    intro x hx heq
    have hne := (List.mem_filter.mp hx).2
    simp only [bne, heq] at hne
    cases hne

/-- The index is touched only for the identity that it has under the name. -/
theorem names_of_discard {id : EntityId} {e : Entity} (hd : t.discard id = some (e, t'))
    (hname : t.idOf? e.name ≠ some id) : t'.names = t.names := by
  obtain ⟨_, rfl⟩ := discard_eq_some_iff.mp hd
  exact if_neg hname

theorem Follows.refl (h : t.Valid) : t.Follows t := ⟨h, .refl t⟩

theorem Follows.trans {t₁ t₂ t₃ : Table} (h : t₁.Follows t₂) (h' : t₂.Follows t₃) :
    t₁.Follows t₃ :=
  ⟨h'.valid, h.precedes.trans h'.precedes⟩

end Table

/-- Bringing declarations in leads to a later table. -/
theorem Replacement.Brought.follows {t : Table} {ds : List Declaration} {r : Replacement}
    (h : Brought t ds r) (ht : t.Valid) : t.Follows r.table := by
  have hrevised := ht.follows_mapEntities (g := t.revise ds) (fun e _ => t.revise_id ds e)
    (fun e _ => t.revise_name ds e)
  exact hrevised.trans (h.table.follows hrevised.valid)

namespace World

/-! ## Requests -/

variable {w : World}

/-- Running events leads to a later table. -/
theorem follows_of_shape (h : w.table.Valid) {w' : World}
    (hshape : w'.table.Valid ∧ w.table.GrowsTo w'.table) : w.table.Follows w'.table :=
  ⟨hshape.1, hshape.2.precedes h⟩

theorem broadcast_follows (h : w.table.Valid) (budget : Nat) (ids : List EntityId) (event : String)
    (args : List Value) : w.table.Follows (w.broadcast budget ids event args).2.table :=
  follows_of_shape h ((shape_kept h).broadcast budget ids event args ⟨h, .refl _⟩)

theorem sweep_follows (h : w.table.Valid) : w.table.Follows w.sweep.2.table :=
  h.follows_mapEntities (fun _ _ => rfl) (fun _ _ => rfl)

/-- The state `w'` comes about from `w` by changing the table to a later one and then sending
everybody concerned an event and draining. -/
def TakesIn (w w' : World) (budget : Nat) : Prop :=
  ∃ table ids event, w.table.Follows table ∧
    w' = (({ w with table := table } : World).broadcast budget ids event []).2

theorem TakesIn.follows {w' : World} {budget : Nat} (h : w.TakesIn w' budget) :
    w.table.Follows w'.table := by
  obtain ⟨table, ids, event, hfollows, rfl⟩ := h
  exact hfollows.trans (broadcast_follows (w := { w with table := table }) hfollows.valid _ _ _ _)

theorem load_takesIn (h : w.table.Valid) (budget : Nat) (source : String) :
    (w.load budget source).2 = w ∨ w.TakesIn (w.load budget source).2 budget := by
  cases hparse : Program.parse source with
  | error fault =>
    rw [load_refused w budget hparse]
    exact .inl rfl
  | ok p =>
    by_cases htaken : ∃ d ∈ p.declarations, (w.table.idOf? d.name).isSome
    · obtain ⟨d, hd, hname⟩ := htaken
      obtain ⟨fault, hload⟩ := load_taken w budget hparse hd hname
      rw [hload]
      exact .inl rfl
    · have hfree : ∀ d ∈ p.declarations, w.table.idOf? d.name = none := by
        intro d hd
        rw [← Option.not_isSome_iff_eq_none]
        exact fun hname => htaken ⟨d, hd, hname⟩
      have hfind : p.declarations.find? (fun d => (w.table.idOf? d.name).isSome) = none := by
        rw [List.find?_eq_none]
        exact fun d hd hname => htaken ⟨d, hd, hname⟩
      obtain ⟨table, hall, hdeclared⟩ :=
        Table.declareAll_free (Program.names_nodup hparse) hfree
      refine .inr ⟨table, p.declarations.mapIdx fun i _ => ⟨w.table.nextId + i⟩,
        w.settings.initEvent, hdeclared.follows h, ?_⟩
      simp only [load, hparse, hfind, hall]

theorem load_follows (h : w.table.Valid) (budget : Nat) (source : String) :
    w.table.Follows (w.load budget source).2.table := by
  rcases w.load_takesIn h budget source with heq | htaken
  · rw [heq]
    exact .refl h
  · exact htaken.follows

theorem reload_takesIn (h : w.table.Valid) (budget : Nat) (source : String) :
    (w.reload budget source).2 = w ∨ w.TakesIn (w.reload budget source).2 budget := by
  cases hparse : Program.parse source with
  | error fault =>
    rw [reload_refused w budget hparse]
    exact .inl rfl
  | ok p =>
    obtain ⟨r, cycle, w', hbrought, hreload, hcycle⟩ := w.reload_eq budget hparse
    refine .inr ⟨r.table, r.fresh, w.settings.initEvent, hbrought.follows h, ?_⟩
    rw [hreload, hcycle]

theorem reload_follows (h : w.table.Valid) (budget : Nat) (source : String) :
    w.table.Follows (w.reload budget source).2.table := by
  rcases w.reload_takesIn h budget source with heq | htaken
  · rw [heq]
    exact .refl h
  · exact htaken.follows

theorem pulse_follows (h : w.table.Valid) (budget : Nat) (elapsed : Float) :
    w.table.Follows (w.pulse budget elapsed).2.table := by
  have hrun := broadcast_follows h budget w.table.ids w.settings.tickEvent [.number elapsed]
  unfold pulse
  dsimp only
  split
  · exact hrun.trans (sweep_follows hrun.valid)
  · exact hrun

theorem table_resubscribe (w : World) (r : Except Fault Subscriptions) :
    (w.resubscribe r).table = w.table := by
  cases r <;> rfl

/-- Whether the host replaces the table as a whole. -/
def Request.editsTable : Request → Bool
  | .editTable _ => true
  | _ => false

theorem serve_follows (h : w.table.Valid) (r : Request) (hr : r.editsTable = false) :
    w.table.Follows (w.serve r).table := by
  have hstart : w.table.Valid ∧ w.table.GrowsTo w.table := ⟨h, .refl _⟩
  cases r with
  | send m => exact .refl h
  | sendNamed name event args =>
    exact follows_of_shape h ((shape_kept h).sendNamed name event args hstart)
  | drain budget => exact follows_of_shape h ((shape_kept h).drainFrom budget {} hstart)
  | call target event args =>
    exact follows_of_shape h ((shape_kept h).call target event args hstart)
  | subscribe | unsubscribe =>
    rw [serve, table_resubscribe]
    exact .refl h
  | sweep => exact sweep_follows h
  | load budget source => exact load_follows h budget source
  | pulse budget elapsed => exact pulse_follows h budget elapsed
  | reload budget source => exact reload_follows h budget source
  | editTable table => cases hr
  | editHost host => exact .refl h

/-! ## Histories -/

/-- What can happen to a table: the host declares, copies or discards an entity, or asks
anything of the simulation. -/
inductive Move where
  | declare (name : String) (fields : Scope) (events : List Event)
  | copy (source : EntityId)
  | discard (id : EntityId)
  | request (r : Request) (hr : r.editsTable = false)

/-- The state after a move. What is refused changes nothing, but a copy uses up an identity. -/
def move (w : World) : Move → World
  | .declare name fields events =>
    match w.table.declare name fields events with
    | .ok (_, table) => { w with table := table }
    | .error _ => w
  | .copy source => { w with table := (w.table.copy source).2 }
  | .discard id =>
    match w.table.discard id with
    | some (_, table) => { w with table := table }
    | none => w
  | .request r _ => w.serve r

/-- The state after some moves, one after another. -/
def moves (w : World) (ms : List Move) : World := ms.foldl move w

theorem declare_follows (h : w.table.Valid) (name : String) (fields : Scope)
    (events : List Event) : w.table.Follows (w.move (.declare name fields events)).table := by
  cases hid : w.table.idOf? name with
  | none =>
    obtain ⟨table, hdeclare, hdeclared⟩ :=
      Table.declare_free (d := ⟨name, fields, events⟩) hid
    simp only [move, hdeclare]
    exact hdeclared.follows h
  | some id =>
    have htaken : w.table.names.contains name = true := by
      simpa [OrderedMap.contains, Table.idOf?] using congrArg Option.isSome hid
    simp only [move, Table.declare, htaken, if_true]
    exact .refl h

theorem table_move_discard {id : EntityId} {e : Entity} {t : Table}
    (h : w.table.discard id = some (e, t)) : (w.move (.discard id)).table = t := by
  simp only [move, h]

theorem move_follows (h : w.table.Valid) (m : Move) : w.table.Follows (w.move m).table := by
  cases m with
  | declare name fields events => exact declare_follows h name fields events
  | copy source => exact h.follows_copy source
  | discard id =>
    cases hd : w.table.discard id with
    | none =>
      simp only [move, hd]
      exact .refl h
    | some x =>
      rw [table_move_discard hd]
      exact (h.follows_discard hd).1
  | request r hr => exact serve_follows h r hr

theorem moves_follow (h : w.table.Valid) (ms : List Move) :
    w.table.Follows (w.moves ms).table := by
  induction ms generalizing w with
  | nil => exact .refl h
  | cons m ms ih =>
    have hone := move_follows h m
    exact hone.trans (ih hone.valid)

/-! ## Copies stay out of the index -/

/-- Whether a move can declare entities. -/
def Move.declares : Move → Bool
  | .declare .. => true
  | .request (.load ..) _ => true
  | .request (.reload ..) _ => true
  | _ => false

theorem pulse_names (w : World) (budget : Nat) (elapsed : Float) :
    (w.pulse budget elapsed).2.table.names = w.table.names := by
  have hrun := (names_kept w.table.names).broadcast budget w.table.ids w.settings.tickEvent
    [.number elapsed] rfl
  unfold pulse
  dsimp only
  split <;> exact hrun

theorem serve_names (w : World) {r : Request} {hr : r.editsTable = false}
    (hm : (Move.request r hr).declares = false) : (w.serve r).table.names = w.table.names := by
  have hkept := names_kept w.table.names
  cases r with
  | send m => rfl
  | sendNamed name event args => exact hkept.sendNamed name event args rfl
  | drain budget => exact hkept.drainFrom budget {} rfl
  | call target event args => exact hkept.call target event args rfl
  | subscribe | unsubscribe => rw [serve, table_resubscribe]
  | sweep => rfl
  | pulse budget elapsed => exact w.pulse_names budget elapsed
  | editHost host => rfl
  | editTable table => cases hr
  | load | reload => cases hm

/-- A move that declares nothing puts nothing into the index. -/
theorem idOf?_of_move (h : w.table.Valid) {m : Move} (hm : m.declares = false) {name : String}
    {id : EntityId} (hid : (w.move m).table.idOf? name = some id) :
    w.table.idOf? name = some id := by
  cases m with
  | declare => cases hm
  | copy source =>
    simp only [move, Table.copy] at hid
    split at hid <;> exact hid
  | discard x =>
    cases hd : w.table.discard x with
    | none =>
      simp only [move, hd] at hid
      exact hid
    | some y =>
      rw [table_move_discard hd] at hid
      exact (Table.idOf?_of_discard h hd hid).1
  | request r hr =>
    simp only [move, Table.idOf?, w.serve_names hm] at hid
    exact hid

/-- What is in the table without being in the index never comes into the index, so that
discarding it leaves the index alone. -/
theorem names_of_discard_after (h : w.table.Valid) {id : EntityId} {e : Entity}
    (he : w.table.get? id = some e) (hid : ∀ name, w.table.idOf? name ≠ some id)
    (later : List Move) {x : Entity} {t : Table}
    (hd : (w.moves later).table.discard id = some (x, t)) : t.names = (w.moves later).table.names :=
  Table.names_of_discard hd fun hindexed =>
    hid _ ((moves_follow h later).precedes.indexed _ id (h.raw_lt he) hindexed)

/-- **The table is in order in every state that can be reached** from the empty table, whatever
is declared, copied, discarded, run, loaded, reloaded and swept. Each entity is found by its
identity, which is below the next free one, and identities increase; a name of the index leads
to an entity of that name, and two names never to one. Discarding what the index does not have
under its name leaves the index alone, and so it does, at any later time, for what came in
without being declared. A discarded identity never denotes an entity again. -/
theorem table_exact_after (w : World) (ms : List Move) :
    let w' := ({ w with table := .empty } : World).moves ms
    (∀ e ∈ w'.table.entities, w'.table.get? e.id = some e ∧ e.id.raw < w'.table.nextId) ∧
    (∀ id e, w'.table.get? id = some e → e.id = id) ∧
    w'.table.ids.Pairwise (fun a b => a.raw < b.raw) ∧
    (∀ name id, w'.table.idOf? name = some id → ∃ e, w'.table.get? id = some e ∧ e.name = name) ∧
    (∀ name name' id, w'.table.idOf? name = some id → w'.table.idOf? name' = some id →
      name = name') ∧
    (∀ id e t, w'.table.discard id = some (e, t) → w'.table.idOf? e.name ≠ some id →
      t.names = w'.table.names) ∧
    (∀ id, (w'.table.get? id).isSome → (∀ name, w'.table.idOf? name ≠ some id) →
      ∀ later e t, (w'.moves later).table.discard id = some (e, t) →
        t.names = (w'.moves later).table.names) ∧
    (∀ m id, m.declares = false → w'.table.get? id = none →
      ((w'.move m).table.get? id).isSome →
      ∀ later e t, ((w'.move m).moves later).table.discard id = some (e, t) →
        t.names = ((w'.move m).moves later).table.names) ∧
    (∀ id, (w'.table.discard id).isSome →
      ∀ later, ((w'.move (.discard id)).moves later).table.get? id = none) := by
  intro w'
  have hempty : Table.empty.Valid := ⟨.nil, by simp [Table.ids, Table.empty], by
    intro name id hid
    cases hid⟩
  have hvalid : w'.table.Valid :=
    (moves_follow (w := { w with table := .empty }) hempty ms).valid
  refine ⟨?_, fun _ _ he => (Table.mem_of_get? he).2, hvalid.increasing, hvalid.indexed, ?_,
    fun _ _ _ hd hname => Table.names_of_discard hd hname, ?_, ?_, ?_⟩
  · intro e he
    exact ⟨hvalid.get?_id he, hvalid.below _ (List.mem_map_of_mem he)⟩
  · intro name name' id hid hid'
    obtain ⟨e, he, rfl⟩ := hvalid.indexed name id hid
    obtain ⟨e', he', rfl⟩ := hvalid.indexed name' id hid'
    cases he.symm.trans he'
    rfl
  · intro id hid hindexed later e t hd
    obtain ⟨x, hx⟩ := Option.isSome_iff_exists.mp hid
    exact names_of_discard_after hvalid hx hindexed later hd
  · intro m id hm hnew hcame later e t hd
    have hone := move_follows hvalid m
    obtain ⟨x, hx⟩ := Option.isSome_iff_exists.mp hcame
    refine names_of_discard_after hone.valid hx ?_ later hd
    -- an identity of the index was used up before the move, and then it denoted something
    intro name hindexed
    obtain ⟨y, hy, _⟩ := hvalid.indexed name id (idOf?_of_move hvalid hm hindexed)
    rw [hnew] at hy
    cases hy
  · intro id hid later
    obtain ⟨⟨e, t⟩, hd⟩ := Option.isSome_iff_exists.mp hid
    have hone := move_follows hvalid (.discard id)
    have hlater := moves_follow hone.valid later
    obtain ⟨_, hgone⟩ := hvalid.follows_discard hd
    have hused : id.raw < (w'.move (.discard id)).table.nextId :=
      Nat.lt_of_lt_of_le (hvalid.raw_lt (Table.discard_eq_some_iff.mp hd).1) hone.precedes.nextId
    rw [← Option.not_isSome_iff_eq_none]
    intro hback
    have hdenotes := hlater.precedes.denotes id hused hback
    rw [table_move_discard hd, hgone] at hdenotes
    cases hdenotes

/-- An owl is declared and copied, discarded, and declared again while its copy is there. -/
def heirs : List Move :=
  [.declare "owl" .empty [], .copy ⟨0⟩, .discard ⟨0⟩, .declare "owl" .empty []]

theorem table_exact_after_heirs :
    let w' := ({ table := .empty } : World).moves heirs
    w'.table.ids = [⟨1⟩, ⟨2⟩] ∧ w'.table.idOf? "owl" = some ⟨2⟩ ∧ w'.table.get? ⟨0⟩ = none ∧
    (w'.table.discard ⟨1⟩).isSome ∧
    ∀ e t, w'.table.discard ⟨1⟩ = some (e, t) → t.names = w'.table.names := by
  intro w'
  refine ⟨by decide, by decide, by decide, by decide, ?_⟩
  intro e t hd
  obtain ⟨he, _⟩ := Table.discard_eq_some_iff.mp hd
  have hname : w'.table.idOf? e.name ≠ some ⟨1⟩ := by
    cases he
    decide
  exact (table_exact_after {} heirs).2.2.2.2.2.1 ⟨1⟩ e t hd hname

end World

end EntityScript
