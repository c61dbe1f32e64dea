import EntityScript.Proofs.Simulation.Loading
import EntityScript.Proofs.Table.Shape

/-! # What a reload does

A program text replaces the program while it runs. Entities of a name that is declared, copies
included, take over the events of the new declaration and the fields that they lack
(`Entity.TakesOver`); declarations of other names come in behind all entities; nothing else
changes (`Table.Reloads`).

The declarations are brought in one by one, and each changes the table in which the next is
looked up. What holds after some of them is `Replacement.Brought`. It is kept because the names
of a program differ: neither an entity that has just come in nor one that was just updated is
touched again. -/

namespace EntityScript

/-! ## Entities -/

/-- By the declaration `d` the entity `e` has become `e'`: it has exactly the events of `d`, and
behind its own fields, with their values, those of `d` that it lacked. -/
structure Entity.TakesOver (e : Entity) (d : Declaration) (e' : Entity) : Prop where
  id : e'.id = e.id
  name : e'.name = e.name
  destroyed : e'.destroyed = e.destroyed
  events : e'.events = ⟨d.events⟩
  fields : e'.fields.entries =
    e.fields.entries ++ d.fields.entries.filter fun f => !e.fields.contains f.1

theorem Entity.takesOver_update (e : Entity) {d : Declaration}
    (hevents : (d.events.map Event.name).Nodup) : e.TakesOver d (e.update d) where
  id := rfl
  name := rfl
  destroyed := rfl
  events := EventSet.ofList_eq hevents
  fields := by
    refine OrderedMap.entries_insertAll_new ?_ ?_
    · exact d.fields.nodup.sublist (List.filter_sublist.map Prod.fst)
    · intro f hf
      have hlacks := (List.mem_filter.mp hf).2
      simpa [OrderedMap.contains] using hlacks

/-! ## Tables -/

namespace Table

/-- Whether the name of a declaration is in the index. -/
def knows (t : Table) (d : Declaration) : Bool := (t.idOf? d.name).isSome

/-- Of some declarations those whose name is not in the index. -/
def unknown (t : Table) (ds : List Declaration) : List Declaration := ds.filter fun d => !t.knows d

/-- What becomes of an entity of the table `t` by the declarations `ds`. -/
def revise (t : Table) (ds : List Declaration) (e : Entity) : Entity :=
  match ds.find? fun d => d.name == e.name with
  | some d => if t.knows d then e.update d else e
  | none => e

/-- The table `t` has become `t'` by the declarations `ds`: an entity whose name is declared
again, and was in the index, has taken over that declaration; all others are as they were; and
behind them, with identities from the next free one on, is one entity for each declaration
whose name was not in the index. -/
structure Reloads (t : Table) (ds : List Declaration) (t' : Table) : Prop where
  updated : ∀ (i : Nat) e, t.entities[i]? = some e → ∀ d ∈ ds, d.name = e.name →
    t.knows d = true → ∃ e', t'.entities[i]? = some e' ∧ e.TakesOver d e'
  kept : ∀ (i : Nat) e, t.entities[i]? = some e →
    (∀ d ∈ ds, d.name = e.name → t.knows d = false) → t'.entities[i]? = some e
  added : t'.entities.drop t.entities.length = (t.unknown ds).mapIdx fun i d =>
    ⟨⟨t.nextId + i⟩, d.name, d.fields, ⟨d.events⟩, false⟩
  names : t'.names.entries =
    t.names.entries ++ (t.unknown ds).mapIdx fun i d => (d.name, ⟨t.nextId + i⟩)
  nextId : t'.nextId = t.nextId + (t.unknown ds).length

variable {t : Table} {ds : List Declaration}

theorem revise_id (t : Table) (ds : List Declaration) (e : Entity) : (t.revise ds e).id = e.id := by
  unfold revise
  split
  · split <;> rfl
  · rfl

theorem revise_name (t : Table) (ds : List Declaration) (e : Entity) :
    (t.revise ds e).name = e.name := by
  unfold revise
  split
  · split <;> rfl
  · rfl

theorem revise_of_mem (hnames : (ds.map Declaration.name).Nodup) {d : Declaration} (hd : d ∈ ds)
    {e : Entity} (hname : d.name = e.name) :
    t.revise ds e = if t.knows d then e.update d else e := by
  have hfind : ds.find? (fun x => x.name == e.name) = some d := hname ▸ find?_name_of_mem hnames hd
  rw [revise, hfind]

theorem revise_of_not_mem {e : Entity} (h : e.name ∉ ds.map Declaration.name) :
    t.revise ds e = e := by
  have hfind : ds.find? (fun d => d.name == e.name) = none := by
    rw [List.find?_eq_none]
    intro d hd heq
    exact h (eq_of_beq heq ▸ List.mem_map_of_mem hd)
  rw [revise, hfind]

/-- One declaration more concerns the entities of its name only. -/
theorem revise_append {d : Declaration} (hd : d.name ∉ ds.map Declaration.name) (e : Entity) :
    t.revise (ds ++ [d]) e =
      if t.knows d = true ∧ e.name = d.name then (t.revise ds e).update d else t.revise ds e := by
  by_cases hname : e.name = d.name
  · have hfind : (ds ++ [d]).find? (fun x => x.name == e.name) = some d := by
      rw [List.find?_append, List.find?_eq_none.mpr]
      · simp [hname]
      · intro x hx heq
        exact hd (hname ▸ eq_of_beq heq ▸ List.mem_map_of_mem hx)
    have hself : t.revise ds e = e := revise_of_not_mem (hname ▸ hd)
    rw [hself, revise, hfind]
    simp [hname]
  · have hfind : (ds ++ [d]).find? (fun x => x.name == e.name) =
        ds.find? fun x => x.name == e.name := by
      rw [List.find?_append]
      simp [Ne.symm hname]
    rw [revise, hfind, if_neg (by simp [hname])]
    rfl

theorem unknown_append (t : Table) (ds : List Declaration) (d : Declaration) :
    t.unknown (ds ++ [d]) = t.unknown ds ++ if t.knows d then [] else [d] := by
  unfold unknown
  cases h : t.knows d <;> simp [h]

end Table

/-! ## Bringing declarations in -/

/-- What a replacement that started from the table `t` has come to by the declarations `ds`. -/
structure Replacement.Brought (t : Table) (ds : List Declaration) (r : Replacement) : Prop where
  table : (t.mapEntities (t.revise ds)).Declares (t.unknown ds) r.table
  updated : r.updated = (ds.filter t.knows).map Declaration.name
  spawned : r.spawned = (t.unknown ds).map Declaration.name
  fresh : r.fresh = (t.unknown ds).mapIdx fun i _ => ⟨t.nextId + i⟩

namespace Replacement.Brought

variable {t : Table} {ds : List Declaration} {r : Replacement} {d : Declaration}

theorem start (t : Table) : Brought t [] { table := t } where
  table := by
    have hid : t.mapEntities (t.revise []) = t := by
      unfold Table.mapEntities
      rw [show t.revise [] = id from rfl, List.map_id]
    rw [hid]
    exact .nil t
  updated := rfl
  spawned := rfl
  fresh := rfl

/-- A name that has not come yet is in the index exactly if it was there at the start. -/
theorem isSome_idOf? (h : Brought t ds r) (hd : d.name ∉ ds.map Declaration.name) :
    (r.table.idOf? d.name).isSome = t.knows d := by
  have hnew : d.name ∉ (t.unknown ds).map Declaration.name :=
    fun hmem => hd ((List.filter_sublist.map Declaration.name).mem hmem)
  rw [Bool.eq_iff_iff, h.table.isSome_idOf?_iff, or_iff_left hnew]
  rfl

/-- An update of what is known changes the entities that were there, and no new one. -/
theorem update (h : Brought t ds r) (hd : d.name ∉ ds.map Declaration.name)
    (hknown : t.knows d = true) :
    (t.mapEntities (t.revise (ds ++ [d]))).Declares (t.unknown ds) (r.table.update d) where
  entities := by
    have hold : (t.entities.map (t.revise ds)).map
        (fun e => if e.name = d.name then e.update d else e) =
          t.entities.map (t.revise (ds ++ [d])) := by
      rw [List.map_map]
      refine List.map_congr_left fun e _ => ?_
      rw [Table.revise_append hd, Function.comp_apply, Table.revise_name]
      simp [hknown]
    have hnew : ((t.unknown ds).mapIdx fun i x => x.entity (t.nextId + i)).map
        (fun e => if e.name = d.name then e.update d else e) =
        (t.unknown ds).mapIdx fun i x => x.entity (t.nextId + i) := by
      refine (List.map_congr_left ?_).trans (List.map_id _)
      intro e he
      obtain ⟨i, hi, rfl⟩ := List.mem_mapIdx.mp he
      have hmem : (t.unknown ds)[i] ∈ ds := List.mem_of_mem_filter (List.getElem_mem hi)
      have hne : (t.unknown ds)[i].name ≠ d.name :=
        fun heq => hd (heq ▸ List.mem_map_of_mem hmem)
      exact if_neg hne
    show r.table.entities.map _ = _
    rw [h.table.entities, List.map_append]
    exact congrArg₂ (· ++ ·) hold hnew
  names := h.table.names
  nextId := h.table.nextId

/-- One declaration more. -/
theorem add (h : Brought t ds r) (hd : d.name ∉ ds.map Declaration.name) :
    ∃ r', r.add d = .ok r' ∧ Brought t (ds ++ [d]) r' := by
  have hknows := h.isSome_idOf? hd
  have hunknown := t.unknown_append ds d
  unfold Replacement.add
  cases hid : r.table.idOf? d.name with
  | some id =>
    have hknown : t.knows d = true := by rw [← hknows, hid]; rfl
    rw [hknown, if_pos rfl, List.append_nil] at hunknown
    refine ⟨_, rfl, ?_, ?_, ?_, ?_⟩
    · rw [hunknown]
      exact h.update hd hknown
    · rw [h.updated]
      simp [hknown]
    · rw [hunknown]
      exact h.spawned
    · rw [hunknown]
      exact h.fresh
  | none =>
    have hknown : t.knows d = false := by rw [← hknows, hid]; rfl
    rw [hknown, if_neg (by simp)] at hunknown
    obtain ⟨t', hdeclare, hdeclared⟩ := Table.declare_free hid
    simp only [hdeclare]
    have hrevise : t.revise (ds ++ [d]) = t.revise ds := by
      funext e
      rw [Table.revise_append hd, if_neg (by simp [hknown])]
    refine ⟨_, rfl, ?_, ?_, ?_, ?_⟩
    · rw [hunknown, hrevise]
      exact h.table.append hdeclared
    · rw [h.updated]
      simp [hknown]
    · rw [hunknown, h.spawned]
      simp
    · have hnext : r.table.nextId = t.nextId + (t.unknown ds).length := h.table.nextId
      rw [hunknown, h.fresh, hnext]
      simp [List.mapIdx_append]

theorem addAll (h : Brought t ds r) (more : List Declaration)
    (hnames : ((ds ++ more).map Declaration.name).Nodup) :
    ∃ r', r.addAll more = (.ok (), r') ∧ Brought t (ds ++ more) r' := by
  induction more generalizing ds r with
  | nil => exact ⟨r, rfl, by simpa using h⟩
  | cons d more ih =>
    have hd : d.name ∉ ds.map Declaration.name := by
      intro hmem
      rw [List.map_append] at hnames
      exact (List.nodup_append.mp hnames).2.2 _ hmem d.name (by simp) rfl
    obtain ⟨r₁, hadd, hone⟩ := h.add hd
    rw [List.append_cons] at hnames ⊢
    obtain ⟨r', hall, hrest⟩ := ih hone hnames
    exact ⟨r', by simp [Replacement.addAll, hadd, hall], hrest⟩

/-- What the replacement has come to, said of each entity. -/
theorem reloads (h : Brought t ds r) (hnames : (ds.map Declaration.name).Nodup)
    (hevents : ∀ d ∈ ds, (d.events.map Event.name).Nodup) : t.Reloads ds r.table := by
  have hentities := h.table.entities
  have hold : ∀ (i : Nat) e, t.entities[i]? = some e →
      r.table.entities[i]? = some (t.revise ds e) := by
    intro i e he
    have hi : i < t.entities.length := (List.getElem?_eq_some_iff.mp he).1
    rw [hentities, List.getElem?_append_left (by simpa [Table.mapEntities] using hi)]
    simp [Table.mapEntities, he]
  refine ⟨?_, ?_, ?_, h.table.names, h.table.nextId⟩
  · intro i e he d hd hname hknown
    refine ⟨_, hold i e he, ?_⟩
    rw [Table.revise_of_mem hnames hd hname, if_pos hknown]
    exact e.takesOver_update (hevents d hd)
  · intro i e he hnone
    rw [hold i e he]
    by_cases hmem : e.name ∈ ds.map Declaration.name
    · obtain ⟨d, hd, hname⟩ := List.mem_map.mp hmem
      rw [Table.revise_of_mem hnames hd hname, hnone d hd hname]
      rfl
    · rw [Table.revise_of_not_mem hmem]
  · have hlength : (t.mapEntities (t.revise ds)).entities.length = t.entities.length := by
      simp [Table.mapEntities]
    rw [hentities, ← hlength, List.drop_left]
    exact Declaration.mapIdx_entity (fun d hd => hevents d (List.mem_of_mem_filter hd)) t.nextId

end Replacement.Brought

/-! ## Sending to those that handle an event -/

/-- Whether an entity is live and has the event. -/
def Table.handles (t : Table) (event : String) (id : EntityId) : Bool :=
  (t.get? id).any fun e => !e.destroyed && (e.event? event).isSome

namespace World

/-- Send an event to some entities, one after another. -/
def sendEach (w : World) (event : String) (args : List Value) (ids : List EntityId) : World :=
  ids.foldl (fun w id => (w.send ⟨id, event, args⟩).2) w

theorem offer_eq (w : World) (id : EntityId) (event : String) (args : List Value) :
    (w.offer id event args).2 =
      if w.table.handles event id then (w.send ⟨id, event, args⟩).2 else w := by
  unfold offer Table.handles
  cases w.table.get? id with
  | none => rfl
  | some e =>
    cases hdestroyed : e.destroyed with
    | true => simp [hdestroyed]
    | false =>
      cases hevent : e.event? event with
      | none => simp [hevent]
      | some handler =>
        simp only [hdestroyed, hevent, Option.isNone_some, Bool.or_self, Bool.false_eq_true,
          if_false, Option.any_some, Option.isSome_some, Bool.not_false, Bool.and_self, if_true]
        split <;> rename_i hsend <;> rw [hsend]

/-- Only those that are live and have the event are sent it. -/
theorem offerAll_eq (w : World) (ids : List EntityId) (event : String) (args : List Value) :
    (w.offerAll ids event args).2 = w.sendEach event args (ids.filter (w.table.handles event)) := by
  induction ids generalizing w with
  | nil => rfl
  | cons id ids ih =>
    have htable : (w.offer id event args).2.table = w.table := by
      rw [offer_eq]
      split <;> rfl
    show ((w.offer id event args).2.offerAll ids event args).2 = _
    rw [ih, htable, offer_eq]
    cases hhandles : w.table.handles event id with
    | true => simp [hhandles, sendEach]
    | false => simp [hhandles]

theorem reload_eq (w : World) (budget : Nat) {source : String} {p : Program}
    (hparse : Program.parse source = .ok p) :
    ∃ (r : Replacement) (cycle : CycleReport) (w' : World),
      Replacement.Brought w.table p.declarations r ∧
      w.reload budget source = (.ok ⟨r.updated, r.spawned, cycle⟩, w') ∧
      World.broadcast { w with table := r.table } budget r.fresh w.settings.initEvent [] =
        (cycle, w') := by
  obtain ⟨r, hall, hbrought⟩ :=
    (Replacement.Brought.start w.table).addAll p.declarations (Program.names_nodup hparse)
  refine ⟨r, _, _, hbrought, ?_, rfl⟩
  simp only [reload, hparse, hall]
  rfl

/-- **A reload changes what the program declares and nothing else.** Entities of a name that was
in the index, copies and destroyed ones included, have exactly the events of the new declaration
and, behind their own fields with their values, the fields that they lacked; every other entity
is as it was; and one entity with an unused identity comes in for each name that was not in the
index. The report divides the names of the program accordingly, and the event for new entities
is sent to those of the new entities that have it, and to no other. -/
theorem reload_exact (w : World) (budget : Nat) {source : String} {p : Program}
    (hvalid : w.table.Valid) (hparse : Program.parse source = .ok p) :
    ∃ (table : Table) (fresh : List EntityId) (cycle : CycleReport) (w' : World),
      w.table.Reloads p.declarations table ∧
      fresh = (table.entities.drop w.table.entities.length).map Entity.id ∧
      (∀ id ∈ fresh, id ∉ w.table.ids) ∧
      w.reload budget source = (.ok ⟨(p.declarations.filter w.table.knows).map Declaration.name,
        (w.table.unknown p.declarations).map Declaration.name, cycle⟩, w') ∧
      World.broadcast { w with table := table } budget fresh w.settings.initEvent [] =
        (cycle, w') ∧
      w' = ((sendEach { w with table := table } w.settings.initEvent []
        (fresh.filter (table.handles w.settings.initEvent))).drain budget).2 := by
  obtain ⟨r, cycle, w', hbrought, hreload, hcycle⟩ := w.reload_eq budget hparse
  have hreloads := hbrought.reloads (Program.names_nodup hparse) fun _ =>
    Program.eventNames_nodup hparse
  have hfresh : r.fresh = (r.table.entities.drop w.table.entities.length).map Entity.id := by
    rw [hbrought.fresh, hreloads.added]
    exact List.ext_getElem (by simp) (by simp)
  rw [hbrought.updated, hbrought.spawned] at hreload
  refine ⟨r.table, r.fresh, cycle, w', hreloads, hfresh, ?_, hreload, hcycle, ?_⟩
  · intro id hid hused
    rw [hbrought.fresh] at hid
    obtain ⟨i, _, rfl⟩ := List.mem_mapIdx.mp hid
    have hbelow := hvalid.below _ hused
    simp only at hbelow
    omega
  · have hdrained : (World.broadcast { w with table := r.table } budget r.fresh
        w.settings.initEvent []).2 = ((offerAll { w with table := r.table } r.fresh
          w.settings.initEvent []).2.drain budget).2 := rfl
    rw [hcycle, offerAll_eq] at hdrained
    exact hdrained

/-- A hut with a destroyed copy, and a copy of a crow that is no longer declared. -/
def village : World where
  table := ⟨[⟨⟨0⟩, "hut", .ofList [("door", .bool true)], ⟨[⟨"open", [], []⟩]⟩, false⟩,
      ⟨⟨1⟩, "hut", .ofList [("door", .null)], ⟨[⟨"open", [], []⟩]⟩, true⟩,
      ⟨⟨2⟩, "crow", .empty, ⟨[]⟩, false⟩],
    .ofList [("hut", ⟨0⟩)], 3⟩

/-- A program for the village in which huts have lamps and crows are declared again. -/
def villageText : String :=
  "entity hut \x7b has lamp: null has door: false on knock \x7b \x7d \x7d " ++
    "entity crow \x7b on init \x7b \x7d \x7d"

theorem village_valid : village.table.Valid where
  increasing := by decide
  below := by decide
  indexed := by
    intro name id hid
    have hfound : (if "hut" = name then some (⟨0⟩ : EntityId) else none) = some id := hid
    split at hfound
    · rename_i hname
      cases hfound
      exact ⟨_, rfl, hname⟩
    · cases hfound

theorem reload_exact_village : village.table.Valid ∧
    ∃ p table cycle w', Program.parse villageText = .ok p ∧
      village.table.Reloads p.declarations table ∧
      village.reload 1 villageText = (.ok ⟨["hut"], ["crow"], cycle⟩, w') ∧
      (∃ e', table.entities[1]? = some e' ∧ e'.destroyed = true ∧
        e'.fields.entries = [("door", .null), ("lamp", .null)] ∧
        e'.events = ⟨[⟨"knock", [], []⟩]⟩) ∧
      table.entities[2]? = some ⟨⟨2⟩, "crow", .empty, ⟨[]⟩, false⟩ := by
  have hparse : Program.parse villageText =
      .ok ⟨[⟨"hut", .ofList [("lamp", .null), ("door", .bool false)], [⟨"knock", [], []⟩]⟩,
        ⟨"crow", .empty, [⟨"init", [], []⟩]⟩]⟩ := by
    decide +kernel
  obtain ⟨table, _, cycle, w', hreloads, _, _, hreload, _⟩ :=
    reload_exact village 1 village_valid hparse
  obtain ⟨e', he', htakes⟩ := hreloads.updated 1 _ rfl _ List.mem_cons_self rfl rfl
  refine ⟨village_valid, _, table, cycle, w', hparse, hreloads, hreload,
    ⟨e', he', htakes.destroyed, htakes.fields, htakes.events⟩, hreloads.kept 2 _ rfl ?_⟩
  intro d hd hname
  rcases List.mem_cons.mp hd with rfl | hd
  · exact absurd hname (by decide)
  · rw [List.mem_singleton.mp hd]
    rfl

end World

end EntityScript
