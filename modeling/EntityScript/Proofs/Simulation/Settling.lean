import EntityScript.Proofs.Table.History

/-! # Reloading the same program again

A reload looks up each declared name in the index. If the name is there, all entities of the name
take over the declaration, copies included; if not, the declaration comes in as a new entity, and
the entities of the name that are there stay as they are. Such entities are copies that have
outlived the entity that was declared (`Entity.OutlivesIn`). They catch up when the same program
is reloaded a second time, for then the name is in the index; everybody else runs the new program
after the first time. `World.reload_settles` says so of every state, and that a third time nothing
is left to do. -/

namespace EntityScript

/-! ## Running a declaration -/

/-- The entity has exactly the events of the declaration, and all of its fields. -/
structure Entity.Runs (e : Entity) (d : Declaration) : Prop where
  events : e.events = ⟨d.events⟩
  fields : d.fields.keys ⊆ e.fields.keys

/-- The entity was in the table `t` under a name that the index of `t` did not have. -/
structure Entity.OutlivesIn (e : Entity) (t : Table) : Prop where
  there : e.id.raw < t.nextId
  undeclared : t.idOf? e.name = none

namespace Entity

variable {e e' : Entity} {d : Declaration}

/-- To whoever runs a declaration, an update by it does nothing. -/
theorem Runs.update_eq (h : e.Runs d) (hevents : (d.events.map Event.name).Nodup) :
    e.update d = e := by
  have hmissing : d.fields.entries.filter (fun f => !e.fields.contains f.1) = [] := by
    rw [List.filter_eq_nil_iff]
    intro f hf
    have hthere := OrderedMap.isSome_get?_iff.mpr (h.fields (List.mem_map_of_mem hf))
    simp [OrderedMap.contains, hthere]
  have hset : EventSet.ofList d.events = e.events := by
    rw [EventSet.ofList_eq hevents, h.events]
  simp [update, replaceEvents, hmissing, hset, OrderedMap.insertAll]

theorem TakesOver.runs (h : e.TakesOver d e') : e'.Runs d where
  events := h.events
  fields := by
    intro name hname
    rw [OrderedMap.keys, h.fields, List.map_append, List.mem_append]
    by_cases hown : name ∈ e.fields.keys
    · exact .inl hown
    · obtain ⟨f, hf, rfl⟩ := List.mem_map.mp hname
      have hlacks : e.fields.contains f.1 = false := by
        rwa [← Bool.not_eq_true, OrderedMap.contains, OrderedMap.isSome_get?_iff]
      exact .inr (List.mem_map_of_mem (List.mem_filter.mpr ⟨hf, by simp [hlacks]⟩))

/-- Running events takes away neither events nor fields. -/
theorem Becomes.runs (h : e.Becomes e') (hruns : e.Runs d) : e'.Runs d :=
  ⟨h.events.trans hruns.events, h.fieldNames ▸ hruns.fields⟩

end Entity

theorem Declaration.runs_entity {d : Declaration} (hevents : (d.events.map Event.name).Nodup)
    (id : Nat) : (d.entity id).Runs d :=
  ⟨EventSet.ofList_eq hevents, List.Subset.refl _⟩

/-! ## After the first time -/

/-- In the table `t'` everybody whose name is declared runs its declaration, but for those who
have outlived theirs in `t`. -/
def Table.SettledBut (t' t : Table) (ds : List Declaration) : Prop :=
  ∀ e ∈ t'.entities, ¬ e.OutlivesIn t → ∀ d ∈ ds, d.name = e.name → e.Runs d

section Settled

variable {t t' : Table} {ds : List Declaration}

/-- Who was there either took over its declaration, or its name was unknown; who came in was
declared just now. -/
theorem Replacement.Brought.settledBut {r : Replacement} (h : Brought t ds r) (ht : t.Valid)
    (hnames : (ds.map Declaration.name).Nodup)
    (hevents : ∀ d ∈ ds, (d.events.map Event.name).Nodup) : r.table.SettledBut t ds := by
  intro x hx hstays d hd hname
  rw [h.table.entities] at hx
  rcases List.mem_append.mp hx with hold | hnew
  · obtain ⟨e, he, rfl⟩ := List.mem_map.mp hold
    rw [Table.revise_name] at hname
    have hknown : t.knows d = true := by
      by_contra hunknown
      refine hstays ⟨?_, ?_⟩
      · rw [Table.revise_id]
        exact ht.below _ (List.mem_map_of_mem he)
      · rw [Table.revise_name, ← hname]
        simpa [Table.knows] using hunknown
    rw [Table.revise_of_mem hnames hd hname, if_pos hknown]
    exact (e.takesOver_update (hevents d hd)).runs
  · obtain ⟨i, hi, rfl⟩ := List.mem_mapIdx.mp hnew
    have hmem : (t.unknown ds)[i] ∈ ds := List.mem_of_mem_filter (List.getElem_mem hi)
    obtain rfl : d = (t.unknown ds)[i] := List.inj_on_of_nodup_map hnames hd hmem hname
    exact Declaration.runs_entity (hevents _ hd) _

/-- Events that run make copies of declared entities only, and who is declared has not been left
out. -/
theorem Table.SettledBut.grown {t₁ : Table} (h : t₁.SettledBut t ds) (ht : t.Precedes t₁)
    (hgrown : t₁.GrowsTo t') : t'.SettledBut t ds := by
  intro x hx hstays d hd hname
  obtain ⟨i, hi⟩ := List.mem_iff_getElem?.mp hx
  rcases Nat.lt_or_ge i t₁.entities.length with hold | hnew
  · obtain ⟨x', hi', hbecomes⟩ := hgrown.kept i _ (List.getElem?_eq_getElem hold)
    cases hi.symm.trans hi'
    refine hbecomes.runs (h _ (List.getElem_mem hold) ?_ d hd (hname.trans hbecomes.name))
    rintro ⟨hthere, hundeclared⟩
    exact hstays ⟨hbecomes.id ▸ hthere, hbecomes.name ▸ hundeclared⟩
  · obtain ⟨_, name, id, e, hid, he, hename, hxname, hkeys, hxevents⟩ := hgrown.added i x hnew hi
    obtain ⟨hmem, rfl⟩ := Table.mem_of_get? he
    have hsource : e.Runs d := by
      refine h e hmem ?_ d hd (by rw [hname, hxname, hename])
      rintro ⟨hthere, hundeclared⟩
      rw [hename, ht.indexed name e.id hthere hid] at hundeclared
      cases hundeclared
    exact ⟨hxevents.trans hsource.events, hkeys ▸ hsource.fields⟩

/-! ## The second time -/

theorem Table.Declares.eq_of_nil (h : t.Declares [] t') : t' = t := by
  have hentities := h.entities
  have hnames : t'.names = t.names := OrderedMap.ext (by simpa using h.names)
  have hnext := h.nextId
  obtain ⟨entities, names, nextId⟩ := t
  obtain ⟨entities', names', nextId'⟩ := t'
  simp_all

/-- Where all names are known, declarations update entities and do nothing else. -/
theorem Replacement.addAll_known (ds : List Declaration) (hnames : (ds.map Declaration.name).Nodup)
    (hknown : ∀ d ∈ ds, t.knows d = true) : ∃ r : Replacement,
      Replacement.addAll { table := t } ds = (.ok (), r) ∧ r.spawned = [] ∧ r.fresh = [] ∧
      r.table = t.mapEntities (t.revise ds) := by
  obtain ⟨r, hall, hbrought⟩ := (Replacement.Brought.start t).addAll ds hnames
  have hunknown : t.unknown ds = [] := by
    rw [Table.unknown, List.filter_eq_nil_iff]
    intro d hd
    simp [hknown d hd]
  obtain ⟨htable, hupdated, hspawned, hfresh⟩ := hbrought
  rw [List.nil_append, hunknown] at htable hspawned hfresh
  exact ⟨r, hall, hspawned, hfresh, htable.eq_of_nil⟩

/-- To whoever runs its declaration, the declarations do nothing. -/
theorem Table.revise_eq_self (hnames : (ds.map Declaration.name).Nodup)
    (hevents : ∀ d ∈ ds, (d.events.map Event.name).Nodup) {e : Entity}
    (h : ∀ d ∈ ds, d.name = e.name → e.Runs d) : t.revise ds e = e := by
  by_cases hmem : e.name ∈ ds.map Declaration.name
  · obtain ⟨d, hd, hname⟩ := List.mem_map.mp hmem
    rw [revise_of_mem hnames hd hname, (h d hd hname).update_eq (hevents d hd), ite_self]
  · exact revise_of_not_mem hmem

/-- Those who have outlived their declaration in `t` are as the declarations found them. -/
theorem Table.Reloads.outlived {t₁ : Table} (hreloads : t.Reloads ds t₁)
    (hgrown : t₁.GrowsTo t') {i : Nat} {e : Entity}
    (he : t'.entities[i]? = some e) (houtlives : e.OutlivesIn t) :
    ∃ e₀, t.entities[i]? = some e₀ ∧ e₀.Becomes e := by
  obtain ⟨hthere, hundeclared⟩ := houtlives
  have hnext : t.nextId ≤ t₁.nextId := by
    rw [hreloads.nextId]
    exact Nat.le_add_right _ _
  -- whatever came in since has an identity that was not used up in `t`
  have hbrought : i < t₁.entities.length := by
    by_contra hnew
    have hfresh := (hgrown.added i e (Nat.le_of_not_lt hnew) he).fresh
    omega
  obtain ⟨x, hx⟩ : ∃ x, t₁.entities[i]? = some x := ⟨_, List.getElem?_eq_getElem hbrought⟩
  obtain ⟨e', he', hbecomes⟩ := hgrown.kept i x hx
  cases he.symm.trans he'
  have hold : i < t.entities.length := by
    by_contra hnew
    have hdrop : (t₁.entities.drop t.entities.length)[i - t.entities.length]? = some x := by
      rw [List.getElem?_drop, Nat.add_sub_cancel' (Nat.le_of_not_lt hnew), hx]
    rw [hreloads.added] at hdrop
    obtain ⟨j, _, heq⟩ := List.mem_mapIdx.mp (List.mem_of_getElem? hdrop)
    rw [hbecomes.id, ← heq] at hthere
    exact absurd hthere (Nat.not_lt.mpr (Nat.le_add_right _ _))
  obtain ⟨e₀, he₀⟩ : ∃ e₀, t.entities[i]? = some e₀ := ⟨_, List.getElem?_eq_getElem hold⟩
  refine ⟨e₀, he₀, ?_⟩
  have hunknown : ∀ d ∈ ds, d.name = e₀.name → t.knows d = false := by
    intro d hd hname
    by_contra hknown
    rw [Bool.not_eq_false] at hknown
    obtain ⟨e', he', htakes⟩ := hreloads.updated i e₀ he₀ d hd hname hknown
    cases hx.symm.trans he'
    rw [hbecomes.name, htakes.name, ← hname] at hundeclared
    rw [Table.knows, hundeclared] at hknown
    cases hknown
  cases hx.symm.trans (hreloads.kept i e₀ he₀ hunknown)
  exact hbecomes

end Settled

/-- The declarations, brought in again, have turned `t₁` into `t₂`: those who outlived their
declaration in `t`, and have been left as they were there, take it over; all else stays as and
where it is, and whoever has not outlived its declaration runs it already. -/
structure Table.CatchesUp (t t₁ : Table) (ds : List Declaration) (t₂ : Table) : Prop where
  names : t₂.names = t₁.names
  nextId : t₂.nextId = t₁.nextId
  length : t₂.entities.length = t₁.entities.length
  settled : t₁.SettledBut t ds
  kept : ∀ (i : Nat) e, t₁.entities[i]? = some e →
    (∀ d ∈ ds, d.name = e.name → ¬ e.OutlivesIn t) → t₂.entities[i]? = some e
  leftOut : ∀ (i : Nat) e, t₁.entities[i]? = some e → e.OutlivesIn t →
    ∃ e₀, t.entities[i]? = some e₀ ∧ e₀.Becomes e
  updated : ∀ (i : Nat) e, t₁.entities[i]? = some e → e.OutlivesIn t →
    ∀ d ∈ ds, d.name = e.name → ∃ e', t₂.entities[i]? = some e' ∧ e.TakesOver d e'

theorem Table.CatchesUp.eq_self {t t₁ t₂ : Table} {ds : List Declaration}
    (h : t.CatchesUp t₁ ds t₂)
    (hdeclared : ∀ e ∈ t.entities, ∀ d ∈ ds, d.name = e.name → t.knows d = true) : t₂ = t₁ := by
  have hentities : t₂.entities = t₁.entities := by
    refine List.ext_getElem? fun i => ?_
    cases he : t₁.entities[i]? with
    | none =>
      rw [List.getElem?_eq_none_iff, ← h.length] at he
      exact List.getElem?_eq_none_iff.mpr he
    | some e =>
      refine h.kept i e he fun d hd hname houtlives => ?_
      obtain ⟨e₀, he₀, hbecomes⟩ := h.leftOut i e he houtlives
      have hknown := hdeclared e₀ (List.mem_of_getElem? he₀) d hd (hname.trans hbecomes.name)
      rw [Table.knows, hname, houtlives.undeclared] at hknown
      cases hknown
  obtain ⟨entities, names, nextId⟩ := t₁
  obtain ⟨entities', names', nextId'⟩ := t₂
  obtain ⟨hnames, hnext⟩ := And.intro h.names h.nextId
  simp_all

namespace World

variable {w : World} {source : String} {p : Program}

/-- The second time nobody comes in, and those catch up that were left out the first time. -/
theorem reload_again (hvalid : w.table.Valid) (hparse : Program.parse source = .ok p)
    (budget : Nat) : ∃ r : Replacement,
      Replacement.addAll { table := (w.reload budget source).2.table } p.declarations =
        (.ok (), r) ∧
      r.spawned = [] ∧ r.fresh = [] ∧
      w.table.CatchesUp (w.reload budget source).2.table p.declarations r.table := by
  have hnames := Program.names_nodup hparse
  have hevents : ∀ d ∈ p.declarations, (d.events.map Event.name).Nodup :=
    fun _ hd => Program.eventNames_nodup hparse hd
  obtain ⟨r₁, cycle, w₁, hbrought, hreload, hcycle⟩ := w.reload_eq budget hparse
  have hfollows := hbrought.follows hvalid
  have hrun := (shape_kept hfollows.valid).broadcast (w := { w with table := r₁.table }) budget
    r₁.fresh w.settings.initEvent [] ⟨hfollows.valid, .refl _⟩
  rw [hcycle] at hrun
  have hsettled : w₁.table.SettledBut w.table p.declarations :=
    (hbrought.settledBut hvalid hnames hevents).grown hfollows.precedes hrun.2
  have hknown : ∀ d ∈ p.declarations, w₁.table.knows d = true := by
    obtain ⟨_, _, w', _, hreload', hdeclared⟩ := w.reload_ok budget hparse
    cases hreload.symm.trans hreload'
    exact hdeclared
  have hrevised : ∀ (i : Nat) e, w₁.table.entities[i]? = some e →
      (w₁.table.mapEntities (w₁.table.revise p.declarations)).entities[i]? =
        some (w₁.table.revise p.declarations e) := by
    intro i e he
    simp [Table.mapEntities, he]
  rw [hreload]
  obtain ⟨r, hall, hspawned, hfresh, htable⟩ :=
    Replacement.addAll_known p.declarations hnames hknown
  refine ⟨r, hall, hspawned, hfresh, ?_⟩
  rw [htable]
  refine ⟨rfl, rfl, by simp [Table.mapEntities], hsettled, ?_, ?_, ?_⟩
  · intro i e he hstays
    rw [hrevised i e he, Table.revise_eq_self hnames hevents]
    intro d hd hname
    exact hsettled e (List.mem_of_getElem? he) (hstays d hd hname) d hd hname
  · intro i e he houtlives
    exact (hbrought.reloads hnames hevents).outlived hrun.2 he houtlives
  · intro i e he houtlives d hd hname
    refine ⟨_, hrevised i e he, ?_⟩
    rw [Table.revise_of_mem hnames hd hname, if_pos (hknown d hd)]
    exact e.takesOver_update (hevents d hd)

/-- **Reloading a program again changes nothing, but for the copies that the first time left
out.** After a reload everybody whose name the program declares runs it, copies included, unless
it was there under a name that was not declared: it was a copy that had outlived its declaration,
and still has the events and fields that it had. When the declarations are brought in a second
time, nobody comes in, those copies take over, and all else stays as it is; so nothing changes if
there were none. The third time nothing changes at all. -/
theorem reload_settles (w : World) (budget : Nat) {source : String} {p : Program}
    (hvalid : w.table.Valid) (hparse : Program.parse source = .ok p) :
    let w₁ := (w.reload budget source).2
    (∃ report, (w.reload budget source).1 = .ok report) ∧
    (∃ r : Replacement,
      Replacement.addAll { table := w₁.table } p.declarations = (.ok (), r) ∧
      r.spawned = [] ∧ r.fresh = [] ∧ w.table.CatchesUp w₁.table p.declarations r.table ∧
      ((∀ e ∈ w.table.entities, ∀ d ∈ p.declarations, d.name = e.name →
        w.table.knows d = true) → r.table = w₁.table)) ∧
    ∀ budget', ∃ r : Replacement,
      Replacement.addAll { table := (w₁.reload budget' source).2.table } p.declarations =
        (.ok (), r) ∧
      r.spawned = [] ∧ r.fresh = [] ∧ r.table = (w₁.reload budget' source).2.table := by
  intro w₁
  obtain ⟨_, report, w', _, hreload, hdeclared⟩ := w.reload_ok budget hparse
  obtain ⟨r, hall, hspawned, hfresh, hcatches⟩ := reload_again hvalid hparse budget
  refine ⟨⟨report, by rw [hreload]⟩, ⟨r, hall, hspawned, hfresh, hcatches, hcatches.eq_self⟩, ?_⟩
  intro budget'
  have hvalid₁ : w₁.table.Valid := (reload_follows hvalid budget source).valid
  obtain ⟨r', hall', hspawned', hfresh', hcatches'⟩ := reload_again hvalid₁ hparse budget'
  refine ⟨r', hall', hspawned', hfresh', hcatches'.eq_self fun _ _ d hd _ => ?_⟩
  have hw₁ : w₁ = w' := congrArg Prod.snd hreload
  rw [hw₁]
  exact hdeclared d hd

/-- An owl and a cat were declared and copied, and then the owl was discarded. -/
def roost : World :=
  ({} : World).moves [.declare "Owl" .empty [⟨"hoot", [], []⟩], .copy ⟨0⟩,
    .declare "Cat" .empty [], .copy ⟨2⟩, .discard ⟨0⟩]

/-- A program for the roost, with another event for owls and a field for cats. -/
def roostText : String :=
  "entity Owl \x7b on call \x7b \x7d \x7d entity Cat \x7b has prey: null \x7d"

theorem roost_valid : roost.table.Valid :=
  (moves_follow (w := {}) Table.empty_valid _).valid

theorem roostText_parse : Program.parse roostText =
    .ok ⟨[⟨"Owl", .empty, [⟨"call", [], []⟩]⟩, ⟨"Cat", .ofList [("prey", .null)], []⟩]⟩ := by
  decide +kernel

theorem roost_reloaded : (roost.reload 0 roostText).1 = .ok ⟨["Cat"], ["Owl"], {}⟩ ∧
    (roost.reload 0 roostText).2.table =
      ⟨[⟨⟨1⟩, "Owl", .empty, ⟨[⟨"hoot", [], []⟩]⟩, false⟩,
        ⟨⟨2⟩, "Cat", .ofList [("prey", .null)], ⟨[]⟩, false⟩,
        ⟨⟨3⟩, "Cat", .ofList [("prey", .null)], ⟨[]⟩, false⟩,
        ⟨⟨4⟩, "Owl", .empty, ⟨[⟨"call", [], []⟩]⟩, false⟩],
        .ofList [("Cat", ⟨2⟩), ("Owl", ⟨4⟩)], 5⟩ := by
  simp only [reload, roostText_parse]
  exact ⟨rfl, rfl⟩

/-- The copy of the cat has its new field after the first reload, and the second one leaves it
alone. -/
theorem reload_settles_cat :
    roost.table.Valid ∧ ∃ p r, Program.parse roostText = .ok p ∧
      Replacement.addAll { table := (roost.reload 0 roostText).2.table } p.declarations =
        (.ok (), r) ∧
      r.spawned = [] ∧
      r.table.entities[2]? =
        some ⟨⟨3⟩, "Cat", .ofList [("prey", .null)], ⟨[]⟩, false⟩ := by
  obtain ⟨_, ⟨r, hall, hspawned, _, hcatches, _⟩, _⟩ :=
    reload_settles roost 0 roost_valid roostText_parse
  refine ⟨roost_valid, _, r, roostText_parse, hall, hspawned, ?_⟩
  refine hcatches.kept 2 _ (by rw [roost_reloaded.2]; rfl) fun d hd hname houtlives => ?_
  have hdeclared : roost.table.idOf? "Cat" = none := houtlives.undeclared
  exact absurd hdeclared (by decide)

/-- The copy of the owl, whose name the program declares, has its old event after the first
reload, and the declarations of a second one give it the new event. -/
theorem owl_copy_left_out :
    let w₁ := (roost.reload 0 roostText).2
    ∃ p r, Program.parse roostText = .ok p ∧
      (roost.reload 0 roostText).1 = .ok ⟨["Cat"], ["Owl"], {}⟩ ∧
      Replacement.addAll { table := w₁.table } p.declarations = (.ok (), r) ∧
      (w₁.table.get? ⟨1⟩).map Entity.events = some ⟨[⟨"hoot", [], []⟩]⟩ ∧
      (r.table.get? ⟨1⟩).map Entity.events = some ⟨[⟨"call", [], []⟩]⟩ := by
  intro w₁
  obtain ⟨hreport, htable⟩ := roost_reloaded
  rw [show w₁.table = _ from htable]
  exact ⟨_, _, roostText_parse, hreport, rfl, rfl, rfl⟩

end World

end EntityScript
