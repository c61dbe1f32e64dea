import EntityScript.Proofs.Snapshot.RoundTrip

/-! # Snapshots merged into entities

The snapshot of one entity, merged into another, gives it the fields of the first with their
values as they were written (`entity_merges`). What the snapshot does not mention stays as it
is, and a snippet that cannot be merged changes nothing. -/

namespace EntityScript

/-! ## Values that are written as they are -/

namespace Value

mutual

/-- Whether a value has a literal of its own: no reference is in it, at any depth, and no
number that is not finite. -/
def isPlain : Value → Bool
  | .number n => Number.isFinite n
  | .pool items => allPlain items
  | .entity _ => false
  | _ => true

/-- Whether each of some values has a literal of its own. -/
def allPlain : List Value → Bool
  | [] => true
  | v :: vs => isPlain v && allPlain vs

end

mutual

theorem asWritten_of_isPlain (t : Table) (v : Value) (h : v.isPlain = true) :
    v.asWritten t = v := by
  cases v with
  | null | bool b | string s => simp [asWritten]
  | number n =>
    have hfinite : Number.isFinite n = true := by simpa [isPlain] using h
    simp [asWritten, hfinite]
  | entity id => simp [isPlain] at h
  | pool items =>
    have hitems : allPlain items = true := by simpa [isPlain] using h
    simp [asWritten, allAsWritten_of_allPlain t items hitems]

theorem allAsWritten_of_allPlain (t : Table) (vs : List Value) (h : allPlain vs = true) :
    allAsWritten t vs = vs := by
  cases vs with
  | nil => simp [allAsWritten]
  | cons v vs =>
    simp only [allPlain, Bool.and_eq_true] at h
    simp [allAsWritten, asWritten_of_isPlain t v h.1, allAsWritten_of_allPlain t vs h.2]

end

end Value

/-! ## Merging -/

namespace Entity

variable {t : Table} {e f : Entity}

theorem merge_of_parse {snippet : String} {d : Declaration}
    (h : Program.parse snippet = .ok ⟨[d]⟩) : f.merge snippet =
      (.ok (), { f with fields := f.fields.insertAll d.fields.entries }) := by
  simp [merge, h]

theorem merge_of_error {snippet : String} {fault : ScriptFault}
    (h : (f.merge snippet).1 = .error fault) : (f.merge snippet).2 = f := by
  unfold merge at h ⊢
  split
  · rfl
  · split
    · simp_all
    · rfl

/-- An entity with the fields of another one, as they were written. -/
def withFieldsOf (f : Entity) (t : Table) (e : Entity) : Entity :=
  { f with fields := f.fields.insertAll (e.fields.mapValues (Value.asWritten t)).entries }

theorem merge_snapshot (he : Snapshot.Readable e) (f : Entity) :
    f.merge (Snapshot.entity t e) = (.ok (), f.withFieldsOf t e) := by
  have hone : ∀ x ∈ [e], Snapshot.Readable x := by simpa using he
  have hparse := Program.parse_entities (t := t) (by simp) hone
  simp only [List.map_cons, List.map_nil, String.intercalate_singleton] at hparse
  exact merge_of_parse hparse

theorem field?_withFieldsOf (name : String) : (f.withFieldsOf t e).field? name =
    ((e.field? name).map (Value.asWritten t)).or (f.field? name) := by
  have hlookup := OrderedMap.get?_mapValues e.fields (Value.asWritten t) name
  unfold withFieldsOf field?
  rw [OrderedMap.get?_insertAll (e.fields.mapValues _).nodup, ← hlookup]
  rfl

theorem fieldNames_withFieldsOf : (f.withFieldsOf t e).fields.keys =
    f.fields.keys ++ e.fields.keys.filter fun name => !f.fields.contains name := by
  have hkeys := OrderedMap.keys_mapValues e.fields (Value.asWritten t)
  unfold withFieldsOf
  rw [OrderedMap.keys_insertAll (e.fields.mapValues _).nodup, ← hkeys]
  rfl

end Entity

namespace Snapshot

/-- **A snapshot of one entity merges into every other.** Merging succeeds; each field of the
snapshot then has its value as it was written, which is the value itself if it has a literal of
its own; all other fields keep their values; fields that were there keep their places and new
ones follow in their order; and nothing else of the entity changes. A merge that is refused,
whatever the snippet, leaves the entity as it was. -/
theorem entity_merges (f : Entity) :
    (∀ t e, Readable e → ∃ f', f.merge (entity t e) = (.ok (), f') ∧
      (∀ name v, e.field? name = some v → f'.field? name = some (v.asWritten t)) ∧
      (∀ name v, e.field? name = some v → v.isPlain = true → f'.field? name = some v) ∧
      (∀ name, e.field? name = none → f'.field? name = f.field? name) ∧
      f'.fields.keys =
        f.fields.keys ++ e.fields.keys.filter (fun name => !f.fields.contains name) ∧
      f'.id = f.id ∧ f'.name = f.name ∧ f'.events = f.events ∧ f'.destroyed = f.destroyed) ∧
    (∀ snippet fault, (f.merge snippet).1 = .error fault → (f.merge snippet).2 = f) := by
  constructor
  · intro t e he
    have hwritten : ∀ name v, e.field? name = some v →
        (f.withFieldsOf t e).field? name = some (v.asWritten t) := by
      intro name v hv
      simp [Entity.field?_withFieldsOf, hv]
    refine ⟨f.withFieldsOf t e, Entity.merge_snapshot he f, hwritten, ?_, ?_,
      Entity.fieldNames_withFieldsOf, rfl, rfl, rfl, rfl⟩
    · intro name v hv hplain
      rw [hwritten name v hv, v.asWritten_of_isPlain t hplain]
    · intro name hnone
      simp [Entity.field?_withFieldsOf, hnone]
  · exact fun snippet fault h => Entity.merge_of_error h

/-- An entity that shares a field with the first entity of `camp` and has one of its own. -/
def squire : Entity :=
  ⟨⟨7⟩, "squire", .ofList [("offset", .number 2), ("loyal", .bool true)], ⟨[]⟩, true⟩

/-- The snapshot of an entity that refers to others merges into one with other fields. -/
theorem entity_merges_squire :
    let e := camp.entities.head (by simp [camp])
    Readable e ∧ ∃ f', squire.merge (entity camp e) = (.ok (), f') ∧
      f'.fields.keys = ["offset", "loyal", "title", "bag"] ∧
      f'.field? "loyal" = some (.bool true) ∧
      f'.field? "title" = some (.string "the \"brave\"\n\\") ∧
      f'.field? "bag" = some (.pool [.null, .pool [.string "foe_1", .null], .null]) := by
  intro e
  have hreadable : Readable e := by decide
  obtain ⟨f', hmerge, hwritten, hplain, hothers, hkeys, _⟩ :=
    (entity_merges squire).1 camp e hreadable
  exact ⟨hreadable, f', hmerge, hkeys, hothers "loyal" rfl, hplain "title" _ rfl rfl,
    hwritten "bag" _ rfl⟩

end Snapshot
end EntityScript
