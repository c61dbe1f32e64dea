import EntityScript.Proofs.Pool.Commands
import EntityScript.Proofs.Send.FanOut
import EntityScript.Proofs.Table.Shape

/-! # Adding a copy to a pool

The command `add` with the name of a declared entity makes a copy of it. `Table.Spawns` says what
that makes of a table: one entity more, behind the others, and one reference more, at the end of
one pool. The copy comes in, is put into the pool and is sent its first event in three steps, and
no fault falls between the first two (`Run.addCopy_eq`), so there is no copy that the pool does
not refer to. -/

namespace EntityScript

/-- The table `t'` is `t` with a copy of `e`, and the copy is the new last member of the pool that
`owner` had in `field`, where `p` is what the pool had before. -/
structure Table.Spawns (t : Table) (owner : EntityId) (field : String) (p : Pool) (e : Entity)
    (t' : Table) : Prop where
  names : t'.names = t.names
  nextId : t'.nextId = t.nextId + 1
  kept : ∀ (i : Nat) x, t.entities[i]? = some x → ∃ x', t'.entities[i]? = some x' ∧ x.Becomes x' ∧
    x'.destroyed = x.destroyed ∧
    ∀ name, x'.field? name =
      if x.id = owner ∧ name = field then some (.pool (p ++ [.entity ⟨t.nextId⟩]))
      else x.field? name
  added : t'.entities.drop t.entities.length = [{ e with id := ⟨t.nextId⟩, destroyed := false }]

namespace Table

variable {t : Table} {owner source : EntityId} {field : String} {p : Pool} {e o : Entity}

theorem pool_eq_ok (ho : t.get? owner = some o) (hp : o.pool? field = some p) :
    t.pool owner field = .ok p := by
  rw [pool, ho, Option.bind_some, hp]

theorem pool_eq_error (h : ∀ o, t.get? owner = some o → o.pool? field = none) :
    t.pool owner field = .error (.notAPool field) := by
  rw [pool]
  cases ho : t.get? owner with
  | none => rfl
  | some o => rw [Option.bind_some, h o ho]

/-- An identity that is in use is not the next one. -/
theorem Valid.next_ne (ht : t.Valid) (ho : t.get? owner = some o) :
    (⟨t.nextId⟩ : EntityId) ≠ owner := by
  obtain ⟨hmem, rfl⟩ := mem_of_get? ho
  have hlt := ht.below o.id (List.mem_map_of_mem hmem)
  intro heq
  rw [← heq] at hlt
  exact Nat.lt_irrefl _ hlt

/-- Who is found before a copy comes in is found after it. -/
theorem get?_copy (he : t.get? source = some e) (ho : t.get? owner = some o) :
    (t.copy source).2.get? owner = some o := by
  rw [copy_found he]
  unfold get? at ho ⊢
  rw [List.find?_append, ho]
  rfl

/-- The copy is nobody's owner yet, so an assignment passes it by. -/
theorem entities_setField_copy (ht : t.Valid) (he : t.get? source = some e)
    (ho : t.get? owner = some o) (field : String) (v : Value) :
    ((t.copy source).2.setField owner field v).entities =
      t.entities.map (fun x => if x.id = owner then x.setField field v else x) ++
        [{ e with id := ⟨t.nextId⟩, destroyed := false }] := by
  rw [copy_found he, setField, modify, List.map_append, List.map_singleton,
    if_neg (ht.next_ne ho)]

theorem setField_copy_valid (ht : t.Valid) (he : t.get? source = some e)
    (ho : t.get? owner = some o) (hp : o.pool? field = some p) (v : Value) :
    ((t.copy source).2.setField owner field v).Valid := by
  have hbecomes := becomes_setField (ht.copy he) (get?_copy he ho) (Entity.contains_of_pool? hp) v
  exact (ht.copy he).mapEntities (fun x hx => (hbecomes x hx).id) fun x hx => (hbecomes x hx).name

theorem spawns (ht : t.Valid) (he : t.get? source = some e) (ho : t.get? owner = some o)
    (hp : o.pool? field = some p) :
    t.Spawns owner field p e
      ((t.copy source).2.setField owner field (.pool (p ++ [.entity ⟨t.nextId⟩]))) := by
  generalize hv : Value.pool (p ++ [.entity ⟨t.nextId⟩]) = v
  have hbecomes := becomes_setField ht ho (Entity.contains_of_pool? hp) v
  have hentities := entities_setField_copy ht he ho field v
  refine ⟨?_, ?_, ?_, ?_⟩
  · rw [copy_found he]
    rfl
  · rw [copy_found he]
    rfl
  · intro i x hx
    have hi : i < t.entities.length := (List.getElem?_eq_some_iff.mp hx).1
    refine ⟨if x.id = owner then x.setField field v else x, ?_,
      hbecomes x (List.mem_of_getElem? hx), ?_, ?_⟩
    · rw [hentities, List.getElem?_append_left (by rw [List.length_map]; exact hi),
        List.getElem?_map, hx, Option.map_some]
    · split <;> rfl
    · intro name
      rw [hv]
      split
      next hid =>
        show (x.fields.insert field v).get? name = _
        rw [OrderedMap.get?_insert]
        by_cases hname : field = name
        · rw [if_pos hname, if_pos ⟨hid, hname.symm⟩]
        · rw [if_neg hname, if_neg fun h => hname h.2.symm]
          rfl
      next hid => rw [if_neg fun h => hid h.1]
  · rw [hentities, List.drop_append_of_le_length (by rw [List.length_map]),
      List.drop_of_length_le (by rw [List.length_map]), List.nil_append]

end Table

theorem Run.poolCommand_add {w : World} {owner source : EntityId} {field : String}
    {args : List Value} (h : w.table.named? args = some source) :
    Run.poolCommand owner field .add args w = Run.addCopy owner field source w := by
  unfold Run.poolCommand
  dsimp only
  rw [Run.get_bind_apply, h]

/-- With the pool there, a copy is made, put into the pool and sent its first event. -/
theorem Run.addCopy_eq {w : World} {owner source : EntityId} {field : String} {p : Pool}
    {e o : Entity} (he : w.table.get? source = some e) (ho : w.table.get? owner = some o)
    (hp : o.pool? field = some p) :
    Run.addCopy owner field source w =
      World.send
        { w with table := (w.table.copy source).2.setField owner field
                            (.pool (p ++ [.entity ⟨w.table.nextId⟩])) }
        ⟨⟨w.table.nextId⟩, w.settings.initEvent, []⟩ := by
  have hcopied : (w.table.copy source).1 = .ok ⟨w.table.nextId⟩ := by rw [Table.copy, he]
  have hthere : (w.table.copy source).2.pool owner field = .ok p :=
    Table.pool_eq_ok (Table.get?_copy he ho) hp
  unfold Run.addCopy
  rw [Run.get_bind_apply, Table.pool_eq_ok ho hp]
  show ((liftM (w.table.copy source).1 : Run _) >>= _)
    { w with table := (w.table.copy source).2 } = _
  rw [hcopied]
  show (Run.changePool owner field _ >>= _) { w with table := (w.table.copy source).2 } = _
  rw [Run.bind_apply, Run.changePool_eq hthere]
  rfl

/-- **Adding a copy leaves nothing half done.** Without a pool in the field the command fails and
the state is as it was. With one there is one entity more, behind the others, with the name, the
events and the fields that the declared entity had before, be it the owner itself; the pool has
one reference more, to that entity, and no other field has changed. Then the copy is sent its
first event, and that is all that can still fail: the message is waiting, once, either way. -/
theorem World.spawn_exact (w : World) (ht : w.table.Valid) (hq : w.queue.Valid) {name : String}
    {source : EntityId} (hname : w.table.idOf? name = some source) (owner : EntityId)
    (field : String) (more : List Value) :
    let outcome := Run.poolCommand owner field .add (.string name :: more) w
    let first : Message := ⟨⟨w.table.nextId⟩, w.settings.initEvent, []⟩
    ((∀ o, w.table.get? owner = some o → o.pool? field = none) →
      outcome = (.error (.notAPool field), w)) ∧
    ∀ o p, w.table.get? owner = some o → o.pool? field = some p →
      ∃ e, w.table.get? source = some e ∧ e.name = name ∧
        w.table.Spawns owner field p e outcome.2.table ∧
        outcome.2.table.Valid ∧
        outcome = World.send { w with table := outcome.2.table } first ∧
        outcome.2.queue.Valid ∧
        w.queue.pending <+: outcome.2.queue.pending ∧
        outcome.2.queue.pending.countP (fun m => m.same first) = 1 := by
  intro outcome first
  have houtcome : outcome = Run.addCopy owner field source w := Run.poolCommand_add hname
  refine ⟨fun hnone => ?_, fun o p ho hp => ?_⟩
  · rw [houtcome]
    unfold Run.addCopy
    rw [Run.get_bind_apply, Table.pool_eq_error hnone]
    rfl
  · obtain ⟨e, he, hename⟩ := ht.indexed name source hname
    rw [Run.addCopy_eq he ho hp] at houtcome
    have hqueue : outcome.2.queue.Valid := by
      rw [houtcome]
      exact hq.send _
    have hawaits : outcome.2.queue.Awaits first := by
      rw [houtcome]
      exact Queue.awaits_send ..
    refine ⟨e, he, hename, ?_, ?_, ?_, hqueue, ?_, hqueue.countP_same hawaits⟩
    · rw [houtcome]
      exact Table.spawns ht he ho hp
    · rw [houtcome]
      exact Table.setField_copy_valid ht he ho hp _
    · rw [houtcome]
      rfl
    · rw [houtcome]
      exact Queue.pending_prefix_send ..

/-- The phoenix adds a copy of itself to its own pool, and the copy has the empty one. -/
theorem World.spawn_exact_phoenix :
    let outcome := Run.poolCommand ⟨0⟩ "young" .add [.string "phoenix"] phoenix
    phoenix.table.Valid ∧ phoenix.queue.Valid ∧ outcome.2.table.Valid ∧
      (outcome.2.table.entities.drop 1).map (fun e => (e.id, e.field? "young")) =
        [(⟨1⟩, some (.pool []))] ∧
      outcome.2.queue.pending.countP (fun m => m.same ⟨⟨1⟩, "init", []⟩) = 1 := by
  have hqueue : phoenix.queue.Valid := Queue.empty_valid.push rfl
  have hname : phoenix.table.idOf? "phoenix" = some ⟨0⟩ := by rfl
  obtain ⟨e, he, -, hspawns, hvalid, -, -, -, hcount⟩ :=
    (spawn_exact phoenix phoenix_valid hqueue hname ⟨0⟩ "young" []).2 _ [] rfl rfl
  cases he
  refine ⟨phoenix_valid, hqueue, hvalid, ?_, hcount⟩
  exact congrArg (List.map fun e => (e.id, e.field? "young")) hspawns.added

end EntityScript
