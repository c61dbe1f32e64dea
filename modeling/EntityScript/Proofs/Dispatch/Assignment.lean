import EntityScript.Proofs.Dispatch.Change

/-! # Reading what was assigned

An assignment goes to a field if the entity has one of the name, and else to a local; a variable
is a local if there is one of the name, and else a field. The two orders meet in one case only: a
local of the name of a field hides the field from reading (`Frame.Hides`), but not from
assignments.

`Frame.assign_field` and `Frame.assign_local` say what an assignment does, `Frame.eval_var_local`
and `Frame.eval_var_field` what a variable is. So what an action assigns to a name is what the
name reads as, unless a local hides the field (`Frame.set_reads_back`). -/

namespace EntityScript

/-! ## Fields in the table -/

namespace Table

variable {t : Table} {id : EntityId} {e : Entity}

/-- A change that keeps identities changes what is found under the one identity. -/
theorem get?_modify {f : Entity → Entity} (hf : ∀ e, (f e).id = e.id) (h : t.get? id = some e) :
    (t.modify id f).get? id = some (f e) := by
  have hid : e.id = id := by
    have heq := List.find?_some h
    exact eq_of_beq heq
  have hsame : ((fun x : Entity => x.id == id) ∘ fun x => if x.id = id then f x else x) =
      fun x => x.id == id := by
    funext x
    by_cases hx : x.id = id <;> simp [hx, hf]
  have hfound : t.entities.find? (fun x => x.id == id) = some e := h
  show (t.entities.map fun x => if x.id = id then f x else x).find? _ = _
  rw [List.find?_map, hsame, hfound, Option.map_some, if_pos hid]

theorem get?_setField (h : t.get? id = some e) (name : String) (v : Value) :
    (t.setField id name v).get? id = some (e.setField name v) :=
  get?_modify (fun _ => rfl) h

end Table

theorem Entity.field?_setField (e : Entity) (name : String) (v : Value) :
    (e.setField name v).field? name = some v :=
  e.fields.get?_insert_self name v

namespace Frame

variable {f : Frame} {w : World} {e : Entity} {name : String}

/-- In the table, the running entity has a field of the name, and a local with the value `u`
hides it. -/
structure Hides (f : Frame) (t : Table) (name : String) (u : Value) : Prop where
  isLocal : f.locals.get? name = some u
  isField : ∃ e, t.get? f.entity = some e ∧ e.fields.contains name = true

/-! ## Variables -/

theorem eval_apply (he : w.table.get? f.entity = some e) (expr : Expr) :
    f.eval expr w = (expr.eval ⟨e, f.locals, w.table, f.event⟩, w) := by
  have hcontext : f.context w.table = .ok ⟨e, f.locals, w.table, f.event⟩ := by
    simp only [context, he]
  unfold eval
  rw [Run.get_bind_apply, hcontext]
  rfl

/-- Evaluation changes nothing, and fails for an entity that is gone. -/
theorem eval_eq_ok {expr : Expr} {v : Value} {w' : World} (h : f.eval expr w = (.ok v, w')) :
    w' = w := by
  cases he : w.table.get? f.entity with
  | some e =>
    rw [eval_apply he] at h
    exact (congrArg Prod.snd h).symm
  | none =>
    unfold eval at h
    rw [Run.get_bind_apply] at h
    simp only [context, he] at h
    cases h

/-- A variable is a local, if there is one. -/
theorem eval_var_local (he : w.table.get? f.entity = some e) {u : Value}
    (hu : f.locals.get? name = some u) : f.eval (.var name) w = (.ok u, w) := by
  rw [eval_apply he]
  show (Context.lookup _ name, w) = _
  simp only [Context.lookup, hu]

/-- A variable that is no local is a field. -/
theorem eval_var_field (he : w.table.get? f.entity = some e) {v : Value}
    (hnone : f.locals.get? name = none) (hv : e.field? name = some v) :
    f.eval (.var name) w = (.ok v, w) := by
  rw [eval_apply he]
  show (Context.lookup _ name, w) = _
  simp only [Context.lookup, hnone, hv]

/-! ## Assignments -/

theorem assign_field (he : w.table.get? f.entity = some e)
    (hfield : e.fields.contains name = true) (v : Value) :
    f.assign name v w = (.ok f, { w with table := w.table.setField f.entity name v }) := by
  unfold assign
  rw [Run.get_bind_apply]
  simp only [he, hfield, if_true]
  rfl

theorem assign_local (he : w.table.get? f.entity = some e)
    (hfield : e.fields.contains name = false) (v : Value) :
    f.assign name v w = (.ok { f with locals := f.locals.insert name v }, w) := by
  unfold assign
  rw [Run.get_bind_apply]
  simp only [he, hfield, Bool.false_eq_true, if_false]
  rfl

/-- Only an entity that is in the table can be assigned to. -/
theorem found_of_assign {v : Value} {r : Frame × World}
    (h : f.assign name v w = (.ok r.1, r.2)) : ∃ e, w.table.get? f.entity = some e := by
  cases he : w.table.get? f.entity with
  | some e => exact ⟨e, rfl⟩
  | none =>
    unfold assign at h
    rw [Run.get_bind_apply] at h
    simp only [he] at h
    cases h

/-- What was assigned to a name is what the name reads as, unless a local hides the field: then
the name still reads as the local, and the field has what was assigned. -/
theorem assign_reads_back {f' : Frame} {w' : World} {v : Value}
    (h : f.assign name v w = (.ok f', w')) :
    ((∀ u, ¬ f.Hides w.table name u) → f'.eval (.var name) w' = (.ok v, w')) ∧
    (∀ u, f.Hides w.table name u → f'.eval (.var name) w' = (.ok u, w') ∧
      ∃ e, w'.table.get? f'.entity = some e ∧ e.field? name = some v) := by
  obtain ⟨e, he⟩ := found_of_assign (r := (f', w')) h
  cases hfield : e.fields.contains name with
  | true =>
    rw [assign_field he hfield] at h
    cases h
    have he' := Table.get?_setField he name v
    refine ⟨fun hhides => ?_, fun u hu => ?_⟩
    · have hnone : f.locals.get? name = none := by
        rw [Option.eq_none_iff_forall_ne_some]
        exact fun u hu => hhides u ⟨hu, e, he, hfield⟩
      exact eval_var_field he' hnone (e.field?_setField name v)
    · exact ⟨eval_var_local he' hu.isLocal, _, he', e.field?_setField name v⟩
  | false =>
    rw [assign_local he hfield] at h
    cases h
    refine ⟨fun _ => ?_, fun u hu => ?_⟩
    · exact eval_var_local (f := { f with locals := f.locals.insert name v }) he
        (f.locals.get?_insert_self name v)
    · obtain ⟨e', he', hfield'⟩ := hu.isField
      rw [he] at he'
      cases he'
      rw [hfield] at hfield'
      cases hfield'

/-! ## The action -/

/-- An assignment that is carried out assigns the value of its expression. -/
theorem execute_set_eq_ok {call : Call} {value : Expr} {f' : Frame} {progress : Progress}
    {w' : World} (h : f.execute call (.set value name) w = (.ok (f', progress), w')) :
    ∃ v f₁, f.eval value w = (.ok v, w) ∧ f.assign name v w = (.ok f₁, w') ∧
      f' = { f₁ with last := v } := by
  rw [execute, Run.bind_apply] at h
  match hv : f.eval value w with
  | (.error fault, w₁) =>
    rw [hv] at h
    cases h
  | (.ok v, w₁) =>
    obtain rfl := eval_eq_ok hv
    rw [hv] at h
    dsimp only at h
    rw [Run.bind_apply] at h
    match ha : f.assign name v w₁ with
    | (.error fault, w₂) =>
      rw [ha] at h
      cases h
    | (.ok f₁, w₂) =>
      rw [ha] at h
      cases h
      exact ⟨v, f₁, rfl, ha, rfl⟩

/-- **What was assigned is read back, unless it is hidden.** Behind an assignment that is carried
out, the name reads as the value just assigned, whatever locals and fields there are, unless a
local hides a field of the name. Then the field has the value, and the name still reads as the
local. -/
theorem set_reads_back {call : Call} {f f' : Frame} {w w' : World} {value : Expr} {name : String}
    {progress : Progress} (h : f.execute call (.set value name) w = (.ok (f', progress), w')) :
    ∃ v, f.eval value w = (.ok v, w) ∧ f'.last = v ∧
      ((∀ u, ¬ f.Hides w.table name u) → f'.eval (.var name) w' = (.ok v, w')) ∧
      (∀ u, f.Hides w.table name u → f'.eval (.var name) w' = (.ok u, w') ∧
        ∃ e, w'.table.get? f'.entity = some e ∧ e.field? name = some v) := by
  obtain ⟨v, f₁, hv, ha, rfl⟩ := execute_set_eq_ok h
  -- The last value assigned is none of what an expression reads.
  have hreads := assign_reads_back ha
  exact ⟨v, hv, rfl, hreads.1, hreads.2⟩

/-- A cat is greeted with a mood, and has a field of that name: its voice reads as assigned,
but its mood still reads as the parameter. -/
theorem set_reads_back_cat :
    let cat : Entity := ⟨⟨0⟩, "Cat", .ofList [("mood", .string "calm"), ("voice", .null)],
      .ofList [], false⟩
    let w : World := { table := ⟨[cat], .ofList [("Cat", ⟨0⟩)], 1⟩ }
    let f : Frame := ⟨⟨0⟩, "greet", .ofList [("mood", .string "happy")], .null⟩
    (∃ f' w', f.execute Call.perform (.set (.var "mood") "voice") w = (.ok (f', .goOn), w') ∧
      (∀ u, ¬ f.Hides w.table "voice" u) ∧
      f'.eval (.var "voice") w' = (.ok (.string "happy"), w')) ∧
    (∃ f' w', f.execute Call.perform (.set (.literal (.string "angry")) "mood") w =
        (.ok (f', .goOn), w') ∧ f.Hides w.table "mood" (.string "happy") ∧
      f'.eval (.var "mood") w' = (.ok (.string "happy"), w') ∧
      ∃ e, w'.table.get? f'.entity = some e ∧ e.field? "mood" = some (.string "angry")) := by
  intro cat w f
  have hvoice : ∀ u, ¬ f.Hides w.table "voice" u := fun u hu => nomatch hu.isLocal
  have hmood : f.Hides w.table "mood" (.string "happy") := ⟨rfl, cat, rfl, rfl⟩
  have hsetVoice : f.execute Call.perform (.set (.var "mood") "voice") w =
      (.ok ({ f with last := .string "happy" }, .goOn),
        { w with table := w.table.setField ⟨0⟩ "voice" (.string "happy") }) := rfl
  have hsetMood : f.execute Call.perform (.set (.literal (.string "angry")) "mood") w =
      (.ok ({ f with last := .string "angry" }, .goOn),
        { w with table := w.table.setField ⟨0⟩ "mood" (.string "angry") }) := rfl
  refine ⟨⟨_, _, hsetVoice, hvoice, ?_⟩, ⟨_, _, hsetMood, hmood, ?_⟩⟩
  · obtain ⟨v, hv, -, hreads, -⟩ := set_reads_back hsetVoice
    cases hv
    exact hreads hvoice
  · obtain ⟨v, hv, -, -, hhidden⟩ := set_reads_back hsetMood
    cases hv
    exact hhidden _ hmood

/-- The cat's mood has been made angry, and reads as happy. -/
theorem set_hidden_by_parameter :
    let cat : Entity := ⟨⟨0⟩, "Cat", .ofList [("mood", .string "calm")], .ofList [], false⟩
    let w : World := { table := ⟨[cat], .ofList [("Cat", ⟨0⟩)], 1⟩ }
    let f : Frame := ⟨⟨0⟩, "greet", .ofList [("mood", .string "happy")], .null⟩
    ∃ f' w', f.execute Call.perform (.set (.literal (.string "angry")) "mood") w =
        (.ok (f', .goOn), w') ∧
      f'.last = .string "angry" ∧ f'.eval (.var "mood") w' ≠ (.ok (.string "angry"), w') ∧
      f'.eval (.var "mood") w' = (.ok (.string "happy"), w') := by
  intro cat w f
  refine ⟨_, _, rfl, rfl, ?_, rfl⟩
  intro h
  have hsame : Except.ok (.string "happy") = (Except.ok (.string "angry") : Except Fault Value) :=
    congrArg Prod.fst h
  simp at hsame

end Frame

end EntityScript
