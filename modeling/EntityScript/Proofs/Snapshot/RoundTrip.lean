import EntityScript.Proofs.Snapshot.Literal
import EntityScript.Proofs.Source.Outline
import EntityScript.Proofs.Table.Declare
import EntityScript.Proofs.Table.Shape

/-! # Snapshots read back

The snapshot of a table scans to the tokens of its declared entities (`scans_entities`), and
from these the reader takes one declaration for each, with the values as they were written
(`declarations_tokens`). Names are distinct in the index, so none of them clashes, and the
declarations make a table whose snapshot is the same text (`table_reads_back`). -/

namespace EntityScript

open Source

/-! ## Scanning a snapshot -/

/-- The declared entities in the order of their declaration. -/
def Table.declared (t : Table) : List Entity := t.names.values.filterMap t.get?

namespace Snapshot

variable (t : Table)

/-- The tokens of a field. -/
def fieldTokens (f : String × Value) : List Token :=
  .keyword .has :: .ident f.1 :: .mark .colon :: f.2.tokens t

/-- The tokens of an entity. -/
def entityTokens (e : Entity) : List Token :=
  .keyword .entity :: .ident e.name :: .mark .leftBrace ::
    e.fields.entries.flatMap (fieldTokens t) ++ [.mark .rightBrace]

theorem scans_field {name : String} (hname : isName name = true) (v : Value) {rest : List Char}
    {ts : List Token} (hrest : Scans rest ts) :
    Scans ((field t name v).toList ++ rest) (fieldTokens t (name, v) ++ ts) := by
  have hend : Scans ('\n' :: rest) ts := hrest.gap rfl
  have hvalue := Value.scans_value t v (.cons (by decide) rest) hend
  have hcolon : Scans (':' :: ' ' :: ((value t v).toList ++ '\n' :: rest))
      (.mark .colon :: (v.tokens t ++ ts)) :=
    (hvalue.gap (c := ' ') rfl).plainMark .colon rfl
  have hident := hcolon.name hname (.cons rfl _)
  have hhas := (hident.gap (c := ' ') rfl).keyword .has (.cons rfl _)
  have hindented := (hhas.gap (c := ' ') rfl).gap (c := ' ') rfl
  unfold field fieldTokens
  simpa [Keyword.text, Mark.text] using hindented

theorem scans_fields {fs : List (String × Value)} (hnames : ∀ f ∈ fs, isName f.1 = true)
    {rest : List Char} {ts : List Token} (hrest : Scans rest ts) :
    Scans ((String.join (fs.map fun f => field t f.1 f.2)).toList ++ rest)
      (fs.flatMap (fieldTokens t) ++ ts) := by
  induction fs with
  | nil => exact hrest
  | cons f fs ih =>
    rw [List.forall_mem_cons] at hnames
    have hscans := scans_field t hnames.1 f.2 (ih hnames.2)
    rw [List.map_cons, String.join_cons, String.toList_append, List.append_assoc, List.flatMap_cons,
      List.append_assoc]
    exact hscans

/-- The names with which an entity is written can be read. -/
def Readable (e : Entity) : Prop :=
  isName e.name = true ∧ ∀ field ∈ e.fields.keys, isName field = true

instance (e : Entity) : Decidable (Readable e) := inferInstanceAs (Decidable (_ ∧ _))

theorem scans_entity {e : Entity} (he : Readable e) {rest : List Char} {ts : List Token}
    (hrest : Scans rest ts) :
    Scans ((entity t e).toList ++ rest) (entityTokens t e ++ ts) := by
  have hfields : ∀ f ∈ e.fields.entries, isName f.1 = true :=
    fun f hf => he.2 f.1 (List.mem_map_of_mem hf)
  have hclose := (hrest.gap (c := '\n') rfl).plainMark .rightBrace rfl
  have hfieldsScan := (scans_fields t hfields hclose).gap (c := '\n') rfl
  have hopen := hfieldsScan.plainMark .leftBrace rfl
  have hname := (hopen.gap (c := ' ') rfl).name he.1 (.cons rfl _)
  have hentity := (hname.gap (c := ' ') rfl).keyword .entity (.cons rfl _)
  unfold entity entityTokens
  simpa [Keyword.text, Mark.text] using hentity

theorem scans_entities {es : List Entity} (hes : ∀ e ∈ es, Readable e) :
    Scans ("\n".intercalate (es.map (entity t))).toList (es.flatMap (entityTokens t)) := by
  induction es with
  | nil => exact .nil
  | cons e es ih =>
    rw [List.forall_mem_cons] at hes
    cases es with
    | nil =>
      have hscans := scans_entity t hes.1 .nil
      simpa using hscans
    | cons e' es =>
      have hscans := scans_entity t hes.1 ((ih hes.2).gap (c := '\n') rfl)
      rw [List.map_cons, List.map_cons, String.intercalate_cons_cons, ← List.map_cons,
        String.toList_append, String.toList_append, List.append_assoc, List.flatMap_cons]
      exact hscans

end Snapshot

/-! ## Reading a snapshot -/

/-- What the snapshot of an entity declares. -/
def Entity.asWritten (t : Table) (e : Entity) : Declaration :=
  ⟨e.name, e.fields.mapValues (Value.asWritten t), []⟩

namespace Source.Parse

open Snapshot

variable {t : Table}

theorem member_tokens {f : String × Value} {ss : List Spanned}
    (hss : ss.map Spanned.token = fieldTokens t f) (rest : List Spanned) :
    member (ss ++ rest) = .ok (.field f.1 (f.2.asWritten t), rest) := by
  obtain ⟨_, _, ss₁, rfl, hss₁⟩ := map_token_eq_cons.mp hss
  obtain ⟨i, j, ss₂, rfl, hss₂⟩ := map_token_eq_cons.mp hss₁
  obtain ⟨k, l, ss₃, rfl, hss₃⟩ := map_token_eq_cons.mp hss₂
  have hident : ident "field name" (⟨.ident f.1, i, j⟩ :: ⟨.mark .colon, k, l⟩ :: (ss₃ ++ rest)) =
      .ok (f.1, _) := ident_eq_ok.mpr ⟨i, j, rfl⟩
  have hcolon : expect .colon (⟨.mark .colon, k, l⟩ :: (ss₃ ++ rest)) = .ok ((), _) :=
    expect_eq_ok.mpr ⟨k, l, rfl⟩
  have hfield : field (⟨.ident f.1, i, j⟩ :: ⟨.mark .colon, k, l⟩ :: (ss₃ ++ rest)) =
      .ok ((f.1, f.2.asWritten t), rest) := by
    rw [field, bind_ok hident, bind_ok hcolon, bind_ok (literal_tokens hss₃ rest)]
    rfl
  show (field (⟨.ident f.1, i, j⟩ :: ⟨.mark .colon, k, l⟩ :: (ss₃ ++ rest))).map _ = _
  rw [hfield]
  rfl

theorem membersThrough_tokens (name : String) {fs : List (String × Value)} (before : List Member)
    (hnodup : ((fieldsOf before).map Prod.fst ++ fs.map Prod.fst).Nodup) {ss : List Spanned}
    (hss : ss.map Spanned.token = fs.flatMap (fieldTokens t) ++ [.mark .rightBrace]) (fuel : Nat)
    (hfuel : ss.length ≤ fuel) (rest : List Spanned) :
    membersThrough (clash? name) fuel before (ss ++ rest) =
      .ok (before ++ fs.map fun f => .field f.1 (f.2.asWritten t), rest) := by
  induction fs generalizing before ss fuel with
  | nil =>
    obtain ⟨i, j, rfl⟩ := map_token_eq_singleton.mp hss
    obtain ⟨fuel, rfl⟩ : ∃ k, fuel = k + 1 := ⟨fuel - 1, by simp at hfuel; omega⟩
    rw [membersThrough, List.singleton_append, bind_ok (eat_self rest)]
    simp
  | cons f fs ih =>
    rw [List.flatMap_cons, List.append_assoc] at hss
    obtain ⟨ss₁, ss₂, rfl, hss₁, hss₂⟩ := List.map_eq_append_iff.mp hss
    obtain ⟨i, j, ss₁', rfl, _⟩ := map_token_eq_cons.mp hss₁
    rw [List.length_append, List.length_cons] at hfuel
    obtain ⟨fuel, rfl⟩ : ∃ k, fuel = k + 1 := ⟨fuel - 1, by omega⟩
    have hmember := member_tokens hss₁ (ss₂ ++ rest)
    have hopen : eat .rightBrace (⟨.keyword .has, i, j⟩ :: (ss₁' ++ (ss₂ ++ rest))) =
        .ok (false, _) := eat_of_ne (by simp) _
    have hclash : clash? name before (.field f.1 (f.2.asWritten t)) = none := by
      have hnew : f.1 ∉ (fieldsOf before).map Prod.fst := by
        intro hmem
        exact (List.nodup_append.mp hnodup).2.2 _ hmem _ (by simp) rfl
      have hany : ((fieldsOf before).any fun x => x.1 == f.1) = false := by
        rw [List.any_eq_false]
        intro x hx heq
        exact hnew (eq_of_beq heq ▸ List.mem_map_of_mem hx)
      simp only [clash?, hany, Bool.false_eq_true, if_false]
    have hnodup' : ((fieldsOf (before ++ [.field f.1 (f.2.asWritten t)])).map Prod.fst ++
        fs.map Prod.fst).Nodup := by
      simpa [fieldsOf_append, fieldsOf] using hnodup
    have hrest := ih _ hnodup' hss₂ fuel (by omega)
    rw [List.append_assoc, List.cons_append, membersThrough, bind_ok hopen]
    simp only [Bool.false_eq_true, if_false]
    rw [← List.cons_append, bind_ok hmember]
    simp only [hclash]
    simpa using hrest

theorem fieldsOf_fields (fs : List (String × Value)) :
    fieldsOf (fs.map fun f => .field f.1 (f.2.asWritten t)) =
      fs.map fun f => (f.1, f.2.asWritten t) := by
  induction fs with
  | nil => rfl
  | cons f fs ih => simp [fieldsOf]

theorem eventsOf_fields (fs : List (String × Value)) :
    eventsOf (fs.map fun f => .field f.1 (f.2.asWritten t)) = [] := by
  induction fs with
  | nil => rfl
  | cons f fs ih => simp [eventsOf]

theorem declaration_tokens {e : Entity} {ss : List Spanned}
    (hss : ss.map Spanned.token = entityTokens t e) (rest : List Spanned) :
    declaration (ss ++ rest) = .ok (e.asWritten t, rest) := by
  obtain ⟨_, _, ss₁, rfl, hss₁⟩ := map_token_eq_cons.mp hss
  obtain ⟨i, j, ss₂, rfl, hss₂⟩ := map_token_eq_cons.mp hss₁
  obtain ⟨k, l, ss₃, rfl, hss₃⟩ := map_token_eq_cons.mp hss₂
  have hident : ident "entity name"
      (⟨.ident e.name, i, j⟩ :: ⟨.mark .leftBrace, k, l⟩ :: (ss₃ ++ rest)) = .ok (e.name, _) :=
    ident_eq_ok.mpr ⟨i, j, rfl⟩
  have hbrace : expect .leftBrace (⟨.mark .leftBrace, k, l⟩ :: (ss₃ ++ rest)) = .ok ((), _) :=
    expect_eq_ok.mpr ⟨k, l, rfl⟩
  have hmembers : (fuelled fun fuel => membersThrough (clash? e.name) fuel []) (ss₃ ++ rest) =
      .ok (_, rest) := membersThrough_tokens e.name [] e.fields.nodup hss₃
    ((ss₃ ++ rest).length + 1) (by rw [List.length_append]; omega) rest
  have hfields : OrderedMap.ofList (e.fields.entries.map fun f => (f.1, f.2.asWritten t)) =
      e.fields.mapValues (Value.asWritten t) :=
    OrderedMap.ext (OrderedMap.entries_ofList (e.fields.mapValues (Value.asWritten t)).nodup)
  show (do
    let name ← ident "entity name"
    expect .leftBrace
    let ms ← fuelled fun fuel => membersThrough (clash? name) fuel []
    return ⟨name, .ofList (fieldsOf ms), eventsOf ms⟩ : Parse Declaration)
      (⟨.ident e.name, i, j⟩ :: ⟨.mark .leftBrace, k, l⟩ :: (ss₃ ++ rest)) = _
  rw [bind_ok hident, bind_ok hbrace, bind_ok hmembers, List.nil_append, fieldsOf_fields,
    eventsOf_fields, hfields]
  rfl

theorem declarations_tokens {es : List Entity} (before : List Declaration)
    (hnodup : (before.map Declaration.name ++ es.map Entity.name).Nodup) {ss : List Spanned}
    (hss : ss.map Spanned.token = es.flatMap (entityTokens t)) (fuel : Nat)
    (hfuel : ss.length < fuel) :
    declarations fuel before ss = .ok (before ++ es.map (Entity.asWritten t), []) := by
  induction es generalizing before ss fuel with
  | nil =>
    obtain rfl := List.map_eq_nil_iff.mp hss
    obtain ⟨fuel, rfl⟩ : ∃ k, fuel = k + 1 := ⟨fuel - 1, by omega⟩
    rw [List.map_nil, List.append_nil]
    rfl
  | cons e es ih =>
    rw [List.flatMap_cons] at hss
    obtain ⟨ss₁, ss₂, rfl, hss₁, hss₂⟩ := List.map_eq_append_iff.mp hss
    obtain ⟨i, j, ss₁', rfl, _⟩ := map_token_eq_cons.mp hss₁
    rw [List.length_append, List.length_cons] at hfuel
    obtain ⟨fuel, rfl⟩ : ∃ k, fuel = k + 1 := ⟨fuel - 1, by omega⟩
    have hend : atEnd (⟨.keyword .entity, i, j⟩ :: ss₁' ++ ss₂) = .ok (false, _) := rfl
    have hdeclaration := declaration_tokens hss₁ ss₂
    have hnew : (before.any fun d => d.name == (e.asWritten t).name) = false := by
      rw [List.any_eq_false]
      intro d hd heq
      exact (List.nodup_append.mp hnodup).2.2 _ (List.mem_map_of_mem hd) e.name (by simp)
        (eq_of_beq heq)
    have hnodup' :
        ((before ++ [e.asWritten t]).map Declaration.name ++ es.map Entity.name).Nodup := by
      simpa [Entity.asWritten] using hnodup
    have hrest := ih _ hnodup' hss₂ fuel (by omega)
    rw [declarations, bind_ok hend]
    simp only [Bool.false_eq_true, if_false]
    rw [bind_ok hdeclaration]
    simp only [hnew, Bool.false_eq_true, if_false]
    simpa using hrest

theorem program_tokens {es : List Entity} (hnodup : (es.map Entity.name).Nodup) {ss : List Spanned}
    (hss : ss.map Spanned.token = es.flatMap (entityTokens t)) :
    program ss = .ok (⟨es.map (Entity.asWritten t)⟩, []) := by
  have hall : (fuelled fun fuel => declarations fuel []) ss = .ok (_, []) :=
    declarations_tokens [] hnodup hss (ss.length + 1) (by omega)
  rw [program, bind_ok hall]
  rfl

end Source.Parse

/-- The snapshots of entities with different names are the program of what they declare. -/
theorem Program.parse_entities {t : Table} {es : List Entity} (hnodup : (es.map Entity.name).Nodup)
    (hes : ∀ e ∈ es, Snapshot.Readable e) :
    Program.parse ("\n".intercalate (es.map (Snapshot.entity t))) =
      .ok ⟨es.map (Entity.asWritten t)⟩ := by
  obtain ⟨ss, hscan, hss⟩ := (Snapshot.scans_entities t hes).scan
  exact Source.Parse.run_eq_ok.mpr ⟨ss, [], hscan, Source.Parse.program_tokens hnodup hss⟩

/-! ## The table of a snapshot -/

namespace Table

/-- Each name of the index stands for an entity of that name. -/
def NamesAgree (t : Table) : Prop :=
  ∀ name id e, t.idOf? name = some id → t.get? id = some e → e.name = name

theorem Valid.namesAgree {t : Table} (h : t.Valid) : t.NamesAgree := by
  intro name id e hid he
  obtain ⟨e', he', hname⟩ := h.indexed name id hid
  cases he.symm.trans he'
  exact hname

theorem declared_names_sublist (t : Table) {es : List (String × EntityId)}
    (h : ∀ p ∈ es, ∀ e, t.get? p.2 = some e → e.name = p.1) :
    (((es.map Prod.snd).filterMap t.get?).map Entity.name).Sublist (es.map Prod.fst) := by
  induction es with
  | nil => exact .slnil
  | cons p es ih =>
    rw [List.forall_mem_cons] at h
    rw [List.map_cons, List.map_cons, List.filterMap_cons]
    split
    · exact (ih h.2).cons _
    · rename_i e he
      rw [List.map_cons, h.1 e he]
      exact (ih h.2).cons_cons _

theorem declared_names_nodup {t : Table} (h : t.NamesAgree) :
    (t.declared.map Entity.name).Nodup := by
  refine t.names.nodup.sublist (declared_names_sublist t ?_)
  intro p hp e he
  exact h p.1 p.2 e (OrderedMap.lookup_of_mem t.names.nodup hp) he

/-- In a table of declarations alone, all entities are declared ones. -/
theorem Declares.declared {ds : List Declaration} {t' : Table} (h : Table.empty.Declares ds t') :
    t'.declared = t'.entities := by
  have hentities : t'.entities = ds.mapIdx fun i d => d.entity i := by
    simpa [Table.empty] using h.entities
  have hnames : t'.names.entries = ds.mapIdx fun i d => (d.name, ⟨i⟩) := by
    simpa [Table.empty, OrderedMap.empty] using h.names
  have hvalues : t'.names.values = t'.entities.map Entity.id := by
    rw [OrderedMap.values, hnames, hentities]
    exact List.ext_getElem (by simp) (by simp [Declaration.entity])
  have hincreasing : (t'.entities.map Entity.id).Pairwise fun a b => a.raw < b.raw := by
    rw [List.pairwise_iff_getElem]
    intro i j hi hj hlt
    simpa [hentities, Declaration.entity] using hlt
  have hget : ∀ e ∈ t'.entities, (t'.get? ∘ Entity.id) e = some e :=
    fun e he => find?_id_of_mem hincreasing he
  unfold Table.declared
  rw [hvalues, List.filterMap_map, List.filterMap_congr hget, List.filterMap_some]

theorem parse_snapshot {t : Table} {es : List Entity} (hnodup : (es.map Entity.name).Nodup)
    (hes : ∀ e ∈ es, Snapshot.Readable e) :
    ∃ t', Table.parse ("\n".intercalate (es.map (Snapshot.entity t))) = .ok t' ∧
      Table.empty.Declares (es.map (Entity.asWritten t)) t' := by
  have hparse := Program.parse_entities (t := t) hnodup hes
  have hnames : ((es.map (Entity.asWritten t)).map Declaration.name).Nodup := by
    simpa [Function.comp_def, Entity.asWritten] using hnodup
  obtain ⟨t', hall, hdeclares⟩ := Table.declareAll_free (t := Table.empty) hnames (fun _ _ => rfl)
  refine ⟨t', ?_, hdeclares⟩
  show (Program.parse _ >>= fun p => p.toTable.mapError ScriptFault.engine) = _
  rw [hparse]
  show (Program.toTable _).mapError ScriptFault.engine = _
  rw [Program.toTable, hall]
  rfl

end Table

namespace Snapshot

theorem entity_asWritten (t t' : Table) (e : Entity) (i : Nat) :
    entity t' ((e.asWritten t).entity i) = entity t e := by
  unfold entity
  simp [Entity.asWritten, Declaration.entity, OrderedMap.mapValues, Function.comp_def, field,
    Value.value_asWritten]

/-- **A snapshot reads back.** The snapshot of a table is a program of the declared entities in
their order, each with its fields in their order and every value as it was written; and the
snapshot of what was read is the same text again. -/
theorem table_reads_back {t : Table} (hnames : t.NamesAgree)
    (hreadable : ∀ e ∈ t.declared, Readable e) :
    ∃ t', Table.parse (table t) = .ok t' ∧
      t'.entities = (t.declared.mapIdx fun i e =>
        ⟨⟨i⟩, e.name, e.fields.mapValues (Value.asWritten t), .ofList [], false⟩) ∧
      t'.names.entries = (t.declared.mapIdx fun i e => (e.name, ⟨i⟩)) ∧
      table t' = table t := by
  obtain ⟨t', hparse, hdeclares⟩ :=
    Table.parse_snapshot (t := t) (Table.declared_names_nodup hnames) hreadable
  have hentities : t'.entities = t.declared.mapIdx fun i e => (e.asWritten t).entity i := by
    rw [hdeclares.entities]
    exact List.ext_getElem (by simp [Table.empty]) (by simp [Table.empty])
  have hindex : t'.names.entries = t.declared.mapIdx fun i e => (e.name, ⟨i⟩) := by
    rw [hdeclares.names]
    exact List.ext_getElem (by simp [Table.empty, OrderedMap.empty])
      (by simp [Table.empty, OrderedMap.empty, Entity.asWritten])
  refine ⟨t', hparse, hentities, hindex, ?_⟩
  show "\n".intercalate (t'.declared.map (entity t')) = "\n".intercalate (t.declared.map (entity t))
  rw [hdeclares.declared, hentities]
  congr 1
  exact List.ext_getElem (by simp) (by simp [entity_asWritten])

/-- Two declared entities and a copy of the first, with text to escape, a negative zero, a
number without a literal, and references inside pools, one of them to an entity that is gone. -/
def camp : Table where
  entities :=
    [⟨⟨0⟩, "hero", .ofList [("title", .string "the \"brave\"\n\\"), ("offset", .number (-0.0)),
        ("bag", .pool [.null, .pool [.entity ⟨1⟩, .entity ⟨9⟩], .number Number.nan])], ⟨[]⟩, false⟩,
      ⟨⟨1⟩, "foe_1", .empty, ⟨[]⟩, true⟩,
      ⟨⟨2⟩, "hero", .ofList [("title", .null)], ⟨[]⟩, false⟩]
  names := .ofList [("hero", ⟨0⟩), ("foe_1", ⟨1⟩)]
  nextId := 3

theorem camp_valid : camp.Valid where
  increasing := by decide
  below := by decide
  indexed := by
    intro name id hid
    have hfound : (if "hero" = name then some (⟨0⟩ : EntityId)
        else if "foe_1" = name then some ⟨1⟩ else none) = some id := hid
    split at hfound
    · rename_i hname
      cases hfound
      exact ⟨_, rfl, hname⟩
    · split at hfound
      · rename_i hname
        cases hfound
        exact ⟨_, rfl, hname⟩
      · cases hfound

theorem table_reads_back_camp :
    camp.NamesAgree ∧ (∀ e ∈ camp.declared, Readable e) ∧
    ∃ t', Table.parse (table camp) = .ok t' ∧
      t'.entities = (camp.declared.mapIdx fun i e =>
        ⟨⟨i⟩, e.name, e.fields.mapValues (Value.asWritten camp), .ofList [], false⟩) ∧
      t'.names.entries = (camp.declared.mapIdx fun i e => (e.name, ⟨i⟩)) ∧
      table t' = table camp := by
  have hreadable : ∀ e ∈ camp.declared, Readable e := by decide
  exact ⟨camp_valid.namesAgree, hreadable, table_reads_back camp_valid.namesAgree hreadable⟩

end Snapshot
end EntityScript
