import EntityScript.Proofs.Source.Reader
import EntityScript.Proofs.Table.Declare
import EntityScript.Source.Program
import Mathlib.Data.List.Nodup

/-! # Distinct names

An outline is what a program text says before any names are compared: it is read like a
program, but names may come again (`Program.outline`). A text with an outline is refused as a
program exactly if a name comes again, and the refusal names it (`Program.parse_eq`): reading
stops at the first member or entity that clashes with those before it (`firstClash`).

So the names in a program differ, and its table has one entity for each declaration, with all
of its fields and events. -/

namespace EntityScript.Source.Parse

/-! ## The first clash -/

section FirstClash

variable {α β : Type} {clash? : List α → α → Option Refusal} {before added : List α}

/-- The first refusal among items that are added one after another, each of which may be
refused because of those before it. -/
def firstClash (clash? : List α → α → Option Refusal) : List α → List α → Option Refusal
  | _, [] => none
  | before, a :: added =>
    match clash? before a with
    | some refusal => some refusal
    | none => firstClash clash? (before ++ [a]) added

/-- The result `b`, unless there is a refusal. -/
def settle (refusal : Option Refusal) (b : β) : Except Refusal β :=
  match refusal with
  | some refusal => .error refusal
  | none => .ok b

theorem bind_settle {γ : Type} {p : Parse β} {refusal : Option Refusal} {b : β} {f : β → Parse γ}
    {ts mid : List Spanned} {c : γ × List Spanned} (h : p ts = settle refusal (b, mid))
    (hf : f b mid = .ok c) : (p >>= f) ts = settle refusal c := by
  cases refusal with
  | none => exact (bind_ok h f).trans hf
  | some refusal => exact bind_error h f

theorem exists_clash {refusal : Refusal} (h : firstClash clash? before added = some refusal) :
    ∃ mid a tail, added = mid ++ a :: tail ∧ clash? (before ++ mid) a = some refusal := by
  induction added generalizing before with
  | nil => cases h
  | cons a added ih =>
    rw [firstClash] at h
    split at h
    · rename_i hclash
      cases h
      exact ⟨[], a, added, rfl, by simpa using hclash⟩
    · obtain ⟨mid, x, tail, rfl, hclash⟩ := ih h
      exact ⟨a :: mid, x, tail, rfl, by simpa using hclash⟩

/-- If an item clashes exactly when it ends a property of lists, nothing clashes as long as
the property holds. -/
theorem firstClash_eq_none_iff {P : List α → Prop} (hfront : ∀ l l', P (l ++ l') → P l)
    (hclash : ∀ l a, P l → (clash? l a = none ↔ P (l ++ [a]))) (hbefore : P before) :
    firstClash clash? before added = none ↔ P (before ++ added) := by
  induction added generalizing before with
  | nil => simpa [firstClash] using hbefore
  | cons a added ih =>
    have hone := hclash before a hbefore
    rw [List.append_cons before a added]
    unfold firstClash
    cases hc : clash? before a with
    | none => exact ih (hone.mp hc)
    | some refusal =>
      have hends : ¬ P (before ++ [a]) := by
        rw [← hone, hc]
        simp
      simpa using fun hall => hends (hfront _ _ hall)

end FirstClash

/-! ## Members -/

/-- No field and no event comes twice. -/
def DistinctMembers (ms : List Member) : Prop :=
  ((fieldsOf ms).map Prod.fst).Nodup ∧ ((eventsOf ms).map Event.name).Nodup

theorem fieldsOf_append (ms ms' : List Member) :
    fieldsOf (ms ++ ms') = fieldsOf ms ++ fieldsOf ms' := List.filterMap_append

theorem eventsOf_append (ms ms' : List Member) :
    eventsOf (ms ++ ms') = eventsOf ms ++ eventsOf ms' := List.filterMap_append

theorem DistinctMembers.front {ms ms' : List Member} (h : DistinctMembers (ms ++ ms')) :
    DistinctMembers ms := by
  unfold DistinctMembers at h
  simp only [fieldsOf_append, eventsOf_append, List.map_append] at h
  exact ⟨(List.nodup_append.mp h.1).1, (List.nodup_append.mp h.2).1⟩

/-- A member clashes exactly if it makes a name come twice. -/
theorem clash?_eq_none_iff (entity : String) (before : List Member) (m : Member)
    (h : DistinctMembers before) :
    clash? entity before m = none ↔ DistinctMembers (before ++ [m]) := by
  unfold DistinctMembers at h ⊢
  rw [fieldsOf_append, eventsOf_append, List.map_append, List.map_append]
  cases m with
  | field name v =>
    have hfields : (fieldsOf [.field name v]).map Prod.fst = [name] := rfl
    have hevents : (eventsOf [.field name v]).map Event.name = [] := rfl
    rw [hfields, hevents, List.append_nil, ← List.concat_eq_append, List.nodup_concat]
    simp [clash?, h]
  | event e =>
    have hfields : (fieldsOf [.event e]).map Prod.fst = [] := rfl
    have hevents : (eventsOf [.event e]).map Event.name = [e.name] := rfl
    rw [hfields, hevents, List.append_nil, ← List.concat_eq_append, List.nodup_concat]
    simp [clash?, h]

theorem firstClash_members (entity : String) (ms : List Member) :
    firstClash (clash? entity) [] ms = none ↔ DistinctMembers ms :=
  firstClash_eq_none_iff (fun _ _ => DistinctMembers.front) (clash?_eq_none_iff entity)
    ⟨List.nodup_nil, List.nodup_nil⟩

/-- Members that go through together go through without comparing names. -/
theorem membersThrough_open {clash? : List Member → Member → Option Refusal} {fuel : Nat}
    {before ms : List Member} {ts rest : List Spanned}
    (h : membersThrough clash? fuel before ts = .ok (ms, rest)) :
    membersThrough (fun _ _ => none) fuel before ts = .ok (ms, rest) := by
  induction fuel generalizing before ts with
  | zero => cases h
  | succ fuel ih =>
    obtain ⟨closed, ts₁, hclosed, h⟩ := bind_eq_ok.mp h
    rw [membersThrough, bind_ok hclosed]
    cases closed with
    | true => exact h
    | false =>
      obtain ⟨m, ts₂, hm, h⟩ := bind_eq_ok.mp h
      refine (bind_ok hm _).trans ?_
      cases hclash : clash? before m with
      | none => exact ih (by simpa only [hclash] using h)
      | some refusal =>
        simp only [hclash] at h
        cases h

/-- Comparing names makes no difference but for the first clash. -/
theorem membersThrough_eq (clash? : List Member → Member → Option Refusal) {fuel : Nat}
    {before ms : List Member} {ts rest : List Spanned}
    (h : membersThrough (fun _ _ => none) fuel before ts = .ok (ms, rest)) :
    ∃ added, ms = before ++ added ∧
      membersThrough clash? fuel before ts =
        settle (firstClash clash? before added) (ms, rest) := by
  induction fuel generalizing before ts with
  | zero => cases h
  | succ fuel ih =>
    obtain ⟨closed, ts₁, hclosed, h⟩ := bind_eq_ok.mp h
    rw [membersThrough, bind_ok hclosed]
    cases closed with
    | true =>
      cases h
      exact ⟨[], by simp, rfl⟩
    | false =>
      obtain ⟨m, ts₂, hm, h⟩ := bind_eq_ok.mp h
      obtain ⟨added, rfl, hrest⟩ := ih h
      refine ⟨m :: added, by simp, (bind_ok hm _).trans ?_⟩
      unfold firstClash
      cases hclash : clash? before m with
      | none => exact hrest
      | some refusal => rfl

end EntityScript.Source.Parse

namespace EntityScript

open Source Source.Parse

/-! ## Outlines -/

/-- An entity as written: names may come again among its members. -/
structure Outline where
  name : String
  members : List Member
  deriving DecidableEq

namespace Outline

/-- The names of its fields, as often as they come. -/
def fieldNames (o : Outline) : List String := (fieldsOf o.members).map Prod.fst

/-- The names of its events, as often as they come. -/
def eventNames (o : Outline) : List String := (eventsOf o.members).map Event.name

/-- What it declares. A field that comes again takes its last value. -/
def declaration (o : Outline) : Declaration :=
  ⟨o.name, .ofList (fieldsOf o.members), eventsOf o.members⟩

/-- No entity comes twice, and within an entity no field and no event does. -/
def Distinct (os : List Outline) : Prop :=
  (os.map name).Nodup ∧ ∀ o ∈ os, o.fieldNames.Nodup ∧ o.eventNames.Nodup

/-- The fault names what comes twice, and where. -/
inductive Repeated (os : List Outline) : ScriptFault → Prop
  | entity {name : String} : 2 ≤ (os.map Outline.name).count name →
    Repeated os (.duplicateEntity name)
  | field {o : Outline} {name : String} : o ∈ os → 2 ≤ o.fieldNames.count name →
    Repeated os (.duplicateField o.name name)
  | event {o : Outline} {name : String} : o ∈ os → 2 ≤ o.eventNames.count name →
    Repeated os (.duplicateEvent o.name name)

end Outline

namespace Source.Parse

/-- An entity, where names may come again. -/
def outline : Parse Outline := do
  expectWord .entity
  let name ← ident "entity name"
  expect .leftBrace
  let ms ← fuelled fun fuel => membersThrough (fun _ _ => none) fuel []
  return ⟨name, ms⟩

/-- Entities through the end, at most `fuel` of them, where names may come again. -/
def outlines : Nat → List Outline → Parse (List Outline)
  | 0, _ => unexpected (Token.keyword .entity).text
  | fuel + 1, before => do
    if ← atEnd then
      return before
    let o ← outline
    outlines fuel (before ++ [o])

/-- A program, where names may come again. -/
def programOutline : Parse (List Outline) := fuelled fun fuel => outlines fuel []

/-- Why an entity may not stand behind the entities before it. -/
def entityClash? (before : List Outline) (o : Outline) : Option Refusal :=
  match firstClash (clash? o.name) [] o.members with
  | some refusal => some refusal
  | none =>
    if before.any fun o' => o'.name == o.name then some (.duplicateEntity o.name) else none

theorem entityClash?_eq_none_iff (before : List Outline) (o : Outline)
    (h : Outline.Distinct before) :
    entityClash? before o = none ↔ Outline.Distinct (before ++ [o]) := by
  have hmembers : firstClash (clash? o.name) [] o.members = none ↔
      o.fieldNames.Nodup ∧ o.eventNames.Nodup := firstClash_members o.name o.members
  have hnames : (before.map Outline.name ++ [o.name]).Nodup ↔
      o.name ∉ before.map Outline.name ∧ (before.map Outline.name).Nodup := by
    rw [← List.concat_eq_append, List.nodup_concat]
  unfold Outline.Distinct at h ⊢
  rw [List.map_append, List.map_singleton, hnames, List.forall_mem_append,
    List.forall_mem_singleton]
  unfold entityClash?
  cases hfirst : firstClash (clash? o.name) [] o.members with
  | some refusal =>
    rw [hfirst] at hmembers
    simp [← hmembers]
  | none =>
    have hdistinct := hmembers.mp hfirst
    simpa [h.1, hdistinct] using fun _ => h.2

theorem outline_of_declaration {ts rest : List Spanned} {d : Declaration}
    (h : declaration ts = .ok (d, rest)) :
    ∃ o, outline ts = .ok (o, rest) ∧ o.declaration = d := by
  obtain ⟨_, ts₁, hword, h⟩ := bind_eq_ok.mp h
  obtain ⟨name, ts₂, hname, h⟩ := bind_eq_ok.mp h
  obtain ⟨_, ts₃, hbrace, h⟩ := bind_eq_ok.mp h
  obtain ⟨ms, ts₄, hms, h⟩ := bind_eq_ok.mp h
  cases h
  have hopen : (fuelled fun fuel => membersThrough (fun _ _ => none) fuel []) ts₃ =
      .ok (ms, rest) := membersThrough_open hms
  refine ⟨⟨name, ms⟩, ?_, rfl⟩
  rw [outline, bind_ok hword, bind_ok hname, bind_ok hbrace, bind_ok hopen]
  rfl

theorem declaration_eq {ts rest : List Spanned} {o : Outline} (h : outline ts = .ok (o, rest)) :
    declaration ts = settle (firstClash (clash? o.name) [] o.members) (o.declaration, rest) := by
  obtain ⟨_, ts₁, hword, h⟩ := bind_eq_ok.mp h
  obtain ⟨name, ts₂, hname, h⟩ := bind_eq_ok.mp h
  obtain ⟨_, ts₃, hbrace, h⟩ := bind_eq_ok.mp h
  obtain ⟨ms, ts₄, hms, h⟩ := bind_eq_ok.mp h
  cases h
  obtain ⟨_, rfl, hclash⟩ := membersThrough_eq (clash? name) hms
  have hmembers : (fuelled fun fuel => membersThrough (clash? name) fuel []) ts₃ =
      settle (firstClash (clash? name) [] ms) (ms, rest) := hclash
  rw [declaration, bind_ok hword, bind_ok hname, bind_ok hbrace]
  exact bind_settle hmembers rfl

theorem outlines_of_declarations {fuel : Nat} (before : List Outline) {ds : List Declaration}
    {ts rest : List Spanned}
    (h : declarations fuel (before.map Outline.declaration) ts = .ok (ds, rest)) :
    ∃ os, outlines fuel before ts = .ok (os, rest) ∧ os.map Outline.declaration = ds := by
  induction fuel generalizing before ts with
  | zero => cases h
  | succ fuel ih =>
    obtain ⟨done, ts₁, hdone, h⟩ := bind_eq_ok.mp h
    rw [outlines, bind_ok hdone]
    cases done with
    | true =>
      cases h
      exact ⟨before, rfl, rfl⟩
    | false =>
      obtain ⟨d, ts₂, hd, h⟩ := bind_eq_ok.mp h
      obtain ⟨o, ho, rfl⟩ := outline_of_declaration hd
      cases hany : (before.map Outline.declaration).any fun d => d.name == o.declaration.name with
      | true =>
        simp only [hany, if_true] at h
        cases h
      | false =>
        simp only [hany, Bool.false_eq_true, if_false] at h
        rw [← List.map_singleton, ← List.map_append] at h
        obtain ⟨os, hos, hds⟩ := ih _ h
        exact ⟨os, (bind_ok ho _).trans hos, hds⟩

/-- Comparing names makes no difference but for the first clash. -/
theorem declarations_eq {fuel : Nat} {before os : List Outline} {ts rest : List Spanned}
    (h : outlines fuel before ts = .ok (os, rest)) :
    ∃ added, os = before ++ added ∧ declarations fuel (before.map Outline.declaration) ts =
      settle (firstClash entityClash? before added) (os.map Outline.declaration, rest) := by
  induction fuel generalizing before ts with
  | zero => cases h
  | succ fuel ih =>
    obtain ⟨done, ts₁, hdone, h⟩ := bind_eq_ok.mp h
    rw [declarations, bind_ok hdone]
    cases done with
    | true =>
      cases h
      exact ⟨[], by simp, rfl⟩
    | false =>
      obtain ⟨o, ts₂, ho, h⟩ := bind_eq_ok.mp h
      obtain ⟨added, rfl, hrest⟩ := ih h
      have hdeclaration := declaration_eq ho
      refine ⟨o :: added, by simp, ?_⟩
      rw [firstClash, entityClash?]
      cases hmembers : firstClash (clash? o.name) [] o.members with
      | some refusal =>
        rw [hmembers] at hdeclaration
        exact bind_error hdeclaration _
      | none =>
        rw [hmembers] at hdeclaration
        refine (bind_ok hdeclaration _).trans ?_
        have hany : ((before.map Outline.declaration).any fun d => d.name == o.declaration.name) =
            before.any fun o' => o'.name == o.name := by
          rw [List.any_map]
          rfl
        rw [hany]
        cases before.any fun o' => o'.name == o.name with
        | true => rfl
        | false => simpa using hrest

end Source.Parse

/-! ## Programs -/

/-- What a program text says before names are compared. -/
def Program.outline (source : String) : Except ScriptFault (List Outline) :=
  programOutline.run source

namespace Outline

theorem Distinct.front {os os' : List Outline} (h : Distinct (os ++ os')) : Distinct os := by
  unfold Distinct at h
  rw [List.map_append, List.forall_mem_append] at h
  exact ⟨(List.nodup_append.mp h.1).1, h.2.1⟩

theorem firstClash_entities (os : List Outline) :
    firstClash entityClash? [] os = none ↔ Distinct os :=
  firstClash_eq_none_iff (fun _ _ => Distinct.front) entityClash?_eq_none_iff
    ⟨List.nodup_nil, by simp⟩

theorem two_le_count {xs ys : List String} {x : String} (h : x ∈ xs) :
    2 ≤ (xs ++ x :: ys).count x := by
  have hpos : 0 < xs.count x := List.count_pos_iff.mpr h
  rw [List.count_append, List.count_cons_self]
  omega

theorem repeated_of_clash {os : List Outline} {o : Outline} (ho : o ∈ os) {refusal : Refusal}
    (h : firstClash (clash? o.name) [] o.members = some refusal) (source : String) :
    Repeated os (refusal.toScriptFault source) := by
  obtain ⟨mid, m, tail, hmembers, hclash⟩ := exists_clash h
  rw [List.nil_append] at hclash
  cases m with
  | field name v =>
    simp only [clash?] at hclash
    split at hclash
    · rename_i hany
      cases hclash
      refine .field ho ?_
      have hmem : name ∈ (fieldsOf mid).map Prod.fst := by simpa using hany
      have hnames : o.fieldNames = (fieldsOf mid).map Prod.fst ++ name ::
          (fieldsOf tail).map Prod.fst := by
        rw [fieldNames, hmembers, fieldsOf_append, List.map_append]
        rfl
      rw [hnames]
      exact two_le_count hmem
    · cases hclash
  | event e =>
    simp only [clash?] at hclash
    split at hclash
    · rename_i hany
      cases hclash
      refine .event ho ?_
      have hmem : e.name ∈ (eventsOf mid).map Event.name := by simpa using hany
      have hnames : o.eventNames = (eventsOf mid).map Event.name ++ e.name ::
          (eventsOf tail).map Event.name := by
        rw [eventNames, hmembers, eventsOf_append, List.map_append]
        rfl
      rw [hnames]
      exact two_le_count hmem
    · cases hclash

theorem repeated_of_firstClash {os : List Outline} {refusal : Refusal}
    (h : firstClash entityClash? [] os = some refusal) (source : String) :
    Repeated os (refusal.toScriptFault source) := by
  obtain ⟨mid, o, tail, rfl, hclash⟩ := exists_clash h
  rw [List.nil_append, entityClash?] at hclash
  split at hclash
  · rename_i hmembers
    cases hclash
    exact repeated_of_clash (by simp) hmembers source
  · split at hclash
    · rename_i hany
      cases hclash
      refine .entity ?_
      have hmem : o.name ∈ mid.map Outline.name := by simpa using hany
      rw [List.map_append, List.map_cons]
      exact two_le_count hmem
    · cases hclash

end Outline

namespace Program

variable {source : String} {os : List Outline} {p : Program}

/-- A text with an outline is the program of that outline, unless a name comes again. -/
theorem parse_eq (h : Program.outline source = .ok os) :
    Program.parse source =
      (settle (firstClash entityClash? [] os) ⟨os.map Outline.declaration⟩).mapError
        (Refusal.toScriptFault source) := by
  obtain ⟨ts, rest, hscan, houtline⟩ := run_eq_ok.mp h
  obtain ⟨_, rfl, hall⟩ := declarations_eq houtline
  have hdeclarations : (fuelled fun fuel => Parse.declarations fuel []) ts =
      settle (firstClash entityClash? [] os) (os.map Outline.declaration, rest) := hall
  have hprogram : program ts =
      settle (firstClash entityClash? [] os) (⟨os.map Outline.declaration⟩, rest) :=
    bind_settle hdeclarations rfl
  unfold Program.parse run
  simp only [hscan, hprogram]
  cases firstClash entityClash? [] os <;> rfl

theorem outline_of_parse (h : Program.parse source = .ok p) :
    ∃ os, Program.outline source = .ok os ∧ Outline.Distinct os ∧
      p.declarations = os.map Outline.declaration := by
  obtain ⟨ts, rest, hscan, hprogram⟩ := run_eq_ok.mp h
  obtain ⟨ds, mid, hds, hp⟩ := bind_eq_ok.mp hprogram
  cases hp
  obtain ⟨os, hos, rfl⟩ := outlines_of_declarations [] hds
  have houtline : Program.outline source = .ok os := run_eq_ok.mpr ⟨ts, rest, hscan, hos⟩
  refine ⟨os, houtline, ?_, rfl⟩
  rw [← Outline.firstClash_entities, Option.eq_none_iff_forall_not_mem]
  intro refusal hclash
  rw [parse_eq houtline, Option.mem_def.mp hclash] at h
  cases h

theorem names_nodup (h : Program.parse source = .ok p) :
    (p.declarations.map Declaration.name).Nodup := by
  obtain ⟨os, _, hdistinct, hp⟩ := outline_of_parse h
  rw [hp, List.map_map]
  exact hdistinct.1

theorem eventNames_nodup (h : Program.parse source = .ok p) {d : Declaration}
    (hd : d ∈ p.declarations) : (d.events.map Event.name).Nodup := by
  obtain ⟨os, _, hdistinct, hp⟩ := outline_of_parse h
  rw [hp] at hd
  obtain ⟨o, ho, rfl⟩ := List.mem_map.mp hd
  exact (hdistinct.2 o ho).2

end Program

/-! ## The table of a program -/

/-- The table has one entity for each declaration, in order, with all of its fields and
events, and each event is found by its name. -/
structure Table.Presents (t : Table) (ds : List Declaration) : Prop where
  entities : t.entities = ds.mapIdx fun i d => ⟨⟨i⟩, d.name, d.fields, ⟨d.events⟩, false⟩
  names : t.names.entries = ds.mapIdx fun i d => (d.name, ⟨i⟩)
  nextId : t.nextId = ds.length
  events : ∀ e ∈ t.entities, ∀ event ∈ e.events.events, e.event? event.name = some event

theorem Program.toTable_presents {p : Program}
    (hnames : (p.declarations.map Declaration.name).Nodup)
    (hevents : ∀ d ∈ p.declarations, (d.events.map Event.name).Nodup) :
    ∃ t, p.toTable = .ok t ∧ t.Presents p.declarations := by
  obtain ⟨t, hall, hdeclares⟩ :=
    Table.declareAll_free (t := Table.empty) hnames (fun _ _ => rfl)
  have hentities : t.entities =
      p.declarations.mapIdx fun i d => ⟨⟨i⟩, d.name, d.fields, ⟨d.events⟩, false⟩ := by
    rw [hdeclares.entities, Declaration.mapIdx_entity hevents]
    simp [Table.empty]
  refine ⟨t, by rw [toTable, hall], hentities, ?_, ?_, ?_⟩
  · simpa [Table.empty, OrderedMap.empty] using hdeclares.names
  · simpa [Table.empty] using hdeclares.nextId
  · intro e he event hevent
    rw [hentities] at he
    obtain ⟨i, hi, rfl⟩ := List.mem_mapIdx.mp he
    exact EventSet.get?_of_mem (hevents _ (List.getElem_mem hi)) hevent

/-- **Names are distinct, from the text to the table.** In a program no name of an entity, and
within an entity no name of a field or of an event, comes twice; nothing that the text says is
lost in its declarations or in its table. A text that can be read without comparing names is
refused exactly if a name comes twice, for a name that does. -/
theorem Program.names_distinct (source : String) :
    (∀ p, Program.parse source = .ok p →
      (p.declarations.map Declaration.name).Nodup ∧
      (∀ d ∈ p.declarations, d.fields.keys.Nodup ∧ (d.events.map Event.name).Nodup) ∧
      (∃ os, Program.outline source = .ok os ∧ Outline.Distinct os ∧
        p.declarations = os.map Outline.declaration ∧
        ∀ o ∈ os, o.declaration.fields.entries = fieldsOf o.members) ∧
      ∃ t, p.toTable = .ok t ∧ t.Presents p.declarations) ∧
    (∀ os, Program.outline source = .ok os →
      ((∃ fault, Program.parse source = .error fault) ↔ ¬ Outline.Distinct os) ∧
      (∀ fault, Program.parse source = .error fault → Outline.Repeated os fault)) := by
  constructor
  · intro p hp
    have hnames := names_nodup hp
    have hevents : ∀ d ∈ p.declarations, (d.events.map Event.name).Nodup :=
      fun _ => eventNames_nodup hp
    obtain ⟨os, houtline, hdistinct, hdeclarations⟩ := outline_of_parse hp
    refine ⟨hnames, fun d hd => ⟨d.fields.nodup, hevents d hd⟩,
      ⟨os, houtline, hdistinct, hdeclarations, ?_⟩, toTable_presents hnames hevents⟩
    exact fun o ho => OrderedMap.entries_ofList (hdistinct.2 o ho).1
  · intro os houtline
    rw [parse_eq houtline, ← Outline.firstClash_entities]
    cases hclash : firstClash entityClash? [] os with
    | none => simp [settle, Except.mapError]
    | some refusal =>
      have hrepeated := Outline.repeated_of_firstClash hclash source
      simpa [settle, Except.mapError] using hrepeated

/-- A text in which a field comes twice, and then the entity. -/
def Outline.twins : String :=
  "entity hut \x7b has door: true has door: null \x7d entity hut \x7b on open \x7b \x7d \x7d"

/-- A text in which a field and an event of different entities have the same names. -/
def Outline.neighbours : String :=
  "entity hut \x7b has door: true on open \x7b \x7d \x7d " ++
    "entity barn \x7b has door: null on open \x7b \x7d on shut \x7b \x7d \x7d"

theorem Program.names_distinct_twins :
    (∃ os, Program.outline Outline.twins = .ok os ∧ ¬ Outline.Distinct os ∧
      Program.parse Outline.twins = .error (.duplicateField "hut" "door") ∧
      Outline.Repeated os (.duplicateField "hut" "door")) ∧
    ∃ p t, Program.parse Outline.neighbours = .ok p ∧
      p.declarations.map Declaration.name = ["hut", "barn"] ∧
      p.toTable = .ok t ∧ t.Presents p.declarations := by
  constructor
  · have houtline : Program.outline Outline.twins =
        .ok [⟨"hut", [.field "door" (.bool true), .field "door" .null]⟩,
          ⟨"hut", [.event ⟨"open", [], []⟩]⟩] := by decide +kernel
    have hparse : Program.parse Outline.twins = .error (.duplicateField "hut" "door") := by
      decide +kernel
    have hsettled := (Program.names_distinct Outline.twins).2 _ houtline
    exact ⟨_, houtline, hsettled.1.mp ⟨_, hparse⟩, hparse, hsettled.2 _ hparse⟩
  · have hparse : Program.parse Outline.neighbours =
        .ok ⟨[⟨"hut", .ofList [("door", .bool true)], [⟨"open", [], []⟩]⟩,
          ⟨"barn", .ofList [("door", .null)], [⟨"open", [], []⟩, ⟨"shut", [], []⟩]⟩]⟩ := by
      decide +kernel
    obtain ⟨_, _, _, t, htable, hpresents⟩ := (Program.names_distinct Outline.neighbours).1 _ hparse
    exact ⟨_, t, hparse, rfl, htable, hpresents⟩

end EntityScript
