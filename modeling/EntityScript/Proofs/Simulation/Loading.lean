import EntityScript.Proofs.Simulation.Request
import EntityScript.Proofs.Source.Outline
import EntityScript.Proofs.Table.Declare

/-! # Loading and reloading

A program text is taken in as a whole or not at all. The names that a program declares
differ (`Program.names_nodup`), so once no name is in use the declarations of a load go
through one after another; a reload declares only names that it has just found free
(`Replacement.addAll_ok`). `World.taken_in_whole` says when a text is refused, that a refused
text leaves no trace, and that any other text leaves all its names declared. -/

namespace EntityScript

/-! ## Bringing declarations in -/

theorem Table.Declares.isSome_idOf? {t t' : Table} {ds : List Declaration}
    (h : t.Declares ds t') {d : Declaration} (hd : d ∈ ds) : (t'.idOf? d.name).isSome :=
  h.isSome_idOf?_iff.mpr (.inr (List.mem_map_of_mem hd))

namespace Replacement

/-- A declaration is never refused: afterwards its name is declared, and so is every name
that was. -/
theorem add_ok (r : Replacement) (d : Declaration) : ∃ r', r.add d = .ok r' ∧
    (r'.table.idOf? d.name).isSome ∧
    ∀ name, (r.table.idOf? name).isSome → (r'.table.idOf? name).isSome := by
  unfold add
  cases hname : r.table.idOf? d.name with
  | some id =>
    have hsome : (r.table.idOf? d.name).isSome := by rw [hname]; rfl
    exact ⟨_, rfl, hsome, fun _ h => h⟩
  | none =>
    obtain ⟨t', hdeclare, hdeclared⟩ := Table.declare_free hname
    simp only [hdeclare]
    refine ⟨_, rfl, hdeclared.isSome_idOf? List.mem_cons_self, ?_⟩
    intro name h
    simp only [hdeclared.idOf? hname]
    split
    · rfl
    · exact h

theorem addAll_ok (r : Replacement) (ds : List Declaration) : ∃ r', r.addAll ds = (.ok (), r') ∧
    (∀ d ∈ ds, (r'.table.idOf? d.name).isSome) ∧
    ∀ name, (r.table.idOf? name).isSome → (r'.table.idOf? name).isSome := by
  induction ds generalizing r with
  | nil => exact ⟨r, rfl, by simp, fun _ h => h⟩
  | cons d ds ih =>
    obtain ⟨r₁, hadd, hname, hkept⟩ := r.add_ok d
    obtain ⟨r', hall, hnames, hkept'⟩ := ih r₁
    refine ⟨r', by simp [addAll, hadd, hall], ?_, fun name h => hkept' name (hkept name h)⟩
    intro x hx
    rcases List.mem_cons.mp hx with rfl | hx
    · exact hkept' _ hname
    · exact hnames x hx

end Replacement

/-! ## Running events keeps the names -/

namespace World

theorem names_kept (names : OrderedMap String EntityId) : Kept fun w => w.table.names = names where
  change := by
    intro w w' hc hw
    cases hc with
    | copy hs =>
      unfold Table.copy
      split <;> exact hw
    | assign | destroy | send | subscribe | unsubscribe | host => exact hw
  pop := fun _ _ _ _ hw => hw
  report := fun _ _ hw => hw

theorem idOf?_broadcast (w : World) (budget : Nat) (ids : List EntityId) (event : String)
    (args : List Value) (name : String) :
    (w.broadcast budget ids event args).2.table.idOf? name = w.table.idOf? name := by
  have hkept := (names_kept w.table.names).broadcast budget ids event args rfl
  simp only [Table.idOf?, hkept]

/-! ## Taking in a program -/

variable (w : World) (budget : Nat) {source : String} {fault : ScriptFault} {p : Program}

theorem load_refused (h : Program.parse source = .error fault) :
    w.load budget source = (.error fault, w) := by
  simp only [load, h]

theorem load_taken (h : Program.parse source = .ok p) {d : Declaration}
    (hd : d ∈ p.declarations) (hname : (w.table.idOf? d.name).isSome) :
    ∃ fault, w.load budget source = (.error fault, w) := by
  cases hfind : p.declarations.find? fun d => (w.table.idOf? d.name).isSome with
  | none => exact absurd hname (List.find?_eq_none.mp hfind d hd)
  | some x => exact ⟨.duplicateEntity x.name, by simp only [load, h, hfind]⟩

theorem load_free (h : Program.parse source = .ok p)
    (hfree : ∀ d ∈ p.declarations, w.table.idOf? d.name = none) : ∃ ids table report w',
      w.table.declareAll p.declarations = (.ok ids, table) ∧
      w.load budget source = (.ok report, w') ∧
      ∀ d ∈ p.declarations, (w'.table.idOf? d.name).isSome := by
  have hfind : p.declarations.find? (fun d => (w.table.idOf? d.name).isSome) = none := by
    rw [List.find?_eq_none]
    intro d hd
    simp [hfree d hd]
  obtain ⟨table, hall, hdeclared⟩ := Table.declareAll_free (Program.names_nodup h) hfree
  refine ⟨_, table, _, _, hall, by simp only [load, h, hfind, hall]; rfl, ?_⟩
  intro d hd
  rw [idOf?_broadcast]
  exact hdeclared.isSome_idOf? hd

theorem reload_refused (h : Program.parse source = .error fault) :
    w.reload budget source = (.error fault, w) := by
  simp only [reload, h]

theorem reload_ok (h : Program.parse source = .ok p) : ∃ r report w',
      Replacement.addAll { table := w.table } p.declarations = (.ok (), r) ∧
      w.reload budget source = (.ok report, w') ∧
      ∀ d ∈ p.declarations, (w'.table.idOf? d.name).isSome := by
  obtain ⟨r, hall, hnames, _⟩ := Replacement.addAll_ok { table := w.table } p.declarations
  refine ⟨r, _, _, hall, by simp only [reload, h, hall]; rfl, ?_⟩
  intro d hd
  rw [idOf?_broadcast]
  exact hnames d hd

/-- **A program text is taken in as a whole or not at all.** A load is refused exactly if
the text is no program or one of its names is in use, a reload exactly if the text is no
program; and a refusal leaves the whole state as it was. Neither is ever stopped by a
declaration on its way, and one that goes through leaves every name of the program
declared. -/
theorem taken_in_whole (w : World) (budget : Nat) (source : String) :
    ((∃ fault, (w.load budget source).1 = .error fault) ↔
      (∃ fault, Program.parse source = .error fault) ∨
      ∃ p, Program.parse source = .ok p ∧
        ∃ d ∈ p.declarations, (w.table.idOf? d.name).isSome) ∧
    ((∃ fault, (w.reload budget source).1 = .error fault) ↔
      ∃ fault, Program.parse source = .error fault) ∧
    (∀ fault, (w.load budget source).1 = .error fault → (w.load budget source).2 = w) ∧
    (∀ fault, (w.reload budget source).1 = .error fault → (w.reload budget source).2 = w) ∧
    ∀ p, Program.parse source = .ok p →
      ((∀ d ∈ p.declarations, w.table.idOf? d.name = none) →
        (∃ ids table, w.table.declareAll p.declarations = (.ok ids, table)) ∧
        ∀ d ∈ p.declarations, ((w.load budget source).2.table.idOf? d.name).isSome) ∧
      (∃ r, Replacement.addAll { table := w.table } p.declarations = (.ok (), r)) ∧
      ∀ d ∈ p.declarations, ((w.reload budget source).2.table.idOf? d.name).isSome := by
  cases hparse : Program.parse source with
  | error fault => simp [load_refused w budget hparse, reload_refused w budget hparse]
  | ok p =>
    obtain ⟨r, _, _, hall, hreload, hreloaded⟩ := reload_ok w budget hparse
    by_cases htaken : ∃ d ∈ p.declarations, (w.table.idOf? d.name).isSome
    · obtain ⟨d, hd, hname⟩ := htaken
      obtain ⟨fault, hload⟩ := load_taken w budget hparse hd hname
      have hnotFree : ¬ ∀ d ∈ p.declarations, w.table.idOf? d.name = none := by
        intro hfree
        simp [hfree d hd] at hname
      refine ⟨?_, by simp [hreload], by simp [hload], by simp [hreload], ?_⟩
      · simp only [hload]
        exact ⟨fun _ => .inr ⟨p, rfl, d, hd, hname⟩, fun _ => ⟨fault, rfl⟩⟩
      · rintro _ ⟨⟩
        exact ⟨fun hfree => absurd hfree hnotFree, ⟨r, hall⟩, by rw [hreload]; exact hreloaded⟩
    · have hfree : ∀ d ∈ p.declarations, w.table.idOf? d.name = none := by
        intro d hd
        rw [← Option.not_isSome_iff_eq_none]
        exact fun hname => htaken ⟨d, hd, hname⟩
      obtain ⟨ids, table, _, _, hdeclare, hload, hloaded⟩ := load_free w budget hparse hfree
      refine ⟨?_, by simp [hreload], by simp [hload], by simp [hreload], ?_⟩
      · simp only [hload]
        constructor
        · rintro ⟨_, ⟨⟩⟩
        · rintro (⟨_, ⟨⟩⟩ | ⟨_, ⟨⟩, hd⟩)
          exact absurd hd htaken
      · rintro _ ⟨⟩
        exact ⟨fun _ => ⟨⟨ids, table, hdeclare⟩, by rw [hload]; exact hloaded⟩, ⟨r, hall⟩,
          by rw [hreload]; exact hreloaded⟩

end World

end EntityScript
