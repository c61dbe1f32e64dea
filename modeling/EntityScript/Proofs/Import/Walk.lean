import EntityScript.Import.Splice
import EntityScript.Text.Line

/-! # The walk through imports

What counts of a file are its ordinary lines and its imports of what is there (`Entry`). A walk
through files, depth first, records all that it meets (`Walk`): an import of a file not met
before is followed at once by the record of that file, any other import by nothing.

From these rules it follows that a walk meets exactly the files that can be reached through
files not visited before (`Walk.reached`, `Walk.meets`), that each of them is recorded once and
in order (`Walk.own_of_new`), and that it stands behind the first import of it
(`Walk.placed`). -/

namespace EntityScript.Import

/-! ## Entries -/

/-- A line of a file that counts: an ordinary one, or an import of what is there. -/
inductive Entry where
  | line (file : Path) (text : String)
  | link (file target : Path)
  deriving DecidableEq

namespace Entry

/-- The file in which an entry stands. -/
def file : Entry → Path
  | .line p _ => p
  | .link p _ => p

/-- What an entry itself contributes to the text. -/
def text : Entry → String
  | .line _ s => s ++ "\n"
  | .link _ _ => ""

/-- The text that a record of entries comes to. -/
def texts (es : List Entry) : String := String.join (es.map text)

@[simp]
theorem texts_nil : texts [] = "" := rfl

@[simp]
theorem texts_cons (e : Entry) (es : List Entry) : texts (e :: es) = e.text ++ texts es := by
  rw [texts, List.map_cons, String.join_cons, texts]

@[simp]
theorem texts_append (es es' : List Entry) : texts (es ++ es') = texts es ++ texts es' := by
  induction es with
  | nil => simp
  | cons e es ih => rw [List.cons_append, texts_cons, ih, texts_cons, String.append_assoc]

/-- What a line of a file counts for: nothing if it is an import without a path, or of
something that is not there. -/
def ofLine? (t : Files) (p : Path) (line : String) : Option Entry :=
  match LineKind.of line with
  | .ordinary => some (.line p line)
  | .malformed => none
  | .importing path => (t.locate? p.dropLast path).map (.link p)

theorem file_ofLine? {t : Files} {p : Path} {line : String} {e : Entry}
    (h : ofLine? t p line = some e) : e.file = p := by
  unfold ofLine? at h
  split at h
  · cases h
    rfl
  · cases h
  · obtain ⟨q, _, rfl⟩ := Option.map_eq_some_iff.mp h
    rfl

end Entry

/-- The entries of a file in order; none if it cannot be read. -/
def Files.contents (t : Files) (p : Path) : List Entry :=
  match t.read? p with
  | some text => (Text.lines text).filterMap (Entry.ofLine? t p)
  | none => []

/-- A line of the file `a` imports `b`. -/
def Files.Imports (t : Files) (a b : Path) : Prop :=
  ∃ text, t.read? a = some text ∧ ∃ line ∈ Text.lines text, ∃ path,
    LineKind.of line = .importing path ∧ t.locate? a.dropLast path = some b

variable {t : Files} {visited visited' : List Path} {todo record : List Entry}

theorem Files.file_of_mem_contents {p : Path} {e : Entry} (h : e ∈ t.contents p) :
    e.file = p := by
  unfold contents at h
  split at h
  · obtain ⟨line, _, hline⟩ := List.mem_filterMap.mp h
    exact Entry.file_ofLine? hline
  · cases h

theorem Files.filter_contents (t : Files) (p q : Path) :
    (t.contents q).filter (fun e => e.file = p) = if p = q then t.contents q else [] := by
  split
  · rename_i hpq
    rw [List.filter_eq_self]
    intro e he
    exact decide_eq_true ((Files.file_of_mem_contents he).trans hpq.symm)
  · rename_i hpq
    rw [List.filter_eq_nil_iff]
    intro e he hfile
    exact hpq ((of_decide_eq_true hfile).symm.trans (Files.file_of_mem_contents he))

theorem Files.imports_iff {a b : Path} : t.Imports a b ↔ .link a b ∈ t.contents a := by
  unfold Imports contents
  cases t.read? a with
  | none => simp
  | some text =>
    simp only [Option.some.injEq, exists_eq_left', List.mem_filterMap]
    refine exists_congr fun line => and_congr_right fun _ => ?_
    unfold Entry.ofLine?
    cases LineKind.of line <;> simp

/-- A file that can be reached from `root` through files not visited before. -/
inductive Reached (t : Files) (visited : List Path) (root : Path) : Path → Prop
  | root : root ∉ visited → Reached t visited root root
  | next {a b : Path} : Reached t visited root a → t.Imports a b → b ∉ visited →
    Reached t visited root b

namespace Reached

variable {a b : Path}

theorem not_mem (h : Reached t visited a b) : b ∉ visited := by
  cases h with
  | root ha => exact ha
  | next _ _ hb => exact hb

theorem root_not_mem (h : Reached t visited a b) : a ∉ visited := by
  induction h with
  | root ha => exact ha
  | next _ _ _ ih => exact ih

/-- What is reached with more files visited is reached with fewer. -/
theorem extend {x : Path} (h : Reached t visited a b) (hv : visited ⊆ visited')
    (hx : Reached t visited' b x) : Reached t visited a x := by
  induction hx with
  | root => exact h
  | next _ himports hfresh ih => exact .next ih himports fun hmem => hfresh (hv hmem)

theorem of_subset (h : Reached t visited' a b) (hv : visited ⊆ visited') :
    Reached t visited a b :=
  .extend (.root fun hmem => h.root_not_mem (hv hmem)) hv h

/-- What is reached from an import in a file is reached from the file. -/
theorem of_link {p p' q x : Path} (hp : p ∉ visited) (hlink : .link p' q ∈ t.contents p)
    (h : Reached t (visited ++ [p]) q x) : Reached t visited p x := by
  obtain rfl : p' = p := Files.file_of_mem_contents hlink
  have hsubset := List.subset_append_left visited [p']
  have hq : q ∉ visited := fun hmem => h.root_not_mem (hsubset hmem)
  exact .extend (.next (.root hp) (Files.imports_iff.mpr hlink) hq) hsubset h

end Reached

/-! ## Walks -/

/-- The walk through the entries `todo`, with the files visited before and behind it and the
record of all that is met: a file not visited before is entered where an import of it is met. -/
inductive Walk (t : Files) : List Path → List Entry → List Entry → List Path → Prop
  | done {visited : List Path} : Walk t visited [] [] visited
  | line {visited visited' : List Path} {p : Path} {s : String} {todo record : List Entry} :
    Walk t visited todo record visited' →
    Walk t visited (.line p s :: todo) (.line p s :: record) visited'
  | again {visited visited' : List Path} {p q : Path} {todo record : List Entry} :
    q ∈ visited → Walk t visited todo record visited' →
    Walk t visited (.link p q :: todo) (.link p q :: record) visited'
  | enter {visited visited₁ visited' : List Path} {p q : Path} {todo inside record : List Entry} :
    q ∉ visited → (t.read? q).isSome →
    Walk t (visited ++ [q]) (t.contents q) inside visited₁ → Walk t visited₁ todo record visited' →
    Walk t visited (.link p q :: todo) (.link p q :: (inside ++ record)) visited'

namespace Walk

/-! ### The files that are met -/

/-- The files met are new ones, none of them twice. -/
theorem grows (h : Walk t visited todo record visited') :
    ∃ files, visited' = visited ++ files ∧ files.Nodup ∧ ∀ p ∈ files, p ∉ visited := by
  induction h with
  | done => exact ⟨[], (List.append_nil _).symm, .nil, fun _ hp => nomatch hp⟩
  | line _ ih => exact ih
  | again _ _ ih => exact ih
  | @enter visited _ _ _ q _ _ _ hq _ _ _ ih₁ ih₂ =>
    obtain ⟨files₁, rfl, hnodup₁, hnew₁⟩ := ih₁
    obtain ⟨files₂, rfl, hnodup₂, hnew₂⟩ := ih₂
    simp only [List.mem_append, List.mem_singleton, not_or] at hnew₁ hnew₂
    refine ⟨q :: files₁ ++ files₂, by simp, ?_, ?_⟩
    · rw [List.nodup_append]
      refine ⟨List.nodup_cons.mpr ⟨fun hmem => (hnew₁ q hmem).2 rfl, hnodup₁⟩, hnodup₂, ?_⟩
      rintro a ha b hb rfl
      have hfresh := hnew₂ a hb
      rcases List.mem_cons.mp ha with rfl | ha
      · exact hfresh.1.2 rfl
      · exact hfresh.2 ha
    · intro p hp
      simp only [List.cons_append, List.mem_cons, List.mem_append] at hp
      rcases hp with rfl | hp | hp
      · exact hq
      · exact (hnew₁ p hp).1
      · exact (hnew₂ p hp).1.1

theorem visited_subset (h : Walk t visited todo record visited') : visited ⊆ visited' := by
  obtain ⟨files, rfl, _⟩ := h.grows
  exact List.subset_append_left _ _

theorem todo_subset (h : Walk t visited todo record visited') : todo ⊆ record := by
  induction h with
  | done => exact List.Subset.refl _
  | line _ ih => exact List.cons_subset_cons _ ih
  | again _ _ ih => exact List.cons_subset_cons _ ih
  | enter _ _ _ _ _ ih => exact List.cons_subset_cons _ (List.subset_append_of_subset_right _ ih)

/-- Behind the walk, all that was imported is visited. -/
theorem target_visited (h : Walk t visited todo record visited') {p q : Path}
    (hlink : .link p q ∈ record) : q ∈ visited' := by
  induction h with
  | done => cases hlink
  | line _ ih =>
    rcases List.mem_cons.mp hlink with heq | hlink
    · cases heq
    · exact ih hlink
  | again hq hrest ih =>
    rcases List.mem_cons.mp hlink with heq | hlink
    · cases heq
      exact hrest.visited_subset hq
    · exact ih hlink
  | enter _ _ hinside hrest ih₁ ih₂ =>
    rcases List.mem_cons.mp hlink with heq | hlink
    · cases heq
      have hentered := hinside.visited_subset (List.mem_append_right _ List.mem_cons_self)
      exact hrest.visited_subset hentered
    · rcases List.mem_append.mp hlink with hlink | hlink
      · exact hrest.visited_subset (ih₁ hlink)
      · exact ih₂ hlink

/-- A file that is met can be read, and all its entries are recorded. -/
theorem met (h : Walk t visited todo record visited') {a : Path} (ha : a ∈ visited')
    (hnew : a ∉ visited) : (t.read? a).isSome ∧ t.contents a ⊆ record := by
  induction h with
  | done => exact absurd ha hnew
  | line _ ih => exact ⟨(ih ha hnew).1, List.subset_cons_of_subset _ (ih ha hnew).2⟩
  | again _ _ ih => exact ⟨(ih ha hnew).1, List.subset_cons_of_subset _ (ih ha hnew).2⟩
  | @enter visited visited₁ _ _ q _ _ _ _ hread hinside _ ih₁ ih₂ =>
    by_cases hq : a = q
    · subst hq
      exact ⟨hread, List.subset_cons_of_subset _
        (List.subset_append_of_subset_left _ hinside.todo_subset)⟩
    · by_cases hin : a ∈ visited₁
      · have hmet := ih₁ hin (by simp [hnew, hq])
        exact ⟨hmet.1, List.subset_cons_of_subset _ (List.subset_append_of_subset_left _ hmet.2)⟩
      · have hmet := ih₂ ha hin
        exact ⟨hmet.1, List.subset_cons_of_subset _ (List.subset_append_of_subset_right _ hmet.2)⟩

/-- A file that is met can be reached from an import on the way. -/
theorem reached (h : Walk t visited todo record visited') {x : Path} (hx : x ∈ visited')
    (hnew : x ∉ visited) : ∃ p q, .link p q ∈ todo ∧ Reached t visited q x := by
  induction h with
  | done => exact absurd hx hnew
  | line _ ih =>
    obtain ⟨p, q, hlink, hreached⟩ := ih hx hnew
    exact ⟨p, q, List.mem_cons_of_mem _ hlink, hreached⟩
  | again _ _ ih =>
    obtain ⟨p, q, hlink, hreached⟩ := ih hx hnew
    exact ⟨p, q, List.mem_cons_of_mem _ hlink, hreached⟩
  | @enter visited visited₁ _ p q _ _ _ hq _ hinside _ ih₁ ih₂ =>
    by_cases hxq : x = q
    · subst hxq
      exact ⟨p, x, List.mem_cons_self, .root hq⟩
    · by_cases hin : x ∈ visited₁
      · obtain ⟨p', q', hlink, hreached⟩ := ih₁ hin (by simp [hnew, hxq])
        exact ⟨p, q, List.mem_cons_self, .of_link hq hlink hreached⟩
      · obtain ⟨p', q', hlink, hreached⟩ := ih₂ hx hin
        have hsubset :=
          List.Subset.trans (List.subset_append_left visited [q]) hinside.visited_subset
        exact ⟨p', q', List.mem_cons_of_mem _ hlink, hreached.of_subset hsubset⟩

/-- All that can be reached from a file is visited behind a walk through it. -/
theorem meets {root x : Path} (h : Walk t (visited ++ [root]) (t.contents root) record visited')
    (hx : Reached t visited root x) : x ∈ visited' := by
  have hroot : root ∈ visited' := h.visited_subset (List.mem_append_right _ List.mem_cons_self)
  induction hx with
  | root => exact hroot
  | @next a b ha himports _ ih =>
    have hlink := Files.imports_iff.mp himports
    by_cases heq : a = root
    · subst heq
      exact h.target_visited (h.todo_subset hlink)
    · have hnew : a ∉ visited ++ [root] := by simp [ha.not_mem, heq]
      exact h.target_visited ((h.met ih hnew).2 hlink)

/-! ### The record -/

/-- Of a file visited before, what is recorded is what was to be walked through. -/
theorem own_of_visited (h : Walk t visited todo record visited') {p : Path} (hp : p ∈ visited) :
    record.filter (fun e => e.file = p) = todo.filter (fun e => e.file = p) := by
  induction h with
  | done => rfl
  | line _ ih => simp only [List.filter_cons, ih hp]
  | again _ _ ih => simp only [List.filter_cons, ih hp]
  | @enter _ _ _ _ q _ _ _ hq _ hinside _ ih₁ ih₂ =>
    have hne : p ≠ q := fun heq => hq (heq ▸ hp)
    have hp₁ := List.mem_append_left [q] hp
    have hnone := ih₁ hp₁
    rw [Files.filter_contents, if_neg hne] at hnone
    simp only [List.filter_cons, List.filter_append, hnone, List.nil_append,
      ih₂ (hinside.visited_subset hp₁)]

/-- Of a file that is met, what is recorded are its contents, once and in order. -/
theorem own_of_new (h : Walk t visited todo record visited')
    (htodo : ∀ e ∈ todo, e.file ∈ visited) {p : Path} (hp : p ∉ visited) :
    record.filter (fun e => e.file = p) = if p ∈ visited' then t.contents p else [] := by
  induction h with
  | done => rw [if_neg hp, List.filter_nil]
  | line _ ih =>
    rw [List.forall_mem_cons] at htodo
    have hne : ¬ _ = p := fun heq => hp (heq ▸ htodo.1)
    simp only [List.filter_cons, ih htodo.2 hp, decide_eq_false hne, Bool.false_eq_true, if_false]
  | again _ _ ih =>
    rw [List.forall_mem_cons] at htodo
    have hne : ¬ _ = p := fun heq => hp (heq ▸ htodo.1)
    simp only [List.filter_cons, ih htodo.2 hp, decide_eq_false hne, Bool.false_eq_true, if_false]
  | @enter visited visited₁ visited₂ _ q todo inside record hq _ hinside hrest ih₁ ih₂ =>
    rw [List.forall_mem_cons] at htodo
    have hne : ¬ _ = p := fun heq => hp (heq ▸ htodo.1)
    have hsubset : visited ⊆ visited₁ :=
      List.Subset.trans (List.subset_append_left _ _) hinside.visited_subset
    have hcontents : ∀ e ∈ t.contents q, e.file ∈ visited ++ [q] := fun e he =>
      List.mem_append_right _ (List.mem_singleton.mpr (Files.file_of_mem_contents he))
    have hnone : todo.filter (fun e => e.file = p) = [] := by
      rw [List.filter_eq_nil_iff]
      exact fun e he hfile => hp (of_decide_eq_true hfile ▸ htodo.2 e he)
    simp only [List.filter_cons, List.filter_append, decide_eq_false hne, Bool.false_eq_true,
      if_false]
    -- the file is entered here, or met inside of `q`, or met behind it
    by_cases hpq : p = q
    · subst hpq
      have hmem : p ∈ visited₁ :=
        hinside.visited_subset (List.mem_append_right _ List.mem_cons_self)
      rw [hinside.own_of_visited (List.mem_append_right _ List.mem_cons_self),
        hrest.own_of_visited hmem, hnone, Files.filter_contents, if_pos rfl, List.append_nil,
        if_pos (hrest.visited_subset hmem)]
    · have hfirst := ih₁ hcontents (by simp [hp, hpq])
      by_cases hmem : p ∈ visited₁
      · rw [hfirst, if_pos hmem, hrest.own_of_visited hmem, hnone, List.append_nil,
          if_pos (hrest.visited_subset hmem)]
      · rw [hfirst, if_neg hmem, List.nil_append]
        exact ih₂ (fun e he => hsubset (htodo.2 e he)) hmem

/-- A file that is met stands in the record behind the first import of it. -/
theorem placed (h : Walk t visited todo record visited') {q : Path} (hq : q ∈ visited')
    (hnew : q ∉ visited) : ∃ before p inside after v v',
      record = before ++ .link p q :: (inside ++ after) ∧ (∀ p', .link p' q ∉ before) ∧
      q ∈ v ∧ Walk t v (t.contents q) inside v' := by
  induction h with
  | done => exact absurd hq hnew
  | @line _ _ p s _ _ _ ih =>
    obtain ⟨before, p', inside, after, v, v', rfl, hfirst, hinside⟩ := ih hq hnew
    exact ⟨.line p s :: before, p', inside, after, v, v', rfl, by simpa using hfirst, hinside⟩
  | @again _ _ p q' _ _ hq' _ ih =>
    obtain ⟨before, p', inside, after, v, v', rfl, hfirst, hinside⟩ := ih hq hnew
    have hne : q ≠ q' := fun heq => hnew (heq ▸ hq')
    exact ⟨.link p q' :: before, p', inside, after, v, v', rfl, by simpa [hne] using hfirst,
      hinside⟩
  | @enter _ visited₁ _ p q' _ inside' record' _ _ hwalk hrest ih₁ ih₂ =>
    by_cases hqq : q = q'
    · subst hqq
      exact ⟨[], p, inside', record', _, _, rfl, by simp, by simp, hwalk⟩
    · by_cases hmem : q ∈ visited₁
      · obtain ⟨before, p', inside, after, v, v', rfl, hfirst, hinside⟩ :=
          ih₁ hmem (by simp [hnew, hqq])
        exact ⟨.link p q' :: before, p', inside, after ++ record', v, v', by simp,
          by simpa [hqq] using hfirst, hinside⟩
      · obtain ⟨before, p', inside, after, v, v', rfl, hfirst, hinside⟩ := ih₂ hq hmem
        -- all that is imported inside of `q'` is visited behind it, and `q` is not
        have hnone : ∀ p'', .link p'' q ∉ inside' :=
          fun p'' hlink => hmem (hwalk.target_visited hlink)
        refine ⟨.link p q' :: (inside' ++ before), p', inside, after, v, v', by simp, ?_, hinside⟩
        simp [hqq, hnone, hfirst]

end Walk

end EntityScript.Import
