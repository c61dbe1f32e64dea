import EntityScript.Proofs.Import.Walk

/-! # Splicing is the walk through imports

Splicing is defined with a bound on the length of a chain of imports. Each file of a chain but
the last is one that can be read and was not visited before, so the bound suffices for every
tree (`spliceWithin_splice`), and the computational default in `splice` is unreachable.

Splicing succeeds with the text of the walk through the file, or comes upon a file that cannot be
read (`spliceWithin_outcome`). Together with what is known of walks this gives
`resolve_splices_once`. -/

namespace EntityScript.Import

variable {t : Files} {p : Path} {visited visited' : List Path}

/-! ## One line of a file -/

/-- A text in front of what was spliced. -/
def Spliced.behind (text : String) (x : Spliced) : Spliced := (x.1.map (text ++ ·), x.2)

section Lines

variable {file : List Path → Path → Option Spliced} {line : String} {rest : List String}

theorem spliceLines_skip (h : Entry.ofLine? t p line = none) :
    spliceLines t p.dropLast file (line :: rest) visited =
      spliceLines t p.dropLast file rest visited := by
  cases hkind : LineKind.of line with
  | ordinary =>
    simp only [Entry.ofLine?, hkind] at h
    cases h
  | malformed => simp only [spliceLines, hkind]
  | importing path =>
    simp only [Entry.ofLine?, hkind] at h
    simp only [spliceLines, hkind, Option.map_eq_none_iff.mp h]

theorem spliceLines_line {p' : Path} {s : String} (h : Entry.ofLine? t p line = some (.line p' s)) :
    spliceLines t p.dropLast file (line :: rest) visited =
      (spliceLines t p.dropLast file rest visited).map (Spliced.behind (s ++ "\n")) := by
  cases hkind : LineKind.of line with
  | ordinary =>
    simp only [Entry.ofLine?, hkind] at h
    cases h
    simp only [spliceLines, hkind]
    cases spliceLines t p.dropLast file rest visited <;> rfl
  | malformed =>
    simp only [Entry.ofLine?, hkind] at h
    cases h
  | importing path =>
    simp only [Entry.ofLine?, hkind] at h
    obtain ⟨_, _, heq⟩ := Option.map_eq_some_iff.mp h
    cases heq

theorem spliceLines_link {p' q : Path} (h : Entry.ofLine? t p line = some (.link p' q)) :
    spliceLines t p.dropLast file (line :: rest) visited =
      match file visited q with
      | none => none
      | some (.error fault, visited') => some (.error fault, visited')
      | some (.ok text, visited') =>
        (spliceLines t p.dropLast file rest visited').map (Spliced.behind text) := by
  cases hkind : LineKind.of line with
  | ordinary =>
    simp only [Entry.ofLine?, hkind] at h
    cases h
  | malformed =>
    simp only [Entry.ofLine?, hkind] at h
    cases h
  | importing path =>
    simp only [Entry.ofLine?, hkind] at h
    obtain ⟨q', hlocated, heq⟩ := Option.map_eq_some_iff.mp h
    cases heq
    simp only [spliceLines, hkind, hlocated]
    match file visited q with
    | none => rfl
    | some (.error fault, visited') => rfl
    | some (.ok text, visited') =>
      simp only [Option.bind_eq_bind, Option.bind_some]
      cases spliceLines t p.dropLast file rest visited' <;> rfl

end Lines

/-! ## What splicing comes to -/

/-- How splicing the file `p` ends: with the text of the walk through it, none if it was visited
before; or because a file cannot be read that is reached. -/
def Outcome (t : Files) (visited : List Path) (p : Path) : Spliced → Prop
  | (.ok text, visited') =>
    (p ∈ visited ∧ text = "" ∧ visited' = visited) ∨
      p ∉ visited ∧ (t.read? p).isSome ∧ ∃ record,
        Walk t (visited ++ [p]) (t.contents p) record visited' ∧ text = Entry.texts record
  | (.error _, _) => ∃ x, Reached t visited p x ∧ t.read? x = none

/-- How splicing some entries ends. -/
def OutcomeOf (t : Files) (visited : List Path) (todo : List Entry) : Spliced → Prop
  | (.ok text, visited') =>
    ∃ record, Walk t visited todo record visited' ∧ text = Entry.texts record
  | (.error _, _) => ∃ p q x, .link p q ∈ todo ∧ Reached t visited q x ∧ t.read? x = none

section Outcome

variable {todo : List Entry} {x : Spliced}

theorem OutcomeOf.line (h : OutcomeOf t visited todo x) (p' : Path) (s : String) :
    OutcomeOf t visited (.line p' s :: todo) (x.behind (s ++ "\n")) := by
  match x, h with
  | (.ok _, _), ⟨record, hwalk, htext⟩ =>
    exact ⟨.line p' s :: record, .line hwalk, by rw [htext, Entry.texts_cons]; rfl⟩
  | (.error _, _), ⟨p, q, y, hlink, hy⟩ => exact ⟨p, q, y, List.mem_cons_of_mem _ hlink, hy⟩

/-- Behind an import that was spliced, the others go on with more files visited. -/
theorem OutcomeOf.link {p' q : Path} {text : String}
    (hfile : Outcome t visited q (.ok text, visited')) (h : OutcomeOf t visited' todo x) :
    OutcomeOf t visited (.link p' q :: todo) (x.behind text) := by
  rcases hfile with ⟨hq, rfl, rfl⟩ | ⟨hq, hread, inside, hinside, rfl⟩
  · match x, h with
    | (.ok _, _), ⟨record, hwalk, htext⟩ =>
      exact ⟨.link p' q :: record, .again hq hwalk, by rw [htext, Entry.texts_cons]; rfl⟩
    | (.error _, _), ⟨p, q', y, hlink, hy⟩ => exact ⟨p, q', y, List.mem_cons_of_mem _ hlink, hy⟩
  · match x, h with
    | (.ok _, _), ⟨record, hwalk, htext⟩ =>
      refine ⟨.link p' q :: (inside ++ record), .enter hq hread hinside hwalk, ?_⟩
      rw [htext, Entry.texts_cons, Entry.texts_append, Entry.text, String.empty_append]
    | (.error _, _), ⟨p, q', y, hlink, hreached, hy⟩ =>
      have hsubset := List.Subset.trans (List.subset_append_left visited [q]) hinside.visited_subset
      exact ⟨p, q', y, List.mem_cons_of_mem _ hlink, hreached.of_subset hsubset, hy⟩

theorem spliceLines_outcome {file : List Path → Path → Option Spliced}
    (hfile : ∀ visited q x, file visited q = some x → Outcome t visited q x) {lines : List String}
    (h : spliceLines t p.dropLast file lines visited = some x) :
    OutcomeOf t visited (lines.filterMap (Entry.ofLine? t p)) x := by
  induction lines generalizing visited x with
  | nil =>
    cases h
    exact ⟨[], .done, rfl⟩
  | cons line rest ih =>
    rw [List.filterMap_cons]
    match hline : Entry.ofLine? t p line with
    | none =>
      rw [spliceLines_skip hline] at h
      exact ih h
    | some (.line p' s) =>
      rw [spliceLines_line hline] at h
      obtain ⟨y, hy, rfl⟩ := Option.map_eq_some_iff.mp h
      exact (ih hy).line p' s
    | some (.link p' q) =>
      rw [spliceLines_link hline] at h
      match hq : file visited q with
      | none =>
        rw [hq] at h
        cases h
      | some (.error fault, visited₁) =>
        rw [hq] at h
        cases h
        obtain ⟨y, hy⟩ := hfile visited q _ hq
        exact ⟨p', q, y, List.mem_cons_self, hy⟩
      | some (.ok text, visited₁) =>
        rw [hq] at h
        obtain ⟨y, hy, rfl⟩ := Option.map_eq_some_iff.mp h
        exact .link (hfile visited q _ hq) (ih hy)

theorem Files.contents_of_read {text : String} (h : t.read? p = some text) :
    t.contents p = (Text.lines text).filterMap (Entry.ofLine? t p) := by
  rw [contents, h]

/-- A file that is entered ends as its entries do. -/
theorem OutcomeOf.outcome (hp : p ∉ visited) (hread : (t.read? p).isSome)
    (h : OutcomeOf t (visited ++ [p]) (t.contents p) x) : Outcome t visited p x := by
  match x, h with
  | (.ok _, _), ⟨record, hwalk, htext⟩ => exact .inr ⟨hp, hread, record, hwalk, htext⟩
  | (.error _, _), ⟨p', q, y, hlink, hreached, hy⟩ => exact ⟨y, .of_link hp hlink hreached, hy⟩

theorem spliceWithin_outcome (depth : Nat) :
    ∀ visited p x, spliceWithin t depth visited p = some x → Outcome t visited p x := by
  induction depth with
  | zero =>
    intro visited p x h
    cases h
  | succ depth ih =>
    intro visited p x h
    rw [spliceWithin] at h
    split at h
    · rename_i hp
      cases h
      exact .inl ⟨List.contains_iff_mem.mp hp, rfl, rfl⟩
    · rename_i hp
      have hnew : p ∉ visited := fun hmem => hp (List.contains_iff_mem.mpr hmem)
      dsimp only at h
      split at h
      · rename_i hread
        cases h
        exact ⟨p, .root hnew, hread⟩
      · rename_i text hread
        have hlines := spliceLines_outcome ih h
        rw [← Files.contents_of_read hread] at hlines
        exact hlines.outcome hnew (by rw [hread]; rfl)

end Outcome

/-! ## The bound on chains of imports -/

/-- How many paths of the tree are not visited. -/
def FileTree.unvisited (t : FileTree) (visited : List Path) : Nat :=
  t.nodes.keys.countP fun p => decide (p ∉ visited)

theorem countP_unvisited_le (h : visited ⊆ visited') (ps : List Path) :
    (ps.countP fun p => decide (p ∉ visited')) ≤ ps.countP fun p => decide (p ∉ visited) := by
  refine List.countP_mono_left fun p _ hp => ?_
  exact decide_eq_true fun hmem => of_decide_eq_true hp (h hmem)

theorem FileTree.mem_keys_of_read {t : FileTree} {text : String} (h : t.read? p = some text) :
    p ∈ t.nodes.keys := by
  rw [← OrderedMap.isSome_get?_iff]
  unfold read? get? at h
  split at h
  · rename_i hget
    split at hget
    · cases hget
    · rw [hget]
      rfl
  · cases h

/-- A file that is read is one less to visit. -/
theorem FileTree.unvisited_lt {t : FileTree} {text : String} (hread : t.read? p = some text)
    (hp : p ∉ visited) :
    t.unvisited (visited ++ [p]) < t.unvisited visited := by
  have hsubset := List.subset_append_left visited [p]
  obtain ⟨before, after, hkeys⟩ := List.append_of_mem (FileTree.mem_keys_of_read hread)
  have hbefore := countP_unvisited_le hsubset before
  have hafter := countP_unvisited_le hsubset after
  have hhere : decide (p ∉ visited ++ [p]) = false := by simp
  unfold unvisited
  rw [hkeys, List.countP_append, List.countP_append, List.countP_cons, List.countP_cons, hhere,
    decide_eq_true hp]
  simp only [Bool.false_eq_true, if_false, if_true]
  omega

theorem spliceLines_isSome {file : List Path → Path → Option Spliced} {n : Nat}
    (hfile : ∀ visited q, t.unvisited visited < n → (file visited q).isSome)
    (hgrows : ∀ visited q text visited', file visited q = some (.ok text, visited') →
      visited ⊆ visited') {lines : List String} (hn : t.unvisited visited < n) :
    (spliceLines t p.dropLast file lines visited).isSome := by
  induction lines generalizing visited with
  | nil => rfl
  | cons line rest ih =>
    match hline : Entry.ofLine? t p line with
    | none =>
      rw [spliceLines_skip hline]
      exact ih hn
    | some (.line p' s) =>
      rw [spliceLines_line hline, Option.isSome_map]
      exact ih hn
    | some (.link p' q) =>
      rw [spliceLines_link hline]
      obtain ⟨⟨r, visited₁⟩, hq⟩ := Option.isSome_iff_exists.mp (hfile visited q hn)
      rw [hq]
      match r, hq with
      | .error fault, _ => rfl
      | .ok text, hq =>
        have hle : t.unvisited visited₁ ≤ t.unvisited visited :=
          countP_unvisited_le (hgrows visited q text visited₁ hq) _
        exact (Option.isSome_map (f := Spliced.behind text)).trans (ih (by omega))

theorem Outcome.visited_subset {text : String} (h : Outcome t visited p (.ok text, visited')) :
    visited ⊆ visited' := by
  rcases h with ⟨_, _, rfl⟩ | ⟨_, _, record, hwalk, _⟩
  · exact List.Subset.refl _
  · exact List.Subset.trans (List.subset_append_left _ _) hwalk.visited_subset

theorem spliceWithin_isSome (depth : Nat) :
    ∀ visited p, t.unvisited visited < depth → (spliceWithin t depth visited p).isSome := by
  induction depth with
  | zero =>
    intro visited p hn
    omega
  | succ depth ih =>
    intro visited p hn
    rw [spliceWithin]
    split
    · rfl
    · rename_i hp
      dsimp only
      split
      · rfl
      · rename_i text hread
        have hlt := FileTree.unvisited_lt hread fun hmem => hp (List.contains_iff_mem.mpr hmem)
        exact spliceLines_isSome ih
          (fun _ _ _ _ h => (spliceWithin_outcome depth _ _ _ h).visited_subset) (by omega)

/-! ## A longer bound gives the same answer -/

theorem spliceLines_mono {f g : List Path → Path → Option Spliced}
    (hfg : ∀ visited q x, f visited q = some x → g visited q = some x) {lines : List String}
    {x : Spliced} (h : spliceLines t p.dropLast f lines visited = some x) :
    spliceLines t p.dropLast g lines visited = some x := by
  induction lines generalizing visited x with
  | nil => exact h
  | cons line rest ih =>
    match hline : Entry.ofLine? t p line with
    | none =>
      rw [spliceLines_skip hline] at h ⊢
      exact ih h
    | some (.line p' s) =>
      rw [spliceLines_line hline] at h ⊢
      obtain ⟨y, hy, rfl⟩ := Option.map_eq_some_iff.mp h
      rw [ih hy]
      rfl
    | some (.link p' q) =>
      rw [spliceLines_link hline] at h ⊢
      match hq : f visited q with
      | none =>
        rw [hq] at h
        cases h
      | some (.error fault, visited₁) =>
        rw [hq] at h
        rw [hfg _ _ _ hq]
        exact h
      | some (.ok text, visited₁) =>
        rw [hq] at h
        obtain ⟨y, hy, rfl⟩ := Option.map_eq_some_iff.mp h
        rw [hfg _ _ _ hq]
        simp only [ih hy]
        rfl

theorem spliceWithin_mono {d d' : Nat} (hd : d ≤ d') {x : Spliced}
    (h : spliceWithin t d visited p = some x) : spliceWithin t d' visited p = some x := by
  induction d generalizing d' visited p x with
  | zero => cases h
  | succ d ih =>
    obtain ⟨d', rfl⟩ : ∃ k, d' = k + 1 := ⟨d' - 1, by omega⟩
    rw [spliceWithin] at h ⊢
    split at h
    · rename_i hp
      rw [if_pos hp]
      exact h
    · rename_i hp
      rw [if_neg hp]
      dsimp only at h ⊢
      split at h
      · exact h
      · exact spliceLines_mono (fun _ _ _ hx => ih (by omega) hx) h

/-- The bound suffices, and no longer one gives another answer. -/
theorem spliceWithin_splice (t : Files) (visited : List Path) (p : Path) {depth : Nat}
    (hdepth : t.nodes.entries.length + 2 ≤ depth) :
    spliceWithin t depth visited p = some (splice t visited p) := by
  have hle : t.unvisited visited ≤ t.nodes.entries.length := by
    have hcount := List.countP_le_length (p := fun q => decide (q ∉ visited)) (l := t.nodes.keys)
    rwa [OrderedMap.keys, List.length_map] at hcount
  obtain ⟨x, hx⟩ := Option.isSome_iff_exists.mp
    (spliceWithin_isSome (t := t) (t.nodes.entries.length + 2) visited p (by omega))
  have hsplice : splice t visited p = x := by rw [splice, hx, Option.getD_some]
  rw [hsplice]
  exact spliceWithin_mono hdepth hx

theorem splice_outcome (t : Files) (visited : List Path) (p : Path) :
    Outcome t visited p (splice t visited p) :=
  spliceWithin_outcome _ visited p _ (spliceWithin_splice t visited p (Nat.le_refl _))

/-! ## Resolving a script -/

/-- What splicing the file `root` comes to: the text, the files visited behind it, the `files`
among them that are new, and the record of the walk. -/
structure IsSplice (t : Files) (visited : List Path) (root : Path) (text : String)
    (visited' files : List Path) (record : List Entry) : Prop where
  grown : visited' = visited ++ files
  distinct : files.Nodup
  reached : ∀ p, p ∈ files ↔ Reached t visited root p
  recorded : text = Entry.texts record
  /-- The entries of each new file are there once and in order, and no others. -/
  once : ∀ p, record.filter (fun e => e.file = p) = if p ∈ files then t.contents p else []
  walk : root ∈ files → Walk t (visited ++ [root]) (t.contents root) record visited'
  /-- Every other new file stands as a whole behind the first import of it. -/
  placed : ∀ q ∈ files, q ≠ root → ∃ before p inside after v v',
    record = before ++ .link p q :: (inside ++ after) ∧ (∀ p', .link p' q ∉ before) ∧
    inside.filter (fun e => e.file = q) = t.contents q ∧ Walk t v (t.contents q) inside v'

theorem isSplice_of_walk {root : Path} {record : List Entry} (hroot : root ∉ visited)
    (h : Walk t (visited ++ [root]) (t.contents root) record visited') :
    ∃ files, IsSplice t visited root (Entry.texts record) visited' files record := by
  obtain ⟨files, hgrown, hnodup, hfresh⟩ := h.grows
  have hvisited : visited' = visited ++ root :: files := by simp [hgrown]
  have hnew : ∀ q, q ∈ root :: files ↔ q ∈ visited' ∧ q ∉ visited := by
    intro q
    rw [hvisited, List.mem_append, List.mem_cons]
    constructor
    · rintro (rfl | hq)
      · exact ⟨.inr (.inl rfl), hroot⟩
      · exact ⟨.inr (.inr hq), fun hmem => hfresh q hq (List.mem_append_left _ hmem)⟩
    · rintro ⟨hold | hq, hout⟩
      · exact absurd hold hout
      · exact hq
  have hcontents : ∀ e ∈ t.contents root, e.file ∈ visited ++ [root] := fun e he =>
    List.mem_append_right _ (List.mem_singleton.mpr (Files.file_of_mem_contents he))
  refine ⟨root :: files, hvisited, ?_, ?_, rfl, ?_, fun _ => h, ?_⟩
  · refine List.nodup_cons.mpr ⟨fun hmem => hfresh root hmem ?_, hnodup⟩
    exact List.mem_append_right _ List.mem_cons_self
  · intro q
    constructor
    · intro hq
      obtain ⟨hmem, hout⟩ := (hnew q).mp hq
      by_cases heq : q = root
      · subst heq
        exact .root hroot
      · obtain ⟨p, q', hlink, hreached⟩ := h.reached hmem (by simp [hout, heq])
        exact .of_link hroot hlink hreached
    · intro hq
      exact (hnew q).mpr ⟨h.meets hq, hq.not_mem⟩
  · intro q
    by_cases hq : q ∈ visited ++ [root]
    · rw [h.own_of_visited hq, Files.filter_contents]
      rcases List.mem_append.mp hq with hold | hself
      · have hne : q ≠ root := fun heq => hroot (heq ▸ hold)
        rw [if_neg hne, if_neg fun hmem => ((hnew q).mp hmem).2 hold]
      · obtain rfl := List.mem_singleton.mp hself
        rw [if_pos rfl, if_pos List.mem_cons_self]
    · have hout : q ∉ visited := fun hmem => hq (List.mem_append_left _ hmem)
      rw [h.own_of_new hcontents hq]
      simp only [hnew q, hout, not_false_eq_true, and_true]
  · intro q hq hne
    obtain ⟨hmem, hout⟩ := (hnew q).mp hq
    obtain ⟨before, p, inside, after, v, v', hrecord, hfirst, hv, hinside⟩ :=
      h.placed hmem (by simp [hout, hne])
    refine ⟨before, p, inside, after, v, v', hrecord, hfirst, ?_, hinside⟩
    rw [hinside.own_of_visited hv, Files.filter_contents, if_pos rfl]

theorem Outcome.isSplice {text : String} (h : Outcome t visited p (.ok text, visited')) :
    ∃ files record, IsSplice t visited p text visited' files record := by
  rcases h with ⟨hp, rfl, rfl⟩ | ⟨hp, _, record, hwalk, rfl⟩
  · have hnone : ∀ q, ¬ Reached t visited' p q := fun q hq => hq.root_not_mem hp
    refine ⟨[], [], (List.append_nil _).symm, .nil, ?_, rfl, ?_, ?_, ?_⟩
    · exact fun q => ⟨fun hq => (nomatch hq), fun hq => absurd hq (hnone q)⟩
    · exact fun q => (if_neg List.not_mem_nil).symm
    · exact fun hmem => (nomatch hmem)
    · exact fun q hmem => (nomatch hmem)
  · obtain ⟨files, hsplice⟩ := isSplice_of_walk hp hwalk
    exact ⟨files, record, hsplice⟩

/-- Splicing succeeds exactly if all files that are reached can be read. -/
theorem splice_ok_iff (t : Files) (visited : List Path) (root : Path) :
    (∃ text, (splice t visited root).1 = .ok text) ↔
      ∀ p, Reached t visited root p → (t.read? p).isSome := by
  have houtcome := splice_outcome t visited root
  match hs : splice t visited root, houtcome with
  | (.error fault, visited'), ⟨x, hx, hread⟩ =>
    constructor
    · rintro ⟨text, htext⟩
      cases htext
    · intro hall
      have hsome := hall x hx
      rw [hread] at hsome
      cases hsome
  | (.ok text, visited'), houtcome =>
    refine ⟨fun _ q hq => ?_, fun _ => ⟨text, rfl⟩⟩
    rcases houtcome with ⟨hroot, _⟩ | ⟨hroot, hread, record, hwalk, _⟩
    · exact absurd hroot hq.root_not_mem
    · by_cases heq : q = root
      · subst heq
        exact hread
      · exact (hwalk.met (hwalk.meets hq) (by simp [hq.not_mem, heq])).1

/-- A script is resolved by splicing what its path leads to. -/
theorem resolve_eq_ok_iff {t : Files} {folder : Path} {path text : String} :
    resolve t folder visited path = (.ok text, visited') ↔
      extension path ∈ scriptExtensions ∧ ∃ root, t.locate? folder path = some root ∧
        splice t visited root = (.ok text, visited') := by
  unfold resolve
  rw [← List.contains_iff_mem]
  cases scriptExtensions.contains (extension path) with
  | false => simp
  | true => cases t.locate? folder path <;> simp

/-- **Imports are spliced once, where they are first met.** For every tree of files, however paths
are taken in it, and whatever was visited before, the recursion through imports needs no chain
longer than its bound. A script is resolved exactly if it has one of the extensions, is there, and
all files can be read that are reached from it through files not visited before. Then these files
are exactly the ones that are newly visited. The text consists of their ordinary lines, each ended
by a line feed: the lines of each file are there once and in order, and those of an imported file
stand as a whole where the first import of it is met on the walk through the files, depth first. -/
theorem resolve_splices_once (t : Files) (folder : Path) (visited : List Path) (path : String) :
    (∀ root depth, t.nodes.entries.length + 2 ≤ depth →
      spliceWithin t depth visited root = some (splice t visited root)) ∧
    ((∃ text, (resolve t folder visited path).1 = .ok text) ↔
      extension path ∈ scriptExtensions ∧ ∃ root, t.locate? folder path = some root ∧
        ∀ p, Reached t visited root p → (t.read? p).isSome) ∧
    ∀ text visited', resolve t folder visited path = (.ok text, visited') →
      ∃ root files record, t.locate? folder path = some root ∧
        IsSplice t visited root text visited' files record := by
  refine ⟨fun root depth hdepth => spliceWithin_splice t visited root hdepth, ⟨?_, ?_⟩, ?_⟩
  · rintro ⟨text, htext⟩
    obtain ⟨hext, root, hroot, hsplice⟩ := resolve_eq_ok_iff.mp (Prod.ext htext rfl)
    have hreads := (splice_ok_iff t visited root).mp ⟨text, congrArg Prod.fst hsplice⟩
    exact ⟨hext, root, hroot, hreads⟩
  · rintro ⟨hext, root, hroot, hreads⟩
    obtain ⟨text, htext⟩ := (splice_ok_iff t visited root).mpr hreads
    have hresolve := resolve_eq_ok_iff.mpr ⟨hext, root, hroot, Prod.ext htext rfl⟩
    exact ⟨text, congrArg Prod.fst hresolve⟩
  · intro text visited' h
    obtain ⟨-, root, hroot, hsplice⟩ := resolve_eq_ok_iff.mp h
    have houtcome := splice_outcome t visited root
    rw [hsplice] at houtcome
    obtain ⟨files, record, hsplice⟩ := houtcome.isSplice
    exact ⟨root, files, record, hroot, hsplice⟩

/-- Two scripts that import each other; the first one also imports the second again, and something
that is not there. -/
def FileTree.ring : FileTree := ⟨.ofList [
  (["a.mrph"], .file "import \"b.mrph\";\nimport \"c.mrph\";\nalpha\nimport \"b.mrph\";\n".toUTF8),
  (["b.mrph"], .file "beta\r\nimport \"a.mrph\";\ngamma".toUTF8)]⟩

theorem resolve_splices_once_ring :
    let text := "beta\ngamma\nalpha\n"
    let visited' : List Path := [["a.mrph"], ["b.mrph"]]
    resolve FileTree.ring [] [] "a.mrph" = (.ok text, visited') ∧
    ∃ root files record, FileTree.ring.locate? [] "a.mrph" = some root ∧
      IsSplice FileTree.ring [] root text visited' files record := by
  intro text visited'
  have hvalue : (resolve FileTree.ring [] [] "a.mrph").1.toOption = some text ∧
      (resolve FileTree.ring [] [] "a.mrph").2 = visited' := by decide +kernel
  have hresolve : resolve FileTree.ring [] [] "a.mrph" = (.ok text, visited') := by
    refine Prod.ext ?_ hvalue.2
    cases hr : (resolve FileTree.ring [] [] "a.mrph").1 with
    | error fault =>
      rw [hr] at hvalue
      cases hvalue.1
    | ok found =>
      rw [hr] at hvalue
      rw [Option.some.inj hvalue.1]
  exact ⟨hresolve, (resolve_splices_once FileTree.ring [] [] "a.mrph").2.2 text visited' hresolve⟩

end EntityScript.Import
