/-! # Ordered maps

A finite map that remembers the order in which its keys were first put in. What is taken over is
the documented behaviour of insertion-ordered hash maps:

* a key is found by equality, and all walks through the map go in its order;
* a new key goes to the end, and to give a key that is there another value replaces the old one in
  its place (`insert`), so of several pairs with one key the first gives the place and the last the
  value (`insertAll`);
* erasing a key moves all later ones up by one and keeps their order (`erase`); no other key is
  put into the gap;
* to change all values (`mapValues`) or to keep some entries (`filterValues`) keeps the order.

How keys are hashed decides none of the answers and is left out. Keys are distinct by
construction, so the entries in order are all there is to know about a map. -/

namespace EntityScript

/-- A finite map from `κ` to `α` with its keys in order of first insertion. -/
@[ext]
structure OrderedMap (κ : Type) (α : Type) where
  entries : List (κ × α)
  nodup : (entries.map Prod.fst).Nodup
  deriving DecidableEq

namespace OrderedMap

variable {κ α β : Type}

def empty : OrderedMap κ α := ⟨[], by simp⟩

instance : Inhabited (OrderedMap κ α) := ⟨empty⟩

def keys (m : OrderedMap κ α) : List κ := m.entries.map Prod.fst

def values (m : OrderedMap κ α) : List α := m.entries.map Prod.snd

/-! ## Entries with one value replaced, removed or added -/

section Entries

variable [DecidableEq κ]

def lookup (k : κ) : List (κ × α) → Option α
  | [] => none
  | (k', v) :: rest => if k' = k then some v else lookup k rest

/-- Replace the value at `k`, or add an entry at the end. -/
def put (k : κ) (v : α) : List (κ × α) → List (κ × α)
  | [] => [(k, v)]
  | (k', v') :: rest => if k' = k then (k', v) :: rest else (k', v') :: put k v rest

/-- What was put is found, and nothing else is found differently. -/
theorem lookup_put {k x : κ} {v : α} {es : List (κ × α)} :
    lookup x (put k v es) = if k = x then some v else lookup x es := by
  induction es with
  | nil => simp [put, lookup]
  | cons e rest ih =>
    obtain ⟨k', v'⟩ := e
    by_cases hk : k' = k
    · subst hk
      by_cases hx : k' = x <;> simp [put, lookup, hx]
    · by_cases hx : k' = x
      · subst hx
        simp [put, lookup, hk, Ne.symm hk]
      · simp [put, lookup, hk, hx, ih]

theorem mem_keys_put {k x : κ} {v : α} {es : List (κ × α)} :
    x ∈ (put k v es).map Prod.fst ↔ x = k ∨ x ∈ es.map Prod.fst := by
  induction es with
  | nil => simp [put]
  | cons e rest ih =>
    obtain ⟨k', v'⟩ := e
    by_cases h : k' = k
    · simp [put, h]
    · simp only [put, if_neg h, List.map_cons, List.mem_cons, ih]
      constructor
      · rintro (h | h | h)
        · exact .inr (.inl h)
        · exact .inl h
        · exact .inr (.inr h)
      · rintro (h | h | h)
        · exact .inr (.inl h)
        · exact .inl h
        · exact .inr (.inr h)

/-- A key that is there keeps its place, and no other comes in. -/
theorem map_fst_put {k : κ} {v : α} {es : List (κ × α)} (h : (lookup k es).isSome = true) :
    (put k v es).map Prod.fst = es.map Prod.fst := by
  induction es with
  | nil => cases h
  | cons e rest ih =>
    obtain ⟨k', v'⟩ := e
    by_cases hk : k' = k
    · simp [put, hk]
    · rw [lookup, if_neg hk] at h
      simp [put, hk, ih h]

theorem put_of_lookup_eq_none {k : κ} {v : α} {es : List (κ × α)} (h : lookup k es = none) :
    put k v es = es ++ [(k, v)] := by
  induction es with
  | nil => rfl
  | cons e rest ih =>
    obtain ⟨k', v'⟩ := e
    by_cases hk : k' = k
    · simp [lookup, hk] at h
    · simp only [lookup, if_neg hk] at h
      simp [put, hk, ih h]

theorem put_put {k : κ} {v v' : α} {es : List (κ × α)} :
    put k v' (put k v es) = put k v' es := by
  induction es with
  | nil => simp [put]
  | cons e rest ih =>
    obtain ⟨k', w⟩ := e
    by_cases hk : k' = k <;> simp [put, hk, ih]

theorem put_of_lookup {k : κ} {v : α} {es : List (κ × α)} (h : lookup k es = some v) :
    put k v es = es := by
  induction es with
  | nil => cases h
  | cons e rest ih =>
    obtain ⟨k', w⟩ := e
    by_cases hk : k' = k
    · simp only [lookup, hk, if_true, Option.some.injEq] at h
      simp [put, hk, h]
    · simp only [lookup, if_neg hk] at h
      simp [put, hk, ih h]

/-- What is left out is not found, and nothing else is found differently. -/
theorem lookup_filter_ne {k x : κ} {es : List (κ × α)} :
    lookup x (es.filter fun e => decide (e.1 ≠ k)) = if k = x then none else lookup x es := by
  induction es with
  | nil => simp [lookup]
  | cons e rest ih =>
    obtain ⟨k', v'⟩ := e
    by_cases hk : k' = k
    · subst hk
      rw [List.filter_cons_of_neg (by simp), ih]
      by_cases hx : k' = x <;> simp [lookup, hx]
    · rw [List.filter_cons_of_pos (by simpa using hk), lookup, lookup, ih]
      by_cases hx : k' = x
      · subst hx
        simp [Ne.symm hk]
      · simp [hx]

theorem mem_of_lookup {k : κ} {v : α} {es : List (κ × α)} (h : lookup k es = some v) :
    (k, v) ∈ es := by
  induction es with
  | nil => cases h
  | cons e rest ih =>
    obtain ⟨k', v'⟩ := e
    rw [lookup] at h
    split at h
    · rename_i hk
      cases h
      exact hk ▸ List.mem_cons_self
    · exact List.mem_cons_of_mem _ (ih h)

theorem lookup_of_mem {k : κ} {v : α} {es : List (κ × α)} (hnodup : (es.map Prod.fst).Nodup)
    (h : (k, v) ∈ es) : lookup k es = some v := by
  induction es with
  | nil => cases h
  | cons e rest ih =>
    obtain ⟨k', v'⟩ := e
    rw [List.map_cons, List.nodup_cons] at hnodup
    rcases List.mem_cons.mp h with heq | hmem
    · cases heq
      simp [lookup]
    · have hne : k' ≠ k := by
        rintro rfl
        exact hnodup.1 (List.mem_map.mpr ⟨_, hmem, rfl⟩)
      rw [lookup, if_neg hne, ih hnodup.2 hmem]

theorem isSome_lookup_iff {k : κ} {es : List (κ × α)} :
    (lookup k es).isSome ↔ k ∈ es.map Prod.fst := by
  induction es with
  | nil => simp [lookup]
  | cons e rest ih =>
    obtain ⟨k', v'⟩ := e
    by_cases hk : k' = k
    · simp [lookup, hk]
    · simp [lookup, hk, ih, Ne.symm hk]

theorem lookup_map {k : κ} {f : α → β} {es : List (κ × α)} :
    lookup k (es.map fun e => (e.1, f e.2)) = (lookup k es).map f := by
  induction es with
  | nil => rfl
  | cons e rest ih =>
    obtain ⟨k', v'⟩ := e
    by_cases hk : k' = k
    · simp [lookup, hk]
    · simpa [lookup, hk] using ih

/-- With distinct keys there is no second entry to be found behind one that is left out. -/
theorem lookup_filter {k : κ} {p : α → Bool} {es : List (κ × α)} (h : (es.map Prod.fst).Nodup) :
    lookup k (es.filter fun e => p e.2) = (lookup k es).filter p := by
  induction es with
  | nil => rfl
  | cons e rest ih =>
    obtain ⟨k', v'⟩ := e
    rw [List.map_cons, List.nodup_cons] at h
    have ih := ih h.2
    by_cases hk : k' = k
    · subst hk
      have hnone : lookup k' rest = none := by
        rw [← Option.not_isSome_iff_eq_none, isSome_lookup_iff]
        exact h.1
      cases hp : p v' with
      | true => simp [lookup, hp, Option.filter]
      | false => simp [lookup, hp, ih, hnone, Option.filter]
    · cases hp : p v' with
      | true => simpa [lookup, hk, hp] using ih
      | false => simpa [lookup, hk, hp] using ih

theorem nodup_put {k : κ} {v : α} {es : List (κ × α)} (h : (es.map Prod.fst).Nodup) :
    ((put k v es).map Prod.fst).Nodup := by
  induction es with
  | nil => simp [put]
  | cons e rest ih =>
    obtain ⟨k', v'⟩ := e
    simp only [List.map_cons, List.nodup_cons] at h
    by_cases hk : k' = k
    · simp only [put, if_pos hk, List.map_cons, List.nodup_cons]
      exact h
    · simp only [put, if_neg hk, List.map_cons, List.nodup_cons, mem_keys_put]
      exact ⟨fun hx => hx.elim hk h.1, ih h.2⟩

end Entries

/-! ## Operations -/

variable [DecidableEq κ]

def get? (m : OrderedMap κ α) (k : κ) : Option α := lookup k m.entries

def contains (m : OrderedMap κ α) (k : κ) : Bool := (m.get? k).isSome

/-- Give `k` the value `v`: in place if it has one, else at the end. -/
def insert (m : OrderedMap κ α) (k : κ) (v : α) : OrderedMap κ α :=
  ⟨put k v m.entries, nodup_put m.nodup⟩

/-- Put in pairs one after another, so a repeated key keeps its first place and
takes its last value. -/
def insertAll (m : OrderedMap κ α) (es : List (κ × α)) : OrderedMap κ α :=
  es.foldl (fun m e => m.insert e.1 e.2) m

def ofList (es : List (κ × α)) : OrderedMap κ α := empty.insertAll es

/-- Remove `k`; the other keys keep their order. -/
def erase (m : OrderedMap κ α) (k : κ) : OrderedMap κ α :=
  ⟨m.entries.filter (fun e => decide (e.1 ≠ k)),
    m.nodup.sublist (List.filter_sublist.map Prod.fst)⟩

def mapValues (m : OrderedMap κ α) (f : α → β) : OrderedMap κ β :=
  ⟨m.entries.map fun e => (e.1, f e.2), by
    have h := m.nodup
    simpa [List.map_map, Function.comp_def] using h⟩

def filterValues (m : OrderedMap κ α) (p : α → Bool) : OrderedMap κ α :=
  ⟨m.entries.filter (fun e => p e.2), m.nodup.sublist (List.filter_sublist.map Prod.fst)⟩

/-! ## What is found, also after a change -/

theorem mem_values_of_get? {m : OrderedMap κ α} {k : κ} {v : α} (h : m.get? k = some v) :
    v ∈ m.values :=
  List.mem_map_of_mem (mem_of_lookup h)

theorem isSome_get?_iff {m : OrderedMap κ α} {k : κ} : (m.get? k).isSome ↔ k ∈ m.keys :=
  isSome_lookup_iff

@[simp]
theorem get?_empty (k : κ) : (empty : OrderedMap κ α).get? k = none := rfl

theorem get?_insert (m : OrderedMap κ α) (k x : κ) (v : α) :
    (m.insert k v).get? x = if k = x then some v else m.get? x :=
  lookup_put

@[simp]
theorem get?_insert_self (m : OrderedMap κ α) (k : κ) (v : α) :
    (m.insert k v).get? k = some v := by
  simp [get?_insert]

theorem get?_erase (m : OrderedMap κ α) (k x : κ) :
    (m.erase k).get? x = if k = x then none else m.get? x :=
  lookup_filter_ne

theorem keys_insert_of_contains {m : OrderedMap κ α} {k : κ} (h : m.contains k = true) (v : α) :
    (m.insert k v).keys = m.keys :=
  map_fst_put h

theorem get?_mapValues (m : OrderedMap κ α) (f : α → β) (k : κ) :
    (m.mapValues f).get? k = (m.get? k).map f :=
  lookup_map

theorem get?_filterValues (m : OrderedMap κ α) (p : α → Bool) (k : κ) :
    (m.filterValues p).get? k = (m.get? k).filter p :=
  lookup_filter m.nodup

omit [DecidableEq κ] in
theorem keys_mapValues (m : OrderedMap κ α) (f : α → β) : (m.mapValues f).keys = m.keys := by
  simp [keys, mapValues]

omit [DecidableEq κ] in
theorem values_mapValues (m : OrderedMap κ α) (f : α → β) :
    (m.mapValues f).values = m.values.map f := by
  simp [values, mapValues]

omit [DecidableEq κ] in
theorem mapValues_eq_self {m : OrderedMap κ α} {f : α → α} (h : ∀ v ∈ m.values, f v = v) :
    m.mapValues f = m := by
  apply OrderedMap.ext
  refine (List.map_congr_left ?_).trans (List.map_id _)
  intro e he
  rw [h e.2 (List.mem_map_of_mem he)]
  rfl

omit [DecidableEq κ] in
theorem values_filterValues (m : OrderedMap κ α) (p : α → Bool) :
    (m.filterValues p).values = m.values.filter p := by
  simp only [values, filterValues, List.filter_map]
  rfl

omit [DecidableEq κ] in
theorem keys_filterValues_sublist (m : OrderedMap κ α) (p : α → Bool) :
    (m.filterValues p).keys.Sublist m.keys :=
  List.filter_sublist.map Prod.fst

theorem entries_insert_new {m : OrderedMap κ α} {k : κ} (h : m.get? k = none) (v : α) :
    (m.insert k v).entries = m.entries ++ [(k, v)] :=
  put_of_lookup_eq_none h

theorem entries_insertAll_new {m : OrderedMap κ α} {es : List (κ × α)}
    (hnodup : (es.map Prod.fst).Nodup) (hnew : ∀ e ∈ es, m.get? e.1 = none) :
    (m.insertAll es).entries = m.entries ++ es := by
  induction es generalizing m with
  | nil => simp [insertAll]
  | cons e es ih =>
    rw [List.map_cons, List.nodup_cons] at hnodup
    have he := hnew e List.mem_cons_self
    have hnew' : ∀ x ∈ es, (m.insert e.1 e.2).get? x.1 = none := by
      intro x hx
      have hne : e.1 ≠ x.1 := by
        intro heq
        exact hnodup.1 (heq ▸ List.mem_map_of_mem hx)
      rw [get?_insert, if_neg hne]
      exact hnew x (List.mem_cons_of_mem _ hx)
    show ((m.insert e.1 e.2).insertAll es).entries = m.entries ++ e :: es
    rw [ih hnodup.2 hnew', entries_insert_new he, List.append_assoc, List.singleton_append]

theorem entries_ofList {es : List (κ × α)} (hnodup : (es.map Prod.fst).Nodup) :
    (ofList es).entries = es := by
  simpa [ofList, empty] using entries_insertAll_new (m := empty) hnodup (fun e _ => get?_empty e.1)

theorem get?_insert_of_ne (m : OrderedMap κ α) {k x : κ} (v : α) (h : k ≠ x) :
    (m.insert k v).get? x = m.get? x := by
  simp [get?_insert, h]

/-! ## Putting in and taking back -/

theorem insert_insert (m : OrderedMap κ α) (k : κ) (v v' : α) :
    (m.insert k v).insert k v' = m.insert k v' :=
  OrderedMap.ext put_put

theorem insert_of_get? {m : OrderedMap κ α} {k : κ} {v : α} (h : m.get? k = some v) :
    m.insert k v = m :=
  OrderedMap.ext (put_of_lookup h)

theorem erase_insert_new {m : OrderedMap κ α} {k : κ} (h : m.get? k = none) (v : α) :
    (m.insert k v).erase k = m := by
  apply OrderedMap.ext
  show (m.insert k v).entries.filter (fun e => decide (e.1 ≠ k)) = m.entries
  rw [entries_insert_new h, List.filter_append, List.filter_cons_of_neg (by simp),
    List.filter_nil, List.append_nil]
  refine List.filter_eq_self.mpr fun e he => ?_
  have hkey : k ∉ m.keys := by simpa [← isSome_get?_iff] using h
  exact decide_eq_true fun heq => hkey (heq ▸ List.mem_map_of_mem he)

/-! ## Putting in many pairs -/

section InsertAll

variable {m : OrderedMap κ α} {es : List (κ × α)}

/-- With distinct keys, a pair that is put in is found, and else what was found before. -/
theorem get?_insertAll (h : (es.map Prod.fst).Nodup) (k : κ) :
    (m.insertAll es).get? k = (lookup k es).or (m.get? k) := by
  induction es generalizing m with
  | nil => rfl
  | cons e es ih =>
    rw [List.map_cons, List.nodup_cons] at h
    show ((m.insert e.1 e.2).insertAll es).get? k = _
    rw [ih h.2, get?_insert, lookup]
    by_cases hk : e.1 = k
    · have hnone : lookup k es = none := by
        rw [← Option.not_isSome_iff_eq_none, isSome_lookup_iff, ← hk]
        exact h.1
      simp [hk, hnone]
    · simp [hk]

/-- Keys that are there keep their places, and the others follow in their order. -/
theorem keys_insertAll (h : (es.map Prod.fst).Nodup) :
    (m.insertAll es).keys = m.keys ++ (es.map Prod.fst).filter fun k => !m.contains k := by
  induction es generalizing m with
  | nil => simp [insertAll]
  | cons e es ih =>
    rw [List.map_cons, List.nodup_cons] at h
    have hother : (es.map Prod.fst).filter (fun k => !(m.insert e.1 e.2).contains k) =
        (es.map Prod.fst).filter fun k => !m.contains k := by
      refine List.filter_congr fun k hk => ?_
      have hne : e.1 ≠ k := fun heq => h.1 (heq ▸ hk)
      rw [contains, contains, get?_insert_of_ne m e.2 hne]
    show ((m.insert e.1 e.2).insertAll es).keys = _
    rw [ih h.2, hother, List.map_cons]
    by_cases hmem : m.contains e.1 = true
    · rw [keys_insert_of_contains hmem, List.filter_cons_of_neg (by simp [hmem])]
    · have hnew : m.get? e.1 = none := by simpa [contains] using hmem
      have hkeys : (m.insert e.1 e.2).keys = m.keys ++ [e.1] := by
        simp [keys, entries_insert_new hnew]
      rw [hkeys, List.filter_cons_of_pos (by simp [hmem]), List.append_assoc,
        List.singleton_append]

end InsertAll

end OrderedMap

end EntityScript
