import EntityScript.Pool
import EntityScript.Dispatch.Frame
import EntityScript.Proofs.Number.Index
import Mathlib.Logic.Equiv.Basic

/-! # Pool commands against lists

`Does` says what each command makes of a pool as a list, with the slots that it names given by
what stands before them, and `Refuses` says on which arguments it fails and with which fault.
One of the two holds of all arguments, and `apply` follows both (`apply_eq_ok_iff`,
`apply_eq_error_iff`).

`apply` gives a pool back. `perform` has the same commands change one pool in place, where a
list position that is out of range has no outcome at all; it always has one, and a command that
fails has not touched the pool (`perform_eq`). -/

namespace EntityScript

open Number (IsIndex isIndex_iff isIndex_toIndex)

theorem Value.toIndex_eq_ok {x : Float} {k : ℤ} (h : IsIndex x k) (pool : String) :
    (Value.number x).toIndex pool = .ok k := by
  rw [Value.toIndex, isIndex_iff.mp h]

theorem Value.toIndex_eq_error {v : Value} (h : v.number? = none) (pool : String) :
    v.toIndex pool = .error (.invalidIndex v.type pool) := by
  cases v with
  | number x => cases h
  | null | bool | string | pool | entity => rfl

namespace Pool

variable {p p' : Pool} {name : String} {command : Command} {args : List Value} {fault : Fault}

/-! ## What the commands do -/

/-- How many arguments a command reads. -/
def Command.reads : Command → ℕ
  | .add | .push | .remove | .removeAt => 1
  | .insert | .swap => 2
  | .pop | .shift | .clear | .each => 0

/-- Whether the first argument of a command is the number of a slot. -/
def Command.countsSlots : Command → Bool
  | .insert | .removeAt | .swap => true
  | _ => false

/-- The command makes `p'` of the pool `p`. -/
inductive Does : Pool → Command → List Value → Pool → Prop
  | add {p : Pool} {v : Value} {more : List Value} :
    v.isNull = false → Does p .add (v :: more) (p ++ [v])
  | push {p : Pool} {v : Value} {more : List Value} : Does p .push (v :: more) (v :: p)
  | insert {before after : Pool} {x : Float} {v : Value} {more : List Value} :
    IsIndex x (before.length + 1) →
    Does (before ++ after) .insert (.number x :: v :: more) (before ++ v :: after)
  | removeFirst {before after : Pool} {v w : Value} {more : List Value} :
    (∀ u ∈ before, (u == v) = false) → (w == v) = true →
    Does (before ++ w :: after) .remove (v :: more) (before ++ after)
  | removeNone {p : Pool} {v : Value} {more : List Value} :
    (∀ u ∈ p, (u == v) = false) → Does p .remove (v :: more) p
  | removeAt {before after : Pool} {x : Float} {w : Value} {more : List Value} :
    IsIndex x (before.length + 1) →
    Does (before ++ w :: after) .removeAt (.number x :: more) (before ++ after)
  | popLast {p : Pool} {v : Value} {args : List Value} : Does (p ++ [v]) .pop args p
  | popNone {args : List Value} : Does [] .pop args []
  | shiftFirst {p : Pool} {v : Value} {args : List Value} : Does (v :: p) .shift args p
  | shiftNone {args : List Value} : Does [] .shift args []
  | swap {p p' : Pool} {i j : ℕ} {x y : Float} {more : List Value} :
    IsIndex x (i + 1) → IsIndex y (j + 1) → i < p.length → j < p.length →
    (∀ n : ℕ, p'[n]? = p[Equiv.swap i j n]?) →
    Does p .swap (.number x :: .number y :: more) p'
  | clear {p : Pool} {args : List Value} : Does p .clear args []

/-- The command fails on the pool `p`, which goes by `name`. -/
inductive Refuses (p : Pool) (name : String) : Command → List Value → Fault → Prop
  | missingFirst {command : Command} : 1 ≤ command.reads →
    Refuses p name command [] (.poolCommand command name (.missingArgument 1))
  | null {more : List Value} :
    Refuses p name .add (.null :: more) (.poolCommand .add name .nullArgument)
  | firstNoNumber {command : Command} {v : Value} {more : List Value} :
    command.countsSlots = true → v.number? = none →
    Refuses p name command (v :: more) (.invalidIndex v.type name)
  | missingSecond {command : Command} {x : Float} : command.reads = 2 →
    Refuses p name command [.number x] (.poolCommand command name (.missingArgument 2))
  | insert {x : Float} {k : ℤ} {v : Value} {more : List Value} :
    IsIndex x k → ¬(1 ≤ k ∧ k ≤ p.length + 1) →
    Refuses p name .insert (.number x :: v :: more) (.indexOutOfBounds k name)
  | removeAt {x : Float} {k : ℤ} {more : List Value} :
    IsIndex x k → ¬(1 ≤ k ∧ k ≤ p.length) →
    Refuses p name .removeAt (.number x :: more) (.indexOutOfBounds k name)
  | secondNoNumber {x : Float} {v : Value} {more : List Value} : v.number? = none →
    Refuses p name .swap (.number x :: v :: more) (.invalidIndex v.type name)
  | swapFirst {x y : Float} {k : ℤ} {more : List Value} :
    IsIndex x k → ¬(1 ≤ k ∧ k ≤ p.length) →
    Refuses p name .swap (.number x :: .number y :: more) (.indexOutOfBounds k name)
  | swapSecond {x y : Float} {i k : ℤ} {more : List Value} :
    IsIndex x i → 1 ≤ i ∧ i ≤ p.length → IsIndex y k → ¬(1 ≤ k ∧ k ≤ p.length) →
    Refuses p name .swap (.number x :: .number y :: more) (.indexOutOfBounds k name)
  | each {args : List Value} :
    Refuses p name .each args (.poolCommand .each name .needsDelivery)

/-! ## Slots -/

theorem slot_eq_ok {i : ℕ} (h : i < p.length) : p.slot name (i + 1) = .ok i := by
  rw [slot, if_pos (by omega)]
  congr

theorem slot_eq_error {k : ℤ} (h : ¬(1 ≤ k ∧ k ≤ p.length)) :
    p.slot name k = .error (.indexOutOfBounds k name) := by
  rw [slot, if_neg h]

/-- The number of a slot, or of the place behind the last one, counts what stands before it. -/
theorem exists_before {k : ℤ} (h : 1 ≤ k ∧ k ≤ p.length + 1) :
    ∃ before after, p = before ++ after ∧ k = before.length + 1 := by
  refine ⟨p.take (k.toNat - 1), p.drop (k.toNat - 1), (List.take_append_drop ..).symm, ?_⟩
  rw [List.length_take]
  omega

theorem exists_position {k : ℤ} (h : 1 ≤ k ∧ k ≤ p.length) : ∃ i : ℕ, i < p.length ∧ k = i + 1 :=
  ⟨k.toNat - 1, by omega, by omega⟩

theorem exists_slot {k : ℤ} (h : 1 ≤ k ∧ k ≤ p.length) :
    ∃ before w after, p = before ++ w :: after ∧ k = before.length + 1 := by
  obtain ⟨before, after, rfl, rfl⟩ := exists_before (p := p) (k := k) ⟨h.1, by omega⟩
  rw [List.length_append] at h
  cases after with
  | nil => rw [List.length_nil] at h; omega
  | cons w after => exact ⟨before, w, after, rfl, rfl⟩

/-- Exchanging two slots is the transposition of their positions. -/
theorem getElem?_exchange {i j : ℕ} (hi : i < p.length) (hj : j < p.length) (n : ℕ) :
    (p.exchange i j)[n]? = p[Equiv.swap i j n]? := by
  rw [exchange, List.getElem?_eq_getElem hi, List.getElem?_eq_getElem hj]
  dsimp only
  rw [List.getElem?_set, List.getElem?_set, List.length_set, Equiv.swap_apply_def]
  by_cases hjn : j = n
  · subst hjn
    by_cases hij : j = i
    · subst hij
      simp [hi]
    · simp [hij, hi, hj]
  · by_cases hin : i = n
    · subst hin
      simp [hjn, hi, hj]
    · simp [hjn, hin, Ne.symm hjn, Ne.symm hin]

theorem insertIdx_before (before after : Pool) (v : Value) :
    (before ++ after).insertIdx before.length v = before ++ v :: after := by
  induction before with
  | nil => rfl
  | cons u before ih => simpa using ih

/-! ## The commands as they run -/

section Numbered

variable {x : Float} {i k : ℤ} {v : Value} {more : List Value}

theorem apply_insert (hx : IsIndex x k) :
    p.apply name .insert (.number x :: v :: more) =
      if 1 ≤ k ∧ k ≤ p.length + 1 then .ok (p.insertIdx (k.toNat - 1) v)
      else .error (.indexOutOfBounds k name) := by
  show ((Value.number x).toIndex name >>= fun _ => _) = _
  rw [Value.toIndex_eq_ok hx]
  rfl

theorem apply_removeAt (hx : IsIndex x k) :
    p.apply name .removeAt (.number x :: more) = (p.slot name k).map p.eraseIdx := by
  show ((Value.number x).toIndex name >>= fun _ => _) = _
  rw [Value.toIndex_eq_ok hx]
  rfl

theorem apply_swap (hx : IsIndex x i) :
    p.apply name .swap (.number x :: v :: more) =
      (v.toIndex name).bind fun k =>
        (p.slot name i).bind fun i => (p.slot name k).map (p.exchange i) := by
  show ((Value.number x).toIndex name >>= fun _ => _) = _
  rw [Value.toIndex_eq_ok hx]
  rfl

end Numbered

theorem apply_of_does (h : Does p command args p') : p.apply name command args = .ok p' := by
  cases h with
  | add hv => exact if_neg (by rw [hv]; decide)
  | push => rfl
  | @insert before after x v more hx =>
    rw [apply_insert hx, if_pos (by rw [List.length_append]; omega)]
    simp [insertIdx_before]
  | @removeFirst before after v w more hbefore hw =>
    show Except.ok ((before ++ w :: after).eraseP fun u => u == v) = _
    rw [List.eraseP_append_right _ fun u hu => by simp [hbefore u hu]]
    exact congrArg (fun q => Except.ok (before ++ q)) (List.eraseP_cons_of_pos hw)
  | @removeNone _ v more hp =>
    show Except.ok (p.eraseP fun u => u == v) = _
    rw [List.eraseP_of_forall_not fun u hu => by simp [hp u hu]]
  | @removeAt before after x w more hx =>
    rw [apply_removeAt hx, slot_eq_ok (by simp)]
    simp [Except.map, List.eraseIdx_append_of_length_le]
  | popLast => simp [apply]
  | popNone => rfl
  | shiftFirst => rfl
  | shiftNone => rfl
  | swap hx hy hi hj h =>
    rw [apply_swap hx, Value.toIndex_eq_ok hy]
    show (p.slot name _).bind _ = _
    rw [slot_eq_ok hi, slot_eq_ok hj]
    show Except.ok _ = _
    rw [List.ext_getElem? fun n => (getElem?_exchange hi hj n).trans (h n).symm]
  | clear => rfl

theorem apply_of_refuses (h : Refuses p name command args fault) :
    p.apply name command args = .error fault := by
  cases h with
  | missingFirst hreads => cases command <;> first | rfl | cases hreads
  | null => rfl
  | @firstNoNumber _ v more hcounts hv =>
    cases command with
    | insert | removeAt | swap =>
      show (v.toIndex name >>= fun _ => _) = _
      rw [Value.toIndex_eq_error hv]
      rfl
    | add | push | remove | pop | shift | clear | each => cases hcounts
  | @missingSecond _ x hreads =>
    cases command with
    | insert | swap =>
      show ((Value.number x).toIndex name >>= fun _ => _) = _
      rw [Value.toIndex_eq_ok (isIndex_toIndex x)]
      rfl
    | add | push | remove | removeAt | pop | shift | clear | each => cases hreads
  | insert hx hk => rw [apply_insert hx, if_neg hk]
  | removeAt hx hk =>
    rw [apply_removeAt hx, slot_eq_error hk]
    rfl
  | @secondNoNumber x v more hv =>
    rw [apply_swap (isIndex_toIndex x), Value.toIndex_eq_error hv]
    rfl
  | @swapFirst x y k more hx hk =>
    rw [apply_swap hx, slot_eq_error hk, Value.toIndex_eq_ok (isIndex_toIndex y)]
    rfl
  | @swapSecond x y i k more hx hi hy hk =>
    obtain ⟨n, hn, rfl⟩ := exists_position hi
    rw [apply_swap hx, Value.toIndex_eq_ok hy, slot_eq_ok hn]
    show (p.slot name k).map _ = _
    rw [slot_eq_error hk]
    rfl
  | each => rfl

theorem number_or_not (v : Value) : (∃ x, v = .number x) ∨ v.number? = none := by
  cases v with
  | number x => exact .inl ⟨x, rfl⟩
  | null | bool | string | pool | entity => exact .inr rfl

/-- The first value that is equal to `v`, if there is one, and what stands around it. -/
theorem first_equal (p : Pool) (v : Value) :
    (∀ u ∈ p, (u == v) = false) ∨ ∃ before w after, p = before ++ w :: after ∧
      (∀ u ∈ before, (u == v) = false) ∧ (w == v) = true := by
  by_cases h : ∀ u ∈ p, (u == v) = false
  · exact .inl h
  · simp only [not_forall, Bool.not_eq_false] at h
    obtain ⟨u, hu, huv⟩ := h
    obtain ⟨w, before, after, hbefore, hw, hp, -⟩ :=
      List.exists_of_eraseP (p := fun u => u == v) hu huv
    exact .inr ⟨before, w, after, hp, fun u hu => Bool.eq_false_of_not_eq_true (hbefore u hu), hw⟩

/-- On all arguments a command does what it is for or refuses. -/
theorem does_or_refuses (p : Pool) (name : String) (command : Command) (args : List Value) :
    (∃ p', Does p command args p') ∨ ∃ fault, Refuses p name command args fault := by
  match command, args with
  | .add, [] | .push, [] | .insert, [] | .remove, [] | .removeAt, [] | .swap, [] =>
    exact .inr ⟨_, .missingFirst (by decide)⟩
  | .add, v :: more =>
    cases hv : v.isNull with
    | false => exact .inl ⟨_, .add hv⟩
    | true =>
      cases v with
      | null => exact .inr ⟨_, .null⟩
      | number | bool | string | pool | entity => cases hv
  | .push, v :: more => exact .inl ⟨_, .push⟩
  | .remove, v :: more =>
    obtain hnone | ⟨before, w, after, rfl, hbefore, hw⟩ := first_equal p v
    · exact .inl ⟨_, .removeNone hnone⟩
    · exact .inl ⟨_, .removeFirst hbefore hw⟩
  | .insert, u :: more =>
    obtain ⟨x, rfl⟩ | hu := number_or_not u
    · cases more with
      | nil => exact .inr ⟨_, .missingSecond rfl⟩
      | cons v more =>
        have hx := isIndex_toIndex x
        by_cases hk : 1 ≤ Number.toIndex x ∧ Number.toIndex x ≤ p.length + 1
        · obtain ⟨before, after, rfl, hlength⟩ := exists_before hk
          exact .inl ⟨_, .insert (hlength ▸ hx)⟩
        · exact .inr ⟨_, .insert hx hk⟩
    · exact .inr ⟨_, .firstNoNumber rfl hu⟩
  | .removeAt, u :: more =>
    obtain ⟨x, rfl⟩ | hu := number_or_not u
    · have hx := isIndex_toIndex x
      by_cases hk : 1 ≤ Number.toIndex x ∧ Number.toIndex x ≤ p.length
      · obtain ⟨before, w, after, rfl, hlength⟩ := exists_slot hk
        exact .inl ⟨_, .removeAt (hlength ▸ hx)⟩
      · exact .inr ⟨_, .removeAt hx hk⟩
    · exact .inr ⟨_, .firstNoNumber rfl hu⟩
  | .swap, u :: more =>
    obtain ⟨x, rfl⟩ | hu := number_or_not u
    · cases more with
      | nil => exact .inr ⟨_, .missingSecond rfl⟩
      | cons v more =>
        obtain ⟨y, rfl⟩ | hv := number_or_not v
        · have hx := isIndex_toIndex x
          have hy := isIndex_toIndex y
          by_cases hi : 1 ≤ Number.toIndex x ∧ Number.toIndex x ≤ p.length
          · by_cases hj : 1 ≤ Number.toIndex y ∧ Number.toIndex y ≤ p.length
            · obtain ⟨i, hi', hik⟩ := exists_position hi
              obtain ⟨j, hj', hjk⟩ := exists_position hj
              exact .inl ⟨_, .swap (hik ▸ hx) (hjk ▸ hy) hi' hj' (getElem?_exchange hi' hj')⟩
            · exact .inr ⟨_, .swapSecond hx hi hy hj⟩
          · exact .inr ⟨_, .swapFirst hx hi⟩
        · exact .inr ⟨_, .secondNoNumber hv⟩
    · exact .inr ⟨_, .firstNoNumber rfl hu⟩
  | .pop, args =>
    obtain rfl | ⟨before, v, rfl⟩ := List.eq_nil_or_concat' p
    · exact .inl ⟨_, .popNone⟩
    · exact .inl ⟨_, .popLast⟩
  | .shift, args =>
    cases p with
    | nil => exact .inl ⟨_, .shiftNone⟩
    | cons v p => exact .inl ⟨_, .shiftFirst⟩
  | .clear, args => exact .inl ⟨_, .clear⟩
  | .each, args => exact .inr ⟨_, .each⟩

theorem apply_eq_ok_iff : p.apply name command args = .ok p' ↔ Does p command args p' := by
  refine ⟨fun h => ?_, apply_of_does⟩
  obtain ⟨q, hq⟩ | ⟨fault, hfault⟩ := does_or_refuses p name command args
  · rw [apply_of_does hq] at h
    cases h
    exact hq
  · rw [apply_of_refuses hfault] at h
    cases h

theorem apply_eq_error_iff :
    p.apply name command args = .error fault ↔ Refuses p name command args fault := by
  refine ⟨fun h => ?_, apply_of_refuses⟩
  obtain ⟨q, hq⟩ | ⟨other, hother⟩ := does_or_refuses p name command args
  · rw [apply_of_does hq] at h
    cases h
  · rw [apply_of_refuses hother] at h
    cases h
    exact hother

/-! ## Commands that undo one another -/

/-- The second command takes back what the first one did. -/
inductive Undone : Command → List Value → Command → List Value → Prop
  | insert {u v : Value} {more more' : List Value} :
    Undone .insert (u :: v :: more) .removeAt (u :: more')
  | push {v : Value} {more more' : List Value} : Undone .push (v :: more) .shift more'
  | add {v : Value} {more more' : List Value} : Undone .add (v :: more) .pop more'
  | swap {u v : Value} {more more' : List Value} :
    Undone .swap (u :: v :: more) .swap (u :: v :: more')

theorem Does.undo {back : Command} {args' : List Value} (h : Does p command args p')
    (hback : Undone command args back args') : Does p' back args' p := by
  cases hback with
  | insert =>
    cases h with
    | insert hx => exact .removeAt hx
  | push =>
    cases h with
    | push => exact .shiftFirst
  | add =>
    cases h with
    | add hv => exact .popLast
  | swap =>
    cases h with
    | @swap _ _ i j x y _ hx hy hi hj h =>
      -- Both positions are still there, because the old slots show at each other's positions.
      have hi' : i < p'.length := by
        have hp := h i
        rw [Equiv.swap_apply_left, List.getElem?_eq_getElem hj] at hp
        exact (List.getElem?_eq_some_iff.mp hp).1
      have hj' : j < p'.length := by
        have hp := h j
        rw [Equiv.swap_apply_right, List.getElem?_eq_getElem hi] at hp
        exact (List.getElem?_eq_some_iff.mp hp).1
      exact .swap hx hy hi' hj' fun n => by rw [h, Equiv.swap_apply_self]

/-! ## Changing a pool in place -/

/-- A change of one pool that may fail, or ask for a position that is not there. -/
abbrev InPlace := ExceptT Fault (StateT Pool Option)

namespace InPlace

/-- The pool as it is. -/
def pool : InPlace Pool := MonadState.get

/-- Put a value before a position, which may be the one behind the last. -/
def insertAt (i : ℕ) (v : Value) : InPlace Unit := fun p =>
  if i ≤ p.length then some (.ok (), p.insertIdx i v) else none

/-- Take out the value at a position. -/
def removeAt (i : ℕ) : InPlace Unit := fun p =>
  if i < p.length then some (.ok (), p.eraseIdx i) else none

/-- Exchange the values at two positions. -/
def exchangeAt (i j : ℕ) : InPlace Unit := fun p =>
  if i < p.length ∧ j < p.length then some (.ok (), p.exchange i j) else none

/-- Carry out a command on the pool itself. -/
def perform (name : String) (command : Command) (args : List Value) : InPlace Unit := do
  let arg := argument name command args
  match command with
  | .add =>
    let v ← arg 1
    if v.isNull then throw (.poolCommand command name .nullArgument)
    else insertAt (← pool).length v
  | .push =>
    let v ← arg 1
    insertAt 0 v
  | .insert =>
    let index ← (← arg 1).toIndex name
    let v ← arg 2
    if index < 1 ∨ (← pool).length + 1 < index then throw (.indexOutOfBounds index name)
    else insertAt (index.toNat - 1) v
  | .remove =>
    let v ← arg 1
    match (← pool).findIdx? (· == v) with
    | some i => removeAt i
    | none => return ()
  | .removeAt =>
    let index ← (← arg 1).toIndex name
    removeAt (← (← pool).slot name index)
  | .pop => modify List.dropLast
  | .shift => if (← pool).isEmpty then return () else removeAt 0
  | .swap =>
    let first ← (← arg 1).toIndex name
    let second ← (← arg 2).toIndex name
    let p ← pool
    let i ← p.slot name first
    let j ← p.slot name second
    exchangeAt i j
  | .clear => modify fun _ => []
  | .each => throw (.poolCommand command name .needsDelivery)

/-- The outcome of a command on `p`: done, and the pool is the new one, or failed, and it is
still the old one. -/
def outcome (p : Pool) : Except Fault Pool → Except Fault Unit × Pool
  | .ok p' => (.ok (), p')
  | .error fault => (.error fault, p)

theorem check {α : Type} {x : Except Fault α} {k : α → InPlace Unit} {l : α → Except Fault Pool}
    (h : ∀ a, x = .ok a → k a p = some (outcome p (l a))) :
    (liftM x >>= k : InPlace Unit) p = some (outcome p (x >>= l)) := by
  cases x with
  | error fault => rfl
  | ok a => exact h a rfl

theorem pool_bind (k : Pool → InPlace Unit) : (pool >>= k : InPlace Unit) p = k p p := rfl

theorem insertAt_eq {i : ℕ} (h : i ≤ p.length) (v : Value) :
    insertAt i v p = some (.ok (), p.insertIdx i v) := if_pos h

theorem removeAt_eq {i : ℕ} (h : i < p.length) : removeAt i p = some (.ok (), p.eraseIdx i) :=
  if_pos h

theorem slot_lt {k : ℤ} {i : ℕ} (h : p.slot name k = .ok i) : i < p.length := by
  unfold slot at h
  split at h
  · cases h
    omega
  · cases h

/-- In place no command leaves the pool, and one that fails does so before it changes it. -/
theorem perform_eq (name : String) (command : Command) (args : List Value) (p : Pool) :
    perform name command args p = some (outcome p (p.apply name command args)) := by
  cases command with
  | add =>
    refine check fun v _ => ?_
    cases v.isNull with
    | true => rfl
    | false =>
      show insertAt (List.length p) v p = some (.ok (), p ++ [v])
      rw [insertAt_eq le_rfl, List.insertIdx_length_self]
  | push => exact check fun v _ => insertAt_eq (Nat.zero_le _) v
  | insert =>
    refine check fun u _ => check fun k _ => check fun v _ => ?_
    by_cases hk : 1 ≤ k ∧ k ≤ p.length + 1
    · rw [if_pos hk]
      exact (congrFun (if_neg (by omega)) p).trans (insertAt_eq (by omega) v)
    · rw [if_neg hk]
      exact congrFun (if_pos (by omega)) p
  | remove =>
    refine check fun v _ => ?_
    rw [List.eraseP_eq_eraseIdx]
    show (match List.findIdx? (fun u => u == v) p with
      | some i => removeAt i
      | none => return ()) p = _
    cases hi : List.findIdx? (fun u => u == v) p with
    | none => rfl
    | some i => exact removeAt_eq (List.findIdx?_eq_some_iff_getElem.mp hi).1
  | removeAt =>
    exact check fun u _ => check fun k _ => check fun i hi => removeAt_eq (slot_lt hi)
  | pop => rfl
  | shift =>
    cases p <;> rfl
  | swap =>
    refine check fun u _ => check fun k _ => check fun v _ => check fun k' _ => ?_
    rw [pool_bind]
    exact check fun i hi => check fun j hj => if_pos ⟨slot_lt hi, slot_lt hj⟩
  | clear => rfl
  | each => rfl

end InPlace

end Pool

/-! ## A pool in a field -/

theorem Run.changePool_eq {w : World} {owner : EntityId} {field : String} {p : Pool}
    (h : w.table.pool owner field = .ok p) (change : Pool → Except Fault Pool) :
    Run.changePool owner field change w =
      match change p with
      | .ok p' => (.ok (), { w with table := w.table.setField owner field (.pool p') })
      | .error fault => (.error fault, w) := by
  show ((liftM (w.table.pool owner field) : Run _) >>= fun p => liftM (change p) >>= _) w = _
  rw [h]
  show ((liftM (change p) : Run _) >>= _) w = _
  cases change p <;> rfl

/-- A pool command has exactly the outcomes that are said of it as one on lists, it never asks
for a position that is not in the pool, one that fails leaves the pool and with it the whole
state as they were, and `removeAt` takes back `insert`, `shift` takes back `push`, `pop` takes
back `add` and `swap` itself. -/
theorem Pool.commands_exact (p : Pool) (name : String) (command : Pool.Command)
    (args : List Value) :
    (∀ p', p.apply name command args = .ok p' ↔ Pool.Does p command args p') ∧
    (∀ fault, p.apply name command args = .error fault ↔
      Pool.Refuses p name command args fault) ∧
    Pool.InPlace.perform name command args p =
      some (Pool.InPlace.outcome p (p.apply name command args)) ∧
    (∀ (w : World) (owner : EntityId) (fault : Fault), w.table.pool owner name = .ok p →
      p.apply name command args = .error fault →
      Run.changePool owner name (fun q => Pool.apply q name command args) w = (.error fault, w)) ∧
    ∀ back args' p', Pool.Undone command args back args' → p.apply name command args = .ok p' →
      p'.apply name back args' = .ok p := by
  refine ⟨fun _ => Pool.apply_eq_ok_iff, fun _ => Pool.apply_eq_error_iff,
    Pool.InPlace.perform_eq name command args p, fun w owner fault hp hfault => ?_,
    fun back args' p' hback hdone => ?_⟩
  · rw [Run.changePool_eq hp, hfault]
  · exact Pool.apply_of_does ((Pool.apply_eq_ok_iff.mp hdone).undo hback)

/-- A tower with one bell. -/
def tower : World where
  table := ⟨[⟨⟨0⟩, "tower", .ofList [("bells", .pool [.string "ding"])], ⟨[]⟩, false⟩],
    .ofList [("tower", ⟨0⟩)], 1⟩

theorem Pool.commands_exact_tower :
    Pool.apply [.string "ding"] "bells" .insert [.number 2, .string "dong"] =
      .ok [.string "ding", .string "dong"] ∧
    Pool.apply [.string "ding", .string "dong"] "bells" .removeAt [.number 2] =
      .ok [.string "ding"] ∧
    Run.changePool ⟨0⟩ "bells" (fun q => Pool.apply q "bells" .removeAt [.number 2]) tower =
      (.error (.indexOutOfBounds 2 "bells"), tower) := by
  have hinsert : Pool.apply [.string "ding"] "bells" .insert [.number 2, .string "dong"] =
      .ok [.string "ding", .string "dong"] := by rfl
  have hremove : Pool.apply [.string "ding"] "bells" .removeAt [.number 2] =
      .error (.indexOutOfBounds 2 "bells") :=
    Pool.apply_of_refuses (.removeAt (isIndex_iff.mpr (by decide +kernel)) (by decide))
  obtain ⟨-, -, -, -, hundo⟩ := Pool.commands_exact [.string "ding"] "bells" .insert
    [.number 2, .string "dong"]
  obtain ⟨-, -, -, hkept, -⟩ := Pool.commands_exact [.string "ding"] "bells" .removeAt [.number 2]
  have hpool : tower.table.pool ⟨0⟩ "bells" = .ok [.string "ding"] := by rfl
  have hundone := hundo .removeAt [.number 2] _ .insert hinsert
  have hsame := hkept tower ⟨0⟩ _ hpool hremove
  exact ⟨hinsert, hundone, hsame⟩

end EntityScript
