import EntityScript.Message
import EntityScript.Proofs.Number.Equality

/-! # Identity of messages

`Value.same` is equality except that a NaN is the same as a NaN. It is reflexive,
symmetric and transitive on all values, those with a NaN inside nested pools included,
and so is `Message.same`. Messages that are the same have the same key.

What is equal is what is the same and has no NaN in it (`Value.equal_eq_same_and`). So the
two agree off the NaNs, and it is the NaNs that keep equality from being an equivalence. All
of it is put together in `Message.identity_is_equivalence`. -/

namespace EntityScript

namespace Value

/-! ## Numbers -/

theorem same_number_iff (a b : Float) :
    same (.number a) (.number b) = true ↔
      (a == b) = true ∨ (a.isNaN = true ∧ b.isNaN = true) := by
  simp [same]

theorem same_number_refl (a : Float) : same (.number a) (.number a) = true := by
  rw [same_number_iff]
  cases h : a.isNaN with
  | true => exact .inr ⟨rfl, rfl⟩
  | false => exact .inl ((Number.beq_self_iff a).mpr h)

theorem same_number_comm (a b : Float) :
    same (.number a) (.number b) = same (.number b) (.number a) := by
  simp only [same, Number.beq_comm a b, Bool.and_comm]

theorem same_number_trans {a b c : Float} (hab : same (.number a) (.number b) = true)
    (hbc : same (.number b) (.number c) = true) : same (.number a) (.number c) = true := by
  rw [same_number_iff] at hab hbc ⊢
  -- a NaN equals nothing, so equality on one side rules out a NaN on the other
  rcases hab with hab | ⟨ha, hb⟩
  · rcases hbc with hbc | ⟨hb, _⟩
    · exact .inl (Number.beq_trans hab hbc)
    · rw [Number.isNaN_of_beq (Number.beq_comm a b ▸ hab)] at hb
      cases hb
  · rcases hbc with hbc | ⟨_, hc⟩
    · rw [Number.isNaN_of_beq hbc] at hb
      cases hb
    · exact .inr ⟨ha, hc⟩

/-! ## What a value can be the same as -/

theorem eq_number_of_same {a : Float} {v : Value} (h : same (.number a) v = true) :
    ∃ b, v = .number b := by
  cases v with
  | number b => exact ⟨b, rfl⟩
  | null | bool | string | pool | entity => cases h

theorem eq_pool_of_same {as : List Value} {v : Value} (h : same (.pool as) v = true) :
    ∃ bs, v = .pool bs ∧ sameAll as bs = true := by
  cases v with
  | pool bs => exact ⟨bs, rfl, h⟩
  | null | number | bool | string | entity => cases h

/-- A value that is neither a number nor a pool is the same as itself only. -/
theorem eq_of_same {a b : Value} (hn : a.number? = none) (hp : a.pool? = none)
    (h : same a b = true) : a = b := by
  cases a with
  | number n => cases hn
  | pool items => cases hp
  | null | bool | string | entity => cases b <;> simp_all [same, equal]

theorem sameAll_cons {a : Value} {as vs : List Value} (h : sameAll (a :: as) vs = true) :
    ∃ b bs, vs = b :: bs ∧ same a b = true ∧ sameAll as bs = true := by
  cases vs with
  | nil => cases h
  | cons b bs =>
    rw [sameAll, Bool.and_eq_true_iff] at h
    exact ⟨b, bs, rfl, h.1, h.2⟩

/-! ## All values -/

mutual

theorem same_refl : (v : Value) → same v v = true
  | .number a => same_number_refl a
  | .pool items => sameAll_refl items
  | .null => rfl
  | .bool b => by simp [same, equal]
  | .string s => by simp [same, equal]
  | .entity id => by simp [same, equal]

theorem sameAll_refl : (vs : List Value) → sameAll vs vs = true
  | [] => rfl
  | v :: vs => by rw [sameAll, same_refl v, sameAll_refl vs]; rfl

end

mutual

theorem same_symm : (a b : Value) → same a b = true → same b a = true
  | .number a, v, h => by
    obtain ⟨b, rfl⟩ := eq_number_of_same h
    rw [same_number_comm]; exact h
  | .pool as, v, h => by
    obtain ⟨bs, rfl, hs⟩ := eq_pool_of_same h
    exact sameAll_symm as bs hs
  | .null, v, h | .bool _, v, h | .string _, v, h | .entity _, v, h => by
    rw [← eq_of_same rfl rfl h]; exact same_refl _

theorem sameAll_symm : (as bs : List Value) → sameAll as bs = true → sameAll bs as = true
  | [], bs, h => by
    cases bs with
    | nil => rfl
    | cons b bs => cases h
  | a :: as, vs, h => by
    obtain ⟨b, bs, rfl, hb, hbs⟩ := sameAll_cons h
    rw [sameAll, same_symm a b hb, sameAll_symm as bs hbs]; rfl

end

mutual

theorem same_trans : (a b c : Value) → same a b = true → same b c = true → same a c = true
  | .number a, v, w, hab, hbc => by
    obtain ⟨b, rfl⟩ := eq_number_of_same hab
    obtain ⟨c, rfl⟩ := eq_number_of_same hbc
    exact same_number_trans hab hbc
  | .pool as, v, w, hab, hbc => by
    obtain ⟨bs, rfl, hs⟩ := eq_pool_of_same hab
    obtain ⟨cs, rfl, ht⟩ := eq_pool_of_same hbc
    exact sameAll_trans as bs cs hs ht
  | .null, v, w, hab, hbc | .bool _, v, w, hab, hbc | .string _, v, w, hab, hbc
  | .entity _, v, w, hab, hbc => by
    rw [eq_of_same rfl rfl hab]; exact hbc

theorem sameAll_trans : (as bs cs : List Value) → sameAll as bs = true → sameAll bs cs = true →
    sameAll as cs = true
  | [], bs, cs, hab, hbc => by
    cases bs with
    | nil => exact hbc
    | cons b bs => cases hab
  | a :: as, vs, ws, hab, hbc => by
    obtain ⟨b, bs, rfl, hb, hbs⟩ := sameAll_cons hab
    obtain ⟨c, cs, rfl, hc, hcs⟩ := sameAll_cons hbc
    rw [sameAll, same_trans a b c hb hc, sameAll_trans as bs cs hbs hcs]; rfl

end

theorem same_equivalence : Equivalence fun a b : Value => a.same b = true :=
  ⟨same_refl, same_symm _ _, same_trans _ _ _⟩

/-! ## Without a NaN -/

mutual

/-- Whether there is a NaN in a value, at any depth. -/
def hasNaN : Value → Bool
  | .number n => n.isNaN
  | .pool items => anyNaN items
  | _ => false

/-- Whether there is a NaN in one of some values. -/
def anyNaN : List Value → Bool
  | [] => false
  | v :: vs => hasNaN v || anyNaN vs

end

theorem equal_number_eq (a b : Float) :
    equal (.number a) (.number b) = (same (.number a) (.number b) && !a.isNaN) := by
  simp only [equal, same]
  cases h : a.isNaN with
  | false => simp
  | true =>
    have hne : (a == b) = false := by
      rw [Bool.eq_false_iff]
      intro hab
      rw [Number.isNaN_of_beq hab] at h
      cases h
    simp [hne]

mutual

/-- What is equal is what is the same and has no NaN in it. -/
theorem equal_eq_same_and : (a b : Value) → equal a b = (same a b && !hasNaN a)
  | .number a, v => by
    cases v with
    | number b => exact equal_number_eq a b
    | null | bool | string | pool | entity => rfl
  | .pool as, v => by
    cases v with
    | pool bs => exact equalAll_eq_same_and as bs
    | null | bool | string | number | entity => rfl
  | .null, v | .bool _, v | .string _, v | .entity _, v => by
    cases v <;> simp [same, hasNaN]

theorem equalAll_eq_same_and : (as bs : List Value) →
    equalAll as bs = (sameAll as bs && !anyNaN as)
  | [], bs => by cases bs <;> rfl
  | a :: as, [] => rfl
  | a :: as, b :: bs => by
    rw [equalAll, sameAll, anyNaN, equal_eq_same_and a b, equalAll_eq_same_and as bs,
      Bool.not_or]
    ac_rfl

end

end Value

namespace Message

theorem same_iff {a b : Message} :
    a.same b = true ↔
      a.target = b.target ∧ a.event = b.event ∧ Value.sameAll a.args b.args = true := by
  simp [same, and_assoc]

theorem same_refl (a : Message) : a.same a = true :=
  same_iff.mpr ⟨rfl, rfl, Value.sameAll_refl _⟩

theorem same_symm {a b : Message} (h : a.same b = true) : b.same a = true := by
  obtain ⟨ht, he, ha⟩ := same_iff.mp h
  exact same_iff.mpr ⟨ht.symm, he.symm, Value.sameAll_symm _ _ ha⟩

theorem same_trans {a b c : Message} (hab : a.same b = true) (hbc : b.same c = true) :
    a.same c = true := by
  obtain ⟨ht, he, ha⟩ := same_iff.mp hab
  obtain ⟨ht', he', ha'⟩ := same_iff.mp hbc
  exact same_iff.mpr ⟨ht.trans ht', he.trans he', Value.sameAll_trans _ _ _ ha ha'⟩

theorem same_comm (a b : Message) : a.same b = b.same a := by
  rw [Bool.eq_iff_iff]
  exact ⟨same_symm, same_symm⟩

theorem key_eq_of_same {a b : Message} (h : a.same b = true) : a.key = b.key := by
  obtain ⟨ht, he, _⟩ := same_iff.mp h
  rw [key, key, ht, he]

theorem same_equivalence : Equivalence fun a b : Message => a.same b = true :=
  ⟨same_refl, same_symm, same_trans⟩

/-- Whether there is a NaN in the arguments, at any depth. -/
def hasNaN (m : Message) : Bool := Value.anyNaN m.args

theorem equal_eq_same_and (a b : Message) : equal a b = (same a b && !hasNaN a) := by
  rw [equal, same, hasNaN, Value.equalAll_eq_same_and]
  ac_rfl

/-- **Identity is an equivalence.** Being the same is reflexive, symmetric and transitive on all
values and on all messages, whatever NaNs are in them. What is equal is what is the same and has
no NaN in it: so for values and messages without a NaN to be the same is to be equal, and a value
or message is equal to itself exactly if it has none. Messages that are the same have the same
key. -/
theorem identity_is_equivalence :
    (Equivalence fun a b : Value => a.same b = true) ∧
    (Equivalence fun a b : Message => a.same b = true) ∧
    (∀ a b : Value, (a == b) = (a.same b && !a.hasNaN)) ∧
    (∀ a b : Message, (a == b) = (a.same b && !a.hasNaN)) ∧
    (∀ a b : Value, a.hasNaN = false → a.same b = (a == b)) ∧
    (∀ a b : Message, a.hasNaN = false → a.same b = (a == b)) ∧
    (∀ a : Value, (a == a) = true ↔ a.hasNaN = false) ∧
    (∀ a : Message, (a == a) = true ↔ a.hasNaN = false) ∧
    (∀ a b : Message, a.same b = true → a.key = b.key) := by
  have hvalue : ∀ a b : Value, (a == b) = (a.same b && !a.hasNaN) := Value.equal_eq_same_and
  have hmessage : ∀ a b : Message, (a == b) = (a.same b && !a.hasNaN) := equal_eq_same_and
  refine ⟨Value.same_equivalence, same_equivalence, hvalue, hmessage, ?_, ?_, ?_, ?_, ?_⟩
  · intro a b ha
    rw [hvalue, ha, Bool.not_false, Bool.and_true]
  · intro a b ha
    rw [hmessage, ha, Bool.not_false, Bool.and_true]
  · intro a
    rw [hvalue, Value.same_refl, Bool.true_and, Bool.not_eq_true']
  · intro a
    rw [hmessage, same_refl, Bool.true_and, Bool.not_eq_true']
  · exact fun a b => key_eq_of_same

/-- A hit with a zero in a nested pool is the same as, and equal to, one with a negative zero
there; one with a NaN there is the same as itself, though not equal, and has its key. -/
theorem identity_is_equivalence_hit :
    let hit (n : Float) : Message := ⟨⟨1⟩, "hit", [.pool [.pool [.number n], .string "x"]]⟩
    (hit 0.0).hasNaN = false ∧ (hit 0.0).same (hit (-0.0)) = (hit 0.0 == hit (-0.0)) ∧
    (hit (-0.0)).same (hit 0.0) = true ∧
    (hit (0.0 / 0.0)).hasNaN = true ∧ (hit (0.0 / 0.0)).same (hit (0.0 / 0.0)) = true ∧
    ¬ (hit (0.0 / 0.0) == hit (0.0 / 0.0)) = true := by
  intro hit
  obtain ⟨-, hequivalence, -, -, -, hagree, -, hself, -⟩ := identity_is_equivalence
  have hzero : (hit 0.0).hasNaN = false := by decide +kernel
  have hnan : (hit (0.0 / 0.0)).hasNaN = true := by decide +kernel
  have hequal : (hit 0.0 == hit (-0.0)) = true := by decide +kernel
  refine ⟨hzero, hagree _ _ hzero, ?_, hnan, hequivalence.refl _, ?_⟩
  · exact hequivalence.symm ((hagree _ _ hzero).trans hequal)
  · rw [hself, hnan]
    exact Bool.noConfusion

end Message

end EntityScript
