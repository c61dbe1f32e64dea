import EntityScript.Operation
import EntityScript.Proofs.Number.Order

/-! # Equal and different

`==` and `!=` answer every two values, and one of the answers is the negation of the other
wherever the values are compared by structure. Numbers are compared by their distance, each
operator on its own side of the tolerance, and a distance that is a NaN is on neither side: so
the answers are opposite exactly if the values have a distance (`BinaryOp.opposite_iff`). -/

namespace EntityScript

/-- Two numbers without a distance: one of them is a NaN, or both are the same infinity. -/
def Value.Distanceless : Value → Value → Prop
  | .number a, .number b => a.isNaN = true ∨ b.isNaN = true ∨ (a.isInf = true ∧ (a == b) = true)
  | _, _ => False

namespace BinaryOp

theorem isNaN_distance (a b : Float) :
    (a - b).abs.isNaN = true ↔ Value.Distanceless (.number a) (.number b) := by
  rw [Number.isNaN_abs, Number.isNaN_sub]
  simp [Value.Distanceless, or_assoc]

theorem equalityTolerance_isNaN : equalityTolerance.isNaN = false := rfl

/-- Every distance is below the tolerance or not, and one that is a NaN is neither. -/
theorem tolerance_le_iff (a b : Float) : (a - b).abs ≥ equalityTolerance ↔
    ¬ (a - b).abs < equalityTolerance ∧ ¬ Value.Distanceless (.number a) (.number b) := by
  rw [← isNaN_distance]
  cases h : (a - b).abs.isNaN with
  | false => simpa using Number.le_iff_not_lt h equalityTolerance_isNaN
  | true => simpa using Number.not_le_of_isNaN (.inr h)

/-- The two sides of the tolerance are opposite exactly for numbers with a distance. -/
theorem opposite_numbers (a b : Float) :
    ((a - b).abs ≥ equalityTolerance ↔ ¬ (a - b).abs < equalityTolerance) ↔
      ¬ Value.Distanceless (.number a) (.number b) := by
  rw [tolerance_le_iff]
  constructor
  · intro h hdistanceless
    have hnear := Number.not_lt_of_isNaN (b := equalityTolerance)
      (.inl ((isNaN_distance a b).mpr hdistanceless))
    exact (h.mpr hnear).2 hdistanceless
  · intro h
    exact and_iff_left h

theorem onEquality_opposite (equal : Bool) :
    onEquality .eq equal = .bool equal ∧ onEquality .ne equal = .bool !equal := by
  cases equal <;> exact ⟨rfl, rfl⟩

/-- Values that are not two numbers are compared by their structure. -/
theorem apply_by_structure {op : BinaryOp} (hop : op.isEquality = true) {l r : Value}
    (h : ∀ a b, ¬ (l = .number a ∧ r = .number b)) :
    op.apply l r = .ok (op.onEquality (l == r)) := by
  unfold apply
  split
  · exact absurd ⟨rfl, rfl⟩ (h _ _)
  · rw [if_pos hop]

/-- **`==` and `!=` of every two values.** Both answer with a boolean and never with a fault,
and they are never both true. They are opposite exactly if the values are not two numbers without
a distance; for those, both are false. -/
theorem opposite_iff (l r : Value) : ∃ equal different,
    BinaryOp.eq.apply l r = .ok (.bool equal) ∧ BinaryOp.ne.apply l r = .ok (.bool different) ∧
    (equal && different) = false ∧ (different = !equal ↔ ¬ Value.Distanceless l r) := by
  by_cases h : ∃ a b, l = .number a ∧ r = .number b
  · obtain ⟨a, b, rfl, rfl⟩ := h
    -- Each operator makes a comparison of its own here, so neither answer gives the other.
    refine ⟨_, _, rfl, rfl, ?_, ?_⟩
    · rw [← Bool.decide_and, decide_eq_false_iff_not]
      exact fun h => ((tolerance_le_iff a b).mp h.2).1 h.1
    · rw [← decide_not, decide_eq_decide]
      exact opposite_numbers a b
  · have hstructure : ∀ a b, ¬ (l = .number a ∧ r = .number b) := fun a b hab => h ⟨a, b, hab⟩
    have hdistance : ¬ Value.Distanceless l r := by
      intro hdistanceless
      cases l with
      | number a =>
        cases r with
        | number b => exact hstructure a b ⟨rfl, rfl⟩
        | null | bool b | string t | pool q | entity i => exact hdistanceless
      | null | bool b | string t | pool q | entity i => exact hdistanceless
    refine ⟨l == r, !(l == r), ?_, ?_, ?_, ?_⟩
    · rw [apply_by_structure rfl hstructure, (onEquality_opposite _).1]
    · rw [apply_by_structure rfl hstructure, (onEquality_opposite _).2]
    · exact Bool.and_not_self _
    · exact iff_of_true rfl hdistance

/-- Of a square that is out of range, both answers are false. -/
theorem square_neither : let square := Value.number (1e200 * 1e200)
    BinaryOp.mul.apply (.number 1e200) (.number 1e200) = .ok square ∧
    BinaryOp.eq.apply square square = .ok (.bool false) ∧
    BinaryOp.ne.apply square square = .ok (.bool false) := by
  have heq : decide ((1e200 * 1e200 - 1e200 * 1e200 : Float).abs < equalityTolerance) = false := by
    decide +kernel
  have hne : decide ((1e200 * 1e200 - 1e200 * 1e200 : Float).abs ≥ equalityTolerance) = false := by
    decide +kernel
  exact ⟨rfl, congrArg (fun b => Except.ok (Value.bool b)) heq,
    congrArg (fun b => Except.ok (Value.bool b)) hne⟩

end BinaryOp

end EntityScript
