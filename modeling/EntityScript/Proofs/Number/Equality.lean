import EntityScript.Number.Shape

/-! # Equality of numbers

Numbers are equal if they are two zeros of any sign or one and the same number; a NaN
is equal to nothing (`beq_iff_alike`). So equality is symmetric and transitive, and
reflexive off the NaNs. -/

namespace EntityScript.Number

open Float.Model (UnpackedFloat)
open Float.Model.UnpackedFloat (Sign)

/-- Numbers that compare as equal: zeros, or the same number and no NaN. -/
inductive Alike : UnpackedFloat → UnpackedFloat → Prop
  | zero (s t) : Alike (.zero s) (.zero t)
  | infinity (s) : Alike (.infinity s) (.infinity s)
  | finite (s m e h) : Alike (.finite s m e h) (.finite s m e h)

theorem Alike.symm {a b : UnpackedFloat} (h : Alike a b) : Alike b a := by
  cases h with
  | zero s t => exact .zero t s
  | infinity s => exact .infinity s
  | finite s m e h => exact .finite s m e h

theorem Alike.trans {a b c : UnpackedFloat} (hab : Alike a b) (hbc : Alike b c) : Alike a c := by
  cases hab with
  | zero s t => cases hbc with | zero _ u => exact .zero s u
  | infinity s => exact hbc
  | finite s m e h => exact hbc

theorem alike_self_iff (a : UnpackedFloat) : Alike a a ↔ a.isNaN = false := by
  cases a with
  | notANumber => exact ⟨(nomatch ·), (nomatch ·)⟩
  | infinity s => exact ⟨fun _ => rfl, fun _ => .infinity s⟩
  | zero s => exact ⟨fun _ => rfl, fun _ => .zero s s⟩
  | finite s m e h => exact ⟨fun _ => rfl, fun _ => .finite s m e h⟩

/-! ## Equality compares -/

theorem compare_sign_eq_iff (s t : Sign) : compare s t = .eq ↔ s = t := by
  cases s <;> cases t <;> simp [compare]

theorem compare_finite_eq_iff {s t : Sign} {m₁ m₂ : Nat} {e₁ e₂ : Int} (h₁ : 0 < m₁)
    (h₂ : 0 < m₂) :
    (UnpackedFloat.finite s m₁ e₁ h₁).compare (.finite t m₂ e₂ h₂) = some .eq ↔
      s = t ∧ e₁ = e₂ ∧ m₁ = m₂ := by
  match s, t with
  | .positive, .positive =>
    change some ((compare e₁ e₂).then (compare m₁ m₂)) = some .eq ↔ _
    simp
  | .negative, .negative =>
    change some ((compare e₁ e₂).then (compare m₁ m₂)).swap = some .eq ↔ _
    simp
  | .positive, .negative | .negative, .positive => exact ⟨(nomatch ·), fun h => nomatch h.1⟩

theorem compare_eq_iff_alike (a b : UnpackedFloat) : a.compare b = some .eq ↔ Alike a b := by
  constructor
  · intro h
    cases a with
    | notANumber => cases h
    | infinity s =>
      cases b with
      | infinity t =>
        obtain rfl := (compare_sign_eq_iff s t).mp (Option.some.inj h)
        exact .infinity s
      | notANumber | zero | finite => cases s <;> cases h
    | zero s =>
      cases b with
      | zero t => exact .zero s t
      | notANumber => cases h
      | infinity t | finite t => cases t <;> cases h
    | finite s m e hm =>
      cases b with
      | finite t m' e' hm' =>
        obtain ⟨rfl, rfl, rfl⟩ := (compare_finite_eq_iff hm hm').mp h
        exact .finite s m e hm
      | infinity t => cases s <;> cases t <;> cases h
      | notANumber | zero => cases s <;> cases h
  · intro h
    cases h with
    | zero s t => rfl
    | infinity s => exact congrArg some ((compare_sign_eq_iff s s).mpr rfl)
    | finite s m e hm => exact (compare_finite_eq_iff hm hm).mpr ⟨rfl, rfl, rfl⟩

theorem beq_iff_alike (a b : Float) :
    (a == b) = true ↔ Alike a.toModel.unpack b.toModel.unpack := by
  rw [← compare_eq_iff_alike]
  exact beq_iff_eq (α := Option Ordering)

/-! ## The laws of equality -/

theorem beq_comm (a b : Float) : (a == b) = (b == a) := by
  rw [Bool.eq_iff_iff, beq_iff_alike, beq_iff_alike]
  exact ⟨Alike.symm, Alike.symm⟩

theorem beq_trans {a b c : Float} (hab : (a == b) = true) (hbc : (b == c) = true) :
    (a == c) = true :=
  (beq_iff_alike a c).mpr (((beq_iff_alike a b).mp hab).trans ((beq_iff_alike b c).mp hbc))

theorem beq_self_iff (a : Float) : (a == a) = true ↔ a.isNaN = false :=
  (beq_iff_alike a a).trans (alike_self_iff _)

/-- Equal numbers are no NaN. -/
theorem isNaN_of_beq {a b : Float} (h : (a == b) = true) : a.isNaN = false :=
  (beq_self_iff a).mp (beq_trans h (beq_comm a b ▸ h))

end EntityScript.Number
