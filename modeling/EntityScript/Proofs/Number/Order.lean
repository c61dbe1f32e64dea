import EntityScript.Proofs.Number.Double

/-! # Order and differences of numbers

Two numbers are in order one way or the other unless one is a NaN, which is in order with
nothing (`le_iff_not_lt`, `not_lt_of_isNaN`, `not_le_of_isNaN`). A difference is a NaN exactly if
one of the numbers is, or if both are the same infinity (`isNaN_sub`). -/

namespace EntityScript.Number

open Float.Model (UnpackedFloat Format)
open Float.Model.UnpackedFloat (Sign unpackExponent unpackExponent_packComponents)

/-! ## Comparing -/

theorem compare_finite_swap (s t : Sign) {m₁ m₂ : Nat} (e₁ e₂ : Int) (h₁ : 0 < m₁)
    (h₂ : 0 < m₂) :
    (UnpackedFloat.finite t m₂ e₂ h₂).compare (.finite s m₁ e₁ h₁) =
      ((UnpackedFloat.finite s m₁ e₁ h₁).compare (.finite t m₂ e₂ h₂)).map Ordering.swap := by
  have hswap : (compare e₂ e₁).then (compare m₂ m₁) =
      ((compare e₁ e₂).then (compare m₁ m₂)).swap := by
    rw [Ordering.swap_then, Int.compare_swap, Nat.compare_swap]
  match s, t with
  | .positive, .positive => exact congrArg some hswap
  | .negative, .negative => exact congrArg (some ·.swap) hswap
  | .positive, .negative | .negative, .positive => rfl

theorem compare_swap (a b : UnpackedFloat) : b.compare a = (a.compare b).map Ordering.swap := by
  cases a with
  | notANumber => cases b <;> rfl
  | infinity s =>
    cases b with
    | notANumber | zero t => cases s <;> rfl
    | infinity t | finite t => cases s <;> cases t <;> rfl
  | zero s =>
    cases b with
    | notANumber | zero t => rfl
    | infinity t | finite t => cases t <;> rfl
  | finite s m e hm =>
    cases b with
    | notANumber => rfl
    | infinity t => cases s <;> cases t <;> rfl
    | zero t => cases s <;> rfl
    | finite t m' e' hm' => exact compare_finite_swap s t e e' hm hm'

theorem compare_of_isNaN {a b : UnpackedFloat} (h : a.isNaN = true ∨ b.isNaN = true) :
    a.compare b = none := by
  cases a with
  | notANumber => rfl
  | infinity s | zero s | finite s =>
    cases b with
    | notANumber => cases s <;> rfl
    | infinity t | zero t | finite t => obtain h | h := h <;> cases h

/-- Two numbers that are no NaN are in some order. -/
theorem exists_compare {a b : UnpackedFloat} (ha : a.isNaN = false) (hb : b.isNaN = false) :
    ∃ o, a.compare b = some o := by
  cases a with
  | notANumber => cases ha
  | infinity s | zero s | finite s =>
    cases b with
    | notANumber => cases hb
    | infinity t | zero t | finite t => cases s <;> cases t <;> exact ⟨_, rfl⟩

section Order

variable {a b : Float}

theorem lt_iff : a < b ↔ a.toModel.unpack.compare b.toModel.unpack = some .lt := by
  show decide _ = true ↔ _
  rw [decide_eq_true_iff]
  exact beq_iff_eq (α := Option Ordering)

theorem le_iff : a ≤ b ↔ ∃ o, a.toModel.unpack.compare b.toModel.unpack = some o ∧ o.isLE := by
  show decide _ = true ↔ _
  rw [decide_eq_true_iff]
  exact Option.any_eq_true _ _

/-- Numbers that are no NaN are in order one way or the other. -/
theorem le_iff_not_lt (ha : a.isNaN = false) (hb : b.isNaN = false) : b ≤ a ↔ ¬ a < b := by
  obtain ⟨o, ho⟩ := exists_compare (a := a.toModel.unpack) (b := b.toModel.unpack) ha hb
  rw [le_iff, lt_iff, compare_swap a.toModel.unpack, ho]
  cases o <;> decide

theorem not_lt_of_isNaN (h : a.isNaN = true ∨ b.isNaN = true) : ¬ a < b := by
  rw [lt_iff, compare_of_isNaN h]
  exact (nomatch ·)

theorem not_le_of_isNaN (h : a.isNaN = true ∨ b.isNaN = true) : ¬ a ≤ b := by
  rw [le_iff, compare_of_isNaN h]
  rintro ⟨_, ⟨⟩, _⟩

end Order

/-! ## Differences -/

theorem isNaN_zero_or_finite (s : Sign) (m : Nat) (e : Int) :
    (if h : m = 0 then UnpackedFloat.zero s
      else .finite s m e (Nat.pos_of_ne_zero h)).isNaN = false := by
  by_cases h : m = 0
  · rw [dif_pos h]
    rfl
  · rw [dif_neg h]
    rfl

/-- Only a full exponent field makes a NaN. -/
theorem isNaN_unpack {b : BitVec 64} (h : @unpackExponent .binary64 b ≠ -1#11) :
    (UnpackedFloat.unpack .binary64 b).isNaN = false := by
  have hfull : b.toNat / 2 ^ 52 % 2 ^ 11 ≠ 2047 := by
    rw [← toNat_unpackExponent]
    exact fun heq => h (BitVec.eq_of_toNat_eq heq)
  rw [unpack_eq b hfull]
  exact isNaN_zero_or_finite _ _ _

/-- Putting a number together makes a NaN of nothing else. -/
theorem isNaN_pack (f : UnpackedFloat) : (Float.Model.pack f).isNaN = f.isNaN := by
  show (UnpackedFloat.unpack .binary64 (UnpackedFloat.pack .binary64 f)).isNaN = _
  cases f with
  | notANumber => rfl
  | infinity s | zero s => cases s <;> rfl
  | finite s m e hm =>
    show _ = false
    unfold UnpackedFloat.pack
    dsimp only
    generalize (e + _ + _).toNat = biased
    -- Out of range it becomes an infinity; otherwise its exponent field is not full.
    split
    · cases s <;> rfl
    rename_i hfits
    have hlt : biased + 1 < 2 ^ 11 := Nat.lt_of_not_le hfits
    split
    · refine isNaN_unpack fun hfull => ?_
      rw [unpackExponent_packComponents] at hfull
      have hnat : biased % 2 ^ 11 = 2 ^ 11 - 1 := congrArg BitVec.toNat hfull
      omega
    · refine isNaN_unpack ?_
      rw [unpackExponent_packComponents]
      decide

theorem isNaN_abs (a : Float) : a.abs.isNaN = a.isNaN := by
  refine (isNaN_pack _).trans ?_
  show _ = a.toModel.unpack.isNaN
  cases a.toModel.unpack <;> rfl

theorem isNaN_round (s : Sign) (m : Nat) (e : Int) :
    (UnpackedFloat.round .binary64 s m e).isNaN = false := isNaN_zero_or_finite _ _ _

theorem isNaN_normalize (m : Int) (e : Int) (s : Sign) :
    (UnpackedFloat.normalize .binary64 m e s).isNaN = false := by
  unfold UnpackedFloat.normalize
  split
  · exact isNaN_round _ _ _
  · rfl
  · exact isNaN_round _ _ _

theorem isNaN_sub_unpacked (a b : UnpackedFloat) :
    (UnpackedFloat.sub .binary64 a b).isNaN = (a.isNaN || b.isNaN || (a.isInf && a.beq b)) := by
  cases a with
  | notANumber => rfl
  | infinity s =>
    cases b with
    | notANumber => rfl
    | infinity t => cases s <;> cases t <;> rfl
    | zero t | finite t => cases s <;> rfl
  | zero s =>
    cases b with
    | zero t => cases s <;> cases t <;> rfl
    | notANumber | infinity t | finite t => rfl
  | finite s m e hm =>
    cases b with
    | notANumber | infinity t | zero t => rfl
    | finite t m' e' hm' => exact isNaN_normalize _ _ _

/-- A difference is a NaN because of a NaN, or because of twice the same infinity. -/
theorem isNaN_sub (a b : Float) :
    (a - b).isNaN = (a.isNaN || b.isNaN || (a.isInf && a == b)) :=
  (isNaN_pack _).trans (isNaN_sub_unpacked _ _)

end EntityScript.Number
