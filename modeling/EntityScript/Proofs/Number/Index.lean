import EntityScript.Proofs.Number.Shortest

/-! # Numbers as indices

Which integer a double is taken for when it counts slots is said by `IsIndex` on the rational
that it stands for: the nearest integer, and of two the even one, brought into the signed
64-bit range. `toIndex` gets there by dividing naturals (`isIndex_iff`). -/

namespace EntityScript.Number

open Float.Model.UnpackedFloat

/-- The integer `k` is what the double `x` is taken for as an index. -/
def IsIndex (x : Float) (k : ℤ) : Prop :=
  match shape x with
  | .nan => k = 0
  | .infinite negative => k = if negative then minIndex else maxIndex
  | .finite f =>
    ∃ n : ℕ, Nearest (f.significand * 2 ^ f.exponent) n ∧
      k = saturate (if f.negative then -n else n)

theorem nearest_natCast (n : ℕ) : Nearest n n :=
  ⟨by linarith, by linarith, by rintro (h | h) <;> linarith⟩

/-- Comparing twice the remainder with the divisor rounds a quotient as the two bits behind its
whole part do. -/
theorem halfEven_eq (num : ℕ) {den : ℕ} (hden : 0 < den) :
    halfEven num den = (ExtendedMantissa.ofMantissaAndAccuracy (num / den)
      (accuracyOfFraction (num % den) den)).roundedMantissa := by
  unfold halfEven accuracyOfFraction
  dsimp only
  generalize num / den = q
  generalize num % den = r
  rcases Nat.eq_zero_or_pos r with rfl | hpos
  · rw [if_pos (by omega), if_pos rfl]
    rfl
  · rw [if_neg hpos.ne']
    rcases lt_trichotomy (2 * r) den with h | h | h
    · rw [if_pos h, Nat.compare_eq_lt.mpr h]
      rfl
    · rw [if_neg (by omega), if_neg (by omega), Nat.compare_eq_eq.mpr h]
      show _ = q + q % 2
      split <;> omega
    · rw [if_neg (by omega), if_pos h, Nat.compare_eq_gt.mpr h]
      rfl

theorem halfEven_nearest (num : ℕ) {den : ℕ} (hden : 0 < den) :
    Nearest ((num : ℚ) / den) (halfEven num den) := by
  rw [halfEven_eq num hden]
  exact (represents_quotient num hden).nearest

/-- Rounding a fraction rounds its magnitude and keeps its sign. -/
theorem Fraction.round_nearest (f : Fraction) :
    ∃ n : ℕ, Nearest (f.significand * 2 ^ f.exponent) n ∧
      f.round = if f.negative then -(n : ℤ) else n := by
  unfold Fraction.round
  refine ⟨_, ?_, rfl⟩
  have hvalue := twoTo_div f.exponent
  split
  next h =>
    obtain ⟨k, hk⟩ := Int.eq_ofNat_of_zero_le h
    have hcast : (f.significand : ℚ) * 2 ^ f.exponent = (f.significand * twoTo k : ℕ) := by
      rw [hk, zpow_natCast, Nat.cast_mul, cast_twoTo]
    rw [hcast, hk, Int.toNat_natCast]
    exact nearest_natCast _
  next h =>
    have hcast : (f.significand : ℚ) * 2 ^ f.exponent =
        f.significand / twoTo (-f.exponent).toNat := by
      rw [← hvalue, Int.toNat_of_nonpos (by omega)]
      simp [twoTo, div_eq_mul_inv]
    rw [hcast]
    exact halfEven_nearest _ (twoTo_pos _)

theorem isIndex_iff {x : Float} {k : ℤ} : IsIndex x k ↔ toIndex x = k := by
  unfold IsIndex toIndex
  cases shape x with
  | nan => exact eq_comm
  | infinite negative => exact eq_comm
  | finite f =>
    obtain ⟨n, hn, hround⟩ := f.round_nearest
    constructor
    · rintro ⟨m, hm, rfl⟩
      dsimp only
      rw [hround, hm.unique hn]
    · rintro rfl
      exact ⟨n, hn, by dsimp only; rw [hround]⟩

theorem isIndex_toIndex (x : Float) : IsIndex x (toIndex x) := isIndex_iff.mpr rfl

end EntityScript.Number
