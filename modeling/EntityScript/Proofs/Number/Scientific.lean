import EntityScript.Proofs.Number.Rounding

/-! # Scientific notation as a double

Digits with a power of ten are made a double in one of two ways: by one operation on two
doubles if both the digits and the power of ten are doubles themselves, and else by one
operation on integers. Either way there is a single rounding, so a scientific notation
becomes the double that its value rounds to (`floatOfScientific_eq`). -/

namespace EntityScript.Number

open Float.Model (UnpackedFloat Format totalExponent)
open Float.Model.UnpackedFloat

/-! ## Products and quotients -/

section Arithmetic

variable {v : ℚ} {m : ℕ} {e : ℤ} {m₁ m₂ : ℕ} {e₁ e₂ : ℤ}

theorem mul_eq (hv : RoundsTo v m e) (hc : Canonical m e) (hm : 0 < m) (h₁ : 0 < m₁) (h₂ : 0 < m₂)
    (hvalue : v = (m₁ * 2 ^ e₁) * (m₂ * 2 ^ e₂)) (hlarge : 2 ^ 52 ≤ m₁ * m₂) :
    UnpackedFloat.mul .binary64 (.finite .positive m₁ e₁ h₁) (.finite .positive m₂ e₂ h₂) =
      .finite .positive m e hm := by
  have hn : Represents (.ofMantissaAndAccuracy (m₁ * m₂) .exact) (v / 2 ^ (e₁ + e₂)) := by
    have hquot : v / 2 ^ (e₁ + e₂) = ((m₁ * m₂ : ℕ) : ℚ) := by
      rw [hvalue, zpow_add₀ (by norm_num)]
      push_cast
      field_simp
    rw [hquot]
    exact represents_exact _
  have hlog : 52 ≤ (m₁ * m₂).log2 := (Nat.le_log2 (by positivity)).mpr hlarge
  exact roundWithAccuracy_eq hv hc hm hn (by omega) .positive

theorem div_eq (hv : RoundsTo v m e) (hc : Canonical m e) (hm : 0 < m) (h₁ : 0 < m₁) (h₂ : 0 < m₂)
    (hvalue : v = (m₁ * 2 ^ e₁) / (m₂ * 2 ^ e₂)) :
    UnpackedFloat.div .binary64 (.finite .positive m₁ e₁ h₁) (.finite .positive m₂ e₂ h₂) =
      .finite .positive m e hm := by
  obtain ⟨t, ht⟩ : ∃ t, min (e₁ - e₂) (Format.binary64.targetExponent
    (totalExponent m₁ e₁ - totalExponent m₂ e₂)) = t := ⟨_, rfl⟩
  have htarget : t = min (e₁ - e₂) (max (m₁.log2 + e₁ - m₂.log2 - e₂ - 53) (-1074)) := by
    rw [← ht]
    show min _ (max ((m₁.log2 : ℤ) + 1 + e₁ - (m₂.log2 + 1 + e₂) - 53) (-1074)) = _
    congr 2
    omega
  obtain ⟨k, hk⟩ : ∃ k : ℕ, (e₁ - e₂ - t).toNat = k := ⟨_, rfl⟩
  have hn : Represents (.ofMantissaAndAccuracy ((m₁ <<< k) / m₂)
      (accuracyOfFraction ((m₁ <<< k) % m₂) m₂)) (v / 2 ^ t) := by
    have hquot : v / 2 ^ t = ((m₁ <<< k : ℕ) : ℚ) / m₂ := by
      have hexp : e₁ = k + (t + e₂) := by omega
      rw [hvalue, hexp, zpow_add₀ (by norm_num), zpow_add₀ (by norm_num), zpow_natCast,
        Nat.shiftLeft_eq]
      push_cast
      field_simp
    rw [hquot]
    exact represents_quotient _ h₂
  have hle : t ≤ max (((m₁ <<< k) / m₂).log2 + t - 52) (-1074) := by
    by_cases hsmall : t ≤ -1074
    · omega
    -- The dividend was shifted so far that the quotient has at least 53 bits.
    have hlarge : 2 ^ 52 ≤ (m₁ <<< k) / m₂ := by
      rw [Nat.le_div_iff_mul_le h₂, Nat.shiftLeft_eq]
      calc 2 ^ 52 * m₂ ≤ 2 ^ 52 * 2 ^ (m₂.log2 + 1) := by gcongr; exact Nat.lt_log2_self.le
        _ = 2 ^ (m₂.log2 + 53) := by rw [← pow_add]; congr 1; omega
        _ ≤ 2 ^ (m₁.log2 + k) := Nat.pow_le_pow_right (by norm_num) (by omega)
        _ = 2 ^ m₁.log2 * 2 ^ k := pow_add _ _ _
        _ ≤ m₁ * 2 ^ k := by gcongr; exact Nat.log2_self_le h₁.ne'
    have hlog := (Nat.le_log2 (by omega)).mpr hlarge
    omega
  have hround := roundWithAccuracy_eq hv hc hm hn hle .positive
  subst ht hk
  exact hround

end Arithmetic

/-! ## Digits and powers of ten that are doubles -/

/-- The double is positive and has the value `v`, with a leading bit. -/
def Holds (x : Float) (v : ℚ) : Prop :=
  ∃ m e, ∃ hm : 0 < m, x.toModel.unpack = .finite .positive m e hm ∧ 2 ^ 52 ≤ m ∧ v = m * 2 ^ e

theorem roundsTo_self (m : ℕ) (e : ℤ) : RoundsTo (m * 2 ^ e) m e := by
  have hpos := two_zpow_pos e
  have hroom := room_pos m e
  refine ⟨by gcongr; linarith, by gcongr; linarith, ?_⟩
  rintro (heq | heq)
  · linarith [mul_right_cancel₀ hpos.ne' heq]
  · linarith [mul_right_cancel₀ hpos.ne' heq]

theorem ofNat_eq {d : ℕ} (hpos : 0 < d) (hlog : d.log2 ≤ 52) :
    UnpackedFloat.ofNat .binary64 d =
      roundWithAccuracy .binary64 .positive (d * 2 ^ (52 - d.log2)) (d.log2 - 52) .exact := by
  have hcompare : compare (d : ℤ) 0 = .gt := Int.compare_eq_gt.mpr (by exact_mod_cast hpos)
  have htarget : (0 - Format.binary64.targetExponent (totalExponent d 0)).toNat = 52 - d.log2 := by
    rw [targetExponent_eq]
    omega
  have hexp : (0 : ℤ) - ((52 - d.log2 : ℕ) : ℤ) = d.log2 - 52 := by omega
  unfold UnpackedFloat.ofNat UnpackedFloat.ofInt UnpackedFloat.normalize
  simp only [hcompare, Int.toNat_natCast, UnpackedFloat.round, decreaseExponent, htarget,
    Nat.shiftLeft_eq, hexp]

theorem holds_natCast {d : ℕ} (hpos : 0 < d) (hlt : d < 2 ^ 53) :
    Holds d.toUInt64.toFloat d := by
  have hlog : d.log2 < 53 := (Nat.log2_lt hpos.ne').mpr hlt
  have hlow : 2 ^ 52 ≤ d * 2 ^ (52 - d.log2) := by
    calc 2 ^ 52 = 2 ^ d.log2 * 2 ^ (52 - d.log2) := by rw [← pow_add]; congr 1; omega
      _ ≤ d * 2 ^ (52 - d.log2) := by gcongr; exact Nat.log2_self_le hpos.ne'
  have hhigh : d * 2 ^ (52 - d.log2) < 2 ^ 53 := by
    calc d * 2 ^ (52 - d.log2) < 2 ^ (d.log2 + 1) * 2 ^ (52 - d.log2) := by
          gcongr; exact Nat.lt_log2_self
      _ = 2 ^ 53 := by rw [← pow_add]; congr 1; omega
  have hc : Canonical (d * 2 ^ (52 - d.log2)) (d.log2 - 52) :=
    ⟨hhigh, by omega, by omega, .inr hlow⟩
  have hm : 0 < d * 2 ^ (52 - d.log2) := by positivity
  have hround : UnpackedFloat.ofNat .binary64 d = .finite .positive _ (d.log2 - 52) hm := by
    have hlog' := (Nat.le_log2 hm.ne').mpr hlow
    rw [ofNat_eq hpos (by omega)]
    refine roundWithAccuracy_eq (roundsTo_self _ _) hc hm ?_ (by omega) .positive
    rw [mul_div_cancel_right₀ _ (two_zpow_pos _).ne']
    exact represents_exact _
  refine ⟨_, d.log2 - 52, hm, ?_, hlow, ?_⟩
  · have hnat : d.toUInt64.toNat = d := Nat.mod_eq_of_lt (by omega)
    have hdouble : d.toUInt64.toFloat =
        Fraction.double ⟨false, d * 2 ^ (52 - d.log2), d.log2 - 52⟩ := by
      show Float.ofModel (.pack (UnpackedFloat.ofNat .binary64 d.toUInt64.toNat)) = _
      rw [hnat, hround]
      rw [← Fraction.unpacked_positive]
      rfl
    rw [hdouble, unpack_double hc, Fraction.unpacked_positive]
  · have hexp : ((d.log2 : ℤ) - 52) = -((52 - d.log2 : ℕ) : ℤ) := by omega
    rw [hexp, zpow_neg, zpow_natCast]
    push_cast
    field_simp

theorem powersOfTen_exact (k : Fin Float.exactlyRepresentablePowersOfTen.size) :
    let x := Float.exactlyRepresentablePowersOfTen[k]
    let f := Fraction.ofBits x.toBits.toNat
    shape x = .finite f ∧ f.negative = false ∧ 2 ^ 52 ≤ f.significand ∧
      f.significand * 2 ^ f.exponent.toNat = 10 ^ k.val * 2 ^ (-f.exponent).toNat := by
  revert k
  decide +kernel

theorem holds_powerOfTen (k : Fin Float.exactlyRepresentablePowersOfTen.size) :
    Holds Float.exactlyRepresentablePowersOfTen[k] (10 ^ k.val) := by
  obtain ⟨hshape, hnegative, hlarge, hvalue⟩ := powersOfTen_exact k
  generalize Fraction.ofBits _ = f at hshape hnegative hlarge hvalue
  have hpos : 0 < f.significand := by omega
  refine ⟨f.significand, f.exponent, hpos, ?_, hlarge, ?_⟩
  · rw [unpack_of_shape hshape, Fraction.unpacked_of_pos hpos, hnegative]
    rfl
  · have hvalue' : (f.significand : ℚ) * 2 ^ f.exponent.toNat =
        10 ^ k.val * 2 ^ (-f.exponent).toNat := by exact_mod_cast hvalue
    have hexp : f.exponent = f.exponent.toNat - ((-f.exponent).toNat : ℤ) := by omega
    rw [hexp, zpow_sub₀ (by norm_num), zpow_natCast, zpow_natCast, ← mul_div_assoc, hvalue']
    field_simp

/-! ## From scientific notation -/

section Conversion

variable {v : ℚ} {m : ℕ} {e : ℤ}

theorem Holds.mul {x y : Float} {a b : ℚ} (hx : Holds x a) (hy : Holds y b)
    (hv : RoundsTo (a * b) m e) (hc : Canonical m e) (hm : 0 < m) :
    x * y = Fraction.double ⟨false, m, e⟩ := by
  obtain ⟨m₁, e₁, h₁, hx, hlarge, rfl⟩ := hx
  obtain ⟨m₂, e₂, h₂, hy, _, rfl⟩ := hy
  show Float.ofModel (.pack (UnpackedFloat.mul .binary64 x.toModel.unpack y.toModel.unpack)) = _
  rw [hx, hy, mul_eq hv hc hm h₁ h₂ rfl (hlarge.trans (Nat.le_mul_of_pos_right _ h₂))]
  rw [← Fraction.unpacked_positive]
  rfl

theorem Holds.div {x y : Float} {a b : ℚ} (hx : Holds x a) (hy : Holds y b)
    (hv : RoundsTo (a / b) m e) (hc : Canonical m e) (hm : 0 < m) :
    x / y = Fraction.double ⟨false, m, e⟩ := by
  obtain ⟨m₁, e₁, h₁, hx, _, rfl⟩ := hx
  obtain ⟨m₂, e₂, h₂, hy, _, rfl⟩ := hy
  show Float.ofModel (.pack (UnpackedFloat.div .binary64 x.toModel.unpack y.toModel.unpack)) = _
  rw [hx, hy, div_eq hv hc hm h₁ h₂ rfl]
  rw [← Fraction.unpacked_positive]
  rfl

theorem RoundsTo.lt (hv : RoundsTo v m e) (hc : Canonical m e) : v < 2 ^ 1024 := by
  have hm : (m : ℚ) + 1 ≤ 2 ^ 53 := by exact_mod_cast hc.lt
  have hpos := two_zpow_pos e
  calc v ≤ (m + 1 / 2) * 2 ^ e := hv.high
    _ < 2 ^ 53 * 2 ^ e := by gcongr; linarith
    _ ≤ 2 ^ 53 * 2 ^ (971 : ℤ) := by gcongr; exacts [by norm_num, hc.most]
    _ = 2 ^ 1024 := by rw [← zpow_natCast, ← zpow_natCast, ← zpow_add₀ (by norm_num)]; norm_num

theorem RoundsTo.le (hv : RoundsTo v m e) (hc : Canonical m e) (hm : 0 < m) :
    2 ^ (-1075 : ℤ) ≤ v := by
  have hm' : (1 : ℚ) ≤ m := by exact_mod_cast hm
  have hroom := room_le m e
  calc (2 : ℚ) ^ (-1075 : ℤ) = 1 / 2 * 2 ^ (-1074 : ℤ) := by
        rw [(by norm_num : (-1075 : ℤ) = -1 + -1074), zpow_add₀ (by norm_num)]; norm_num
    _ ≤ 1 / 2 * 2 ^ e := by gcongr; exacts [by norm_num, hc.least]
    _ ≤ (m - room m e) * 2 ^ e := by gcongr; linarith
    _ ≤ v := hv.low

theorem two_pow_le_ten_pow (k : ℕ) : (2 : ℚ) ^ k ≤ 10 ^ k := by gcongr; norm_num

theorem RoundsTo.exponent_lt {d k : ℕ} (hv : RoundsTo (d * 10 ^ k) m e) (hc : Canonical m e)
    (hd : 0 < d) : k < 1024 := by
  by_contra hk
  have hd' : (1 : ℚ) ≤ d := by exact_mod_cast hd
  have hle : (2 : ℚ) ^ 1024 ≤ d * 10 ^ k := by
    calc (2 : ℚ) ^ 1024 ≤ 2 ^ k := pow_le_pow_right₀ (by norm_num) (Nat.le_of_not_lt hk)
      _ ≤ 10 ^ k := two_pow_le_ten_pow k
      _ ≤ d * 10 ^ k := le_mul_of_one_le_left (by positivity) hd'
  exact absurd (hv.lt hc) (not_lt.mpr hle)

theorem RoundsTo.exponent_lt_of_div {d k : ℕ} (hv : RoundsTo (d / 10 ^ k) m e)
    (hc : Canonical m e) (hm : 0 < m) : k < d.log2 + 1 + 1075 := by
  by_contra hk
  have hlog : (d : ℚ) < 2 ^ (d.log2 + 1) := by exact_mod_cast Nat.lt_log2_self
  have hlt : (d : ℚ) / 10 ^ k < 2 ^ (-1075 : ℤ) := by
    rw [zpow_neg, div_lt_iff₀ (by positivity), ← div_eq_inv_mul, lt_div_iff₀ (by positivity)]
    calc (d : ℚ) * 2 ^ (1075 : ℤ) < 2 ^ (d.log2 + 1) * 2 ^ (1075 : ℤ) := by gcongr
      _ = 2 ^ (d.log2 + 1 + 1075) := by rw [pow_add _ _ 1075, zpow_ofNat]
      _ ≤ 2 ^ k := pow_le_pow_right₀ (by norm_num) (Nat.le_of_not_lt hk)
      _ ≤ 10 ^ k := two_pow_le_ten_pow k
  exact absurd (hv.le hc hm) (not_le.mpr hlt)

theorem ofScientific_upward {d k : ℕ} (hd : 0 < d) (hv : RoundsTo (d * 10 ^ k) m e)
    (hc : Canonical m e) (hm : 0 < m) :
    UnpackedFloat.ofScientific .binary64 d k = .finite .positive m e hm := by
  have hk := hv.exponent_lt hc hd
  have hnotLarge : ¬ ((k : ℤ) > 2 ^ Format.binary64.exponentBits) := by
    show ¬ ((k : ℤ) > 2 ^ 11)
    omega
  have hnotSmall : ¬ ((k : ℤ) < -(2 ^ Format.binary64.exponentBits + (d.log2 : ℤ))) := by
    show ¬ ((k : ℤ) < -(2 ^ 11 + (d.log2 : ℤ)))
    omega
  have hshift : 0 < d <<< 53 := by rw [Nat.shiftLeft_eq]; positivity
  have hpower : 0 < 10 ^ k := by positivity
  unfold UnpackedFloat.ofScientific
  rw [dif_neg hd.ne', if_neg hnotLarge, if_neg hnotSmall, if_pos (by omega)]
  refine mul_eq hv hc hm hshift hpower ?_ ?_
  · show (d : ℚ) * 10 ^ k = ((d <<< 53 : ℕ) * 2 ^ (-53 : ℤ)) * ((10 ^ k : ℕ) * 2 ^ (0 : ℤ))
    rw [Nat.shiftLeft_eq, zpow_neg]
    push_cast
    field_simp
  · rw [Nat.shiftLeft_eq]
    calc 2 ^ 52 ≤ 1 * 2 ^ 53 * 1 := by norm_num
      _ ≤ d * 2 ^ 53 * 10 ^ k := by gcongr <;> omega

theorem ofScientific_downward {d k : ℕ} (hd : 0 < d) (hk : 0 < k) (hv : RoundsTo (d / 10 ^ k) m e)
    (hc : Canonical m e) (hm : 0 < m) :
    UnpackedFloat.ofScientific .binary64 d (-k) = .finite .positive m e hm := by
  have hlt := hv.exponent_lt_of_div hc hm
  have hnotLarge : ¬ (-(k : ℤ) > 2 ^ Format.binary64.exponentBits) := by
    show ¬ (-(k : ℤ) > 2 ^ 11)
    omega
  have hnotSmall : ¬ (-(k : ℤ) < -(2 ^ Format.binary64.exponentBits + (d.log2 : ℤ))) := by
    show ¬ (-(k : ℤ) < -(2 ^ 11 + (d.log2 : ℤ)))
    omega
  unfold UnpackedFloat.ofScientific
  rw [dif_neg hd.ne', if_neg hnotLarge, if_neg hnotSmall, if_neg (by omega)]
  refine div_eq hv hc hm hd _ ?_
  simp

/-- The rational that a scientific notation stands for. -/
def scientificValue (d : ℕ) (negative : Bool) (k : ℕ) : ℚ :=
  if negative then d / 10 ^ k else d * 10 ^ k

/-- A scientific notation becomes the double that its value rounds to. -/
theorem floatOfScientific_eq {d k : ℕ} (hd : 0 < d) {negative : Bool}
    (hv : RoundsTo (scientificValue d negative k) m e) (hc : Canonical m e) (hm : 0 < m) :
    Float.ofScientific d negative k = Fraction.double ⟨false, m, e⟩ := by
  unfold Float.ofScientific
  by_cases hfast : d < 2 ^ 53 ∧ k ≤ 22
  · -- Both the digits and the power of ten are doubles, so one operation rounds once.
    rw [dif_pos hfast]
    have hdigits := holds_natCast hd hfast.1
    have hpower := holds_powerOfTen ⟨k, Nat.lt_succ_of_le hfast.2⟩
    cases negative with
    | false => exact hdigits.mul hpower hv hc hm
    | true => exact hdigits.div hpower hv hc hm
  · rw [dif_neg hfast]
    have hmodel : UnpackedFloat.ofScientific .binary64 d
        (if negative then .negOfNat k else .ofNat k) = .finite .positive m e hm := by
      cases negative with
      | false => exact ofScientific_upward hd hv hc hm
      | true =>
        cases k with
        | zero =>
          simp only [scientificValue, if_true, pow_zero, div_one] at hv
          exact ofScientific_upward hd (by simpa using hv) hc hm
        | succ k => exact ofScientific_downward hd (Nat.succ_pos k) hv hc hm
    show Float.ofModel (.pack (UnpackedFloat.ofScientific .binary64 d _)) = _
    rw [hmodel, ← Fraction.unpacked_positive]
    rfl

end Conversion

end EntityScript.Number
