import EntityScript.Number.Text
import EntityScript.Proofs.Number.Scientific

/-! # Shortest decimals round back

A decimal is read as the double that its value rounds to (`ofDecimal_eq`). The shortest
decimal of a double is a point of some decimal grid in the interval of what rounds to it, so
it is read as that double again (`shortest_roundsTo`): the search for a grid with such a point
ends at seventeen digits, where the grid is finer than the interval is wide
(`Interval.onGrid_ne_none`). -/

namespace EntityScript.Number

/-- The rational that a decimal is. -/
def Decimal.value (d : Decimal) : ℚ := d.digits * 10 ^ d.exponent

/-! ## The order of a decimal -/

theorem decimalLength_le_iff {n k : ℕ} (hk : 0 < k) : decimalLength n ≤ k ↔ n < 10 ^ k :=
  Nat.length_toDigits_le_iff (by norm_num) hk

theorem lt_ten_pow_decimalLength (n : ℕ) : n < 10 ^ decimalLength n :=
  (decimalLength_le_iff Nat.length_toDigits_pos).mp le_rfl

theorem ten_pow_decimalLength_le {n : ℕ} (hn : 0 < n) : 10 ^ (decimalLength n - 1) ≤ n := by
  by_contra hlt
  rcases Nat.eq_zero_or_pos (decimalLength n - 1) with hzero | hpos
  · rw [hzero, pow_zero] at hlt
    omega
  · have hle := (decimalLength_le_iff hpos).mpr (Nat.lt_of_not_le hlt)
    omega

theorem Decimal.value_lt (d : Decimal) : d.value < 10 ^ (d.exponent + decimalLength d.digits) := by
  have hlt : (d.digits : ℚ) < 10 ^ decimalLength d.digits := by
    exact_mod_cast lt_ten_pow_decimalLength d.digits
  rw [add_comm, zpow_add₀ (by norm_num), zpow_natCast]
  unfold value
  gcongr

theorem Decimal.le_value {d : Decimal} (hd : 0 < d.digits) :
    10 ^ (d.exponent + decimalLength d.digits - 1) ≤ d.value := by
  have hle : (10 : ℚ) ^ (decimalLength d.digits - 1) ≤ d.digits := by
    exact_mod_cast ten_pow_decimalLength_le hd
  have hpos : 0 < decimalLength d.digits := Nat.length_toDigits_pos
  have hexp : d.exponent + decimalLength d.digits - 1 =
      ((decimalLength d.digits - 1 : ℕ) : ℤ) + d.exponent := by omega
  rw [hexp, zpow_add₀ (by norm_num), zpow_natCast]
  unfold value
  gcongr

/-! ## Reading a decimal -/

theorem two_pow_lt_ten_pow : (2 : ℚ) ^ (1280 : ℤ) ≤ 10 ^ (390 : ℤ) := by
  calc (2 : ℚ) ^ (1280 : ℤ) = (2 ^ 256) ^ 5 := by rw [← pow_mul]; rfl
    _ ≤ (10 ^ 78) ^ 5 := by gcongr; norm_num
    _ = 10 ^ (390 : ℤ) := by rw [← pow_mul]; rfl

theorem Decimal.scientificValue_eq (d : Decimal) :
    scientificValue d.digits (d.exponent < 0) d.exponent.natAbs = d.value := by
  unfold scientificValue value
  by_cases hneg : d.exponent < 0
  · have hexp : d.exponent = -(d.exponent.natAbs : ℤ) := by omega
    rw [if_pos (decide_eq_true hneg), div_eq_mul_inv, ← zpow_natCast, ← zpow_neg, ← hexp]
  · have hexp : (d.exponent.natAbs : ℤ) = d.exponent := by omega
    rw [if_neg (by simpa using hneg), ← zpow_natCast, hexp]

variable {m : ℕ} {e : ℤ}

theorem ofDecimal_eq {d : Decimal} (hv : RoundsTo d.value m e) (hc : Canonical m e) (hm : 0 < m) :
    ofDecimal d = Fraction.double ⟨false, m, e⟩ := by
  have hle := hv.le hc hm
  have hlt := hv.lt hc
  have hdigits : 0 < d.digits := by
    rcases Nat.eq_zero_or_pos d.digits with hzero | hpos
    · simp only [Decimal.value, hzero, Nat.cast_zero, zero_mul] at hle
      exact absurd hle (not_le.mpr (two_zpow_pos _))
    · exact hpos
  have hlarge : ¬ 400 < d.exponent + decimalLength d.digits := by
    intro horder
    have hten : (10 : ℚ) ^ (390 : ℤ) ≤ d.value :=
      (zpow_le_zpow_right₀ (by norm_num) (by omega)).trans (Decimal.le_value hdigits)
    have htwo : (2 : ℚ) ^ 1024 ≤ 2 ^ (1280 : ℤ) := by
      rw [← zpow_natCast]
      exact zpow_le_zpow_right₀ (by norm_num) (by norm_num)
    exact absurd hlt (not_lt.mpr ((htwo.trans two_pow_lt_ten_pow).trans hten))
  have hsmall : ¬ d.exponent + decimalLength d.digits < -400 := by
    intro horder
    have hten : d.value < 10 ^ (-390 : ℤ) :=
      d.value_lt.trans_le (zpow_le_zpow_right₀ (by norm_num) (by omega))
    have htwo : (10 : ℚ) ^ (-390 : ℤ) ≤ 2 ^ (-1280 : ℤ) := by
      rw [zpow_neg, zpow_neg]
      exact inv_anti₀ (two_zpow_pos _) two_pow_lt_ten_pow
    have hleast : (2 : ℚ) ^ (-1280 : ℤ) ≤ 2 ^ (-1075 : ℤ) :=
      zpow_le_zpow_right₀ (by norm_num) (by norm_num)
    exact absurd hle (not_le.mpr (hten.trans_le (htwo.trans hleast)))
  have hscientific :
      RoundsTo (scientificValue d.digits (d.exponent < 0) d.exponent.natAbs) m e := by
    rw [d.scientificValue_eq]
    exact hv
  unfold ofDecimal
  dsimp only
  rw [if_neg hdigits.ne', if_neg hlarge, if_neg hsmall]
  exact floatOfScientific_eq hdigits hscientific hc hm

/-! ## Points of a grid in an interval -/

theorem cast_twoTo (k : ℕ) : (twoTo k : ℚ) = 2 ^ k := by simp [twoTo]

theorem cast_tenTo (k : ℕ) : (tenTo k : ℚ) = 10 ^ k := by simp [tenTo]

theorem twoTo_div (k : ℤ) : (twoTo k.toNat : ℚ) / twoTo (-k).toNat = 2 ^ k := by
  have hk : k = k.toNat - ((-k).toNat : ℤ) := by omega
  nth_rewrite 3 [hk]
  rw [zpow_sub₀ (by norm_num), zpow_natCast, zpow_natCast, cast_twoTo, cast_twoTo]

theorem tenTo_div (k : ℤ) : (tenTo k.toNat : ℚ) / tenTo (-k).toNat = 10 ^ k := by
  have hk : k = k.toNat - ((-k).toNat : ℤ) := by omega
  nth_rewrite 3 [hk]
  rw [zpow_sub₀ (by norm_num), zpow_natCast, zpow_natCast, cast_tenTo, cast_tenTo]

theorem twoTo_pos (k : ℕ) : 0 < twoTo k := Nat.pow_pos (by norm_num)

theorem tenTo_pos (k : ℕ) : 0 < tenTo k := Nat.pow_pos (by norm_num)

namespace Interval

/-- What the bounds are multiplied by to compare them with points of the grid. -/
def up (step : ℤ) : ℕ := tenTo (-step).toNat

/-- The distance of two points of the grid, over the common denominator. -/
def unit (i : Interval) (step : ℤ) : ℕ := i.den * tenTo step.toNat

/-- The point of the grid next below the middle. -/
def below (i : Interval) (step : ℤ) : ℕ := i.mid * up step / i.unit step

/-- The point of the grid of step `10 ^ step` lies in the interval. -/
structure Hits (i : Interval) (step : ℤ) (p : ℕ) : Prop where
  low : i.low * up step ≤ p * i.unit step
  high : p * i.unit step ≤ i.high * up step
  closed : i.low * up step = p * i.unit step ∨ p * i.unit step = i.high * up step →
    i.closed = true

theorem within_iff (closed : Bool) (a b : ℕ) :
    (if closed then decide (a ≤ b) else decide (a < b)) = true ↔
      a ≤ b ∧ (a = b → closed = true) := by
  cases closed
  · simp
    omega
  · simp

section Grid

variable {i : Interval} {step : ℤ} {p : ℕ}

theorem onGrid_eq_some (h : i.onGrid step = some p) :
    (p = i.below step ∧ i.low * up step ≤ p * i.unit step ∧
      (i.low * up step = p * i.unit step → i.closed = true)) ∨
    p = i.below step + 1 ∧ p * i.unit step ≤ i.high * up step ∧
      (p * i.unit step = i.high * up step → i.closed = true) := by
  unfold onGrid at h
  simp only [Bool.and_eq_true, within_iff] at h
  split at h
  · rename_i hboth
    split at h
    · cases h
      exact .inl ⟨rfl, hboth.1⟩
    · cases h
      exact .inr ⟨rfl, hboth.2⟩
  · split at h
    · rename_i hbelow
      cases h
      exact .inl ⟨rfl, hbelow⟩
    · split at h
      · rename_i habove
        cases h
        exact .inr ⟨rfl, habove⟩
      · cases h

theorem onGrid_eq_none (h : i.onGrid step = none) :
    i.below step * i.unit step ≤ i.low * up step ∧
      i.high * up step ≤ (i.below step + 1) * i.unit step := by
  unfold onGrid at h
  simp only [Bool.and_eq_true, within_iff] at h
  split at h
  · split at h <;> cases h
  · split at h
    · cases h
    · rename_i hbelow
      split at h
      · cases h
      · rename_i habove
        constructor
        · by_contra hlt
          exact hbelow ⟨le_of_lt (not_le.mp hlt), fun heq => absurd heq (ne_of_lt (not_le.mp hlt))⟩
        · by_contra hlt
          exact habove ⟨le_of_lt (not_le.mp hlt), fun heq => absurd heq (ne_of_lt (not_le.mp hlt))⟩

variable (hlow : i.low < i.mid) (hhigh : i.mid < i.high) (hden : 0 < i.den)

include hlow hhigh hden in
theorem onGrid_hits (h : i.onGrid step = some p) : i.Hits step p := by
  have hlow' := Nat.mul_lt_mul_of_pos_right hlow (tenTo_pos (-step).toNat)
  have hhigh' := Nat.mul_lt_mul_of_pos_right hhigh (tenTo_pos (-step).toNat)
  have hunit : 0 < i.unit step := Nat.mul_pos hden (tenTo_pos _)
  rcases onGrid_eq_some h with ⟨rfl, hle, hclosed⟩ | ⟨rfl, hle, hclosed⟩
  · have hmid : i.below step * i.unit step ≤ i.mid * up step := Nat.div_mul_le_self _ _
    have hlt : i.below step * i.unit step < i.high * up step := hmid.trans_lt hhigh'
    refine ⟨hle, hlt.le, ?_⟩
    rintro (heq | heq)
    · exact hclosed heq
    · exact absurd heq hlt.ne
  · have hmid : i.mid * up step < (i.below step + 1) * i.unit step := by
      rw [Nat.mul_comm (_ + 1)]
      exact Nat.lt_mul_div_succ _ hunit
    have hlt : i.low * up step < (i.below step + 1) * i.unit step := hlow'.trans hmid
    refine ⟨hlt.le, hle, ?_⟩
    rintro (heq | heq)
    · exact absurd heq hlt.ne
    · exact hclosed heq

end Grid

/-! ## The interval of a double -/

section Scaled

variable {i : Interval} (hden : 0 < i.den) (step : ℤ) (a p : ℕ)

include hden in
theorem bound_scaled : (a : ℚ) / i.den = (a * up step : ℕ) / (i.den * up step : ℕ) := by
  have hup : (up step : ℚ) ≠ 0 := by exact_mod_cast (tenTo_pos _).ne'
  have hden' : (i.den : ℚ) ≠ 0 := by exact_mod_cast hden.ne'
  push_cast
  field_simp

include hden in
theorem point_scaled : (p : ℚ) * 10 ^ step = (p * i.unit step : ℕ) / (i.den * up step : ℕ) := by
  have hup : (tenTo (-step).toNat : ℚ) ≠ 0 := by exact_mod_cast (tenTo_pos _).ne'
  have hden' : (i.den : ℚ) ≠ 0 := by exact_mod_cast hden.ne'
  rw [← tenTo_div]
  unfold up unit
  push_cast
  field_simp

include hden in
theorem scaled_pos : (0 : ℚ) < (i.den * up step : ℕ) := by
  exact_mod_cast Nat.mul_pos hden (tenTo_pos _)

include hden in
theorem bound_le_point : (a : ℚ) / i.den ≤ p * 10 ^ step ↔ a * up step ≤ p * i.unit step := by
  rw [bound_scaled hden step, point_scaled hden, div_le_div_iff_of_pos_right (scaled_pos hden step)]
  exact Nat.cast_le

include hden in
theorem point_le_bound : p * 10 ^ step ≤ (a : ℚ) / i.den ↔ p * i.unit step ≤ a * up step := by
  rw [bound_scaled hden step, point_scaled hden, div_le_div_iff_of_pos_right (scaled_pos hden step)]
  exact Nat.cast_le

end Scaled

theorem scale_div (e : ℤ) : (twoTo (e - 2).toNat : ℚ) / twoTo (2 - e).toNat = 2 ^ e / 4 := by
  have h := twoTo_div (e - 2)
  rw [neg_sub] at h
  rw [h, zpow_sub₀ (by norm_num)]
  norm_num

theorem of_den_pos (m : ℕ) (e : ℤ) : 0 < (of m e).den := twoTo_pos _

theorem of_mid (m : ℕ) (e : ℤ) : ((of m e).mid : ℚ) / (of m e).den = m * 2 ^ e := by
  have h := scale_div e
  simp only [of]
  push_cast
  rw [mul_div_assoc, h]
  ring

theorem of_high (m : ℕ) (e : ℤ) : ((of m e).high : ℚ) / (of m e).den = (m + 1 / 2) * 2 ^ e := by
  have h := scale_div e
  simp only [of]
  push_cast
  rw [mul_div_assoc, h]
  ring

theorem of_low {m : ℕ} (hm : 0 < m) (e : ℤ) :
    ((of m e).low : ℚ) / (of m e).den = (m - room m e) * 2 ^ e := by
  have h := scale_div e
  simp only [of, room]
  by_cases hedge : m = 2 ^ 52 ∧ -1074 < e
  · have hcast : ((4 * m - 1 : ℕ) : ℚ) = 4 * m - 1 := by
      rw [Nat.cast_sub (by omega)]
      push_cast
      rfl
    rw [if_pos hedge, if_pos (show m = twoTo 52 ∧ leastExponent < e from hedge), Nat.cast_mul,
      mul_div_assoc, h, hcast]
    ring
  · have hcast : ((4 * m - 2 : ℕ) : ℚ) = 4 * m - 2 := by
      rw [Nat.cast_sub (by omega)]
      push_cast
      rfl
    rw [if_neg hedge, if_neg (show ¬ (m = twoTo 52 ∧ leastExponent < e) from hedge), Nat.cast_mul,
      mul_div_assoc, h, hcast]
    ring

theorem Hits.roundsTo {step : ℤ} {p m : ℕ} {e : ℤ} (hm : 0 < m) (h : (of m e).Hits step p) :
    RoundsTo (p * 10 ^ step) m e := by
  have hden := of_den_pos m e
  have hlow := (bound_le_point hden step _ p).mpr h.low
  have hhigh := (point_le_bound hden step _ p).mpr h.high
  rw [of_low hm] at hlow
  rw [of_high] at hhigh
  refine ⟨hlow, hhigh, ?_⟩
  intro hends
  have hclosed : (of m e).closed = true := by
    refine h.closed ?_
    rcases hends with heq | heq
    · left
      refine le_antisymm h.low ((point_le_bound hden step _ p).mp ?_)
      rw [of_low hm, heq]
    · right
      refine le_antisymm h.high ((bound_le_point hden step _ p).mp ?_)
      rw [of_high, heq]
  simpa [of] using hclosed

theorem of_low_lt_mid {m : ℕ} (hm : 0 < m) (e : ℤ) : (of m e).low < (of m e).mid := by
  refine Nat.mul_lt_mul_of_pos_right ?_ (twoTo_pos _)
  split <;> omega

theorem of_mid_lt_high (m : ℕ) (e : ℤ) : (of m e).mid < (of m e).high :=
  Nat.mul_lt_mul_of_pos_right (by omega) (twoTo_pos _)

/-! ## Seventeen digits suffice -/

/-- A grid without a point in the interval is at least as wide as the interval. -/
theorem width_le {m : ℕ} {e step : ℤ} (hm : 0 < m) (h : (of m e).onGrid step = none) :
    (1 / 2 + room m e) * 2 ^ e ≤ 10 ^ step := by
  have hden := of_den_pos m e
  obtain ⟨hbelow, habove⟩ := onGrid_eq_none h
  have hlow := (point_le_bound hden step _ _).mpr hbelow
  have hhigh := (bound_le_point hden step _ _).mpr habove
  rw [of_low hm] at hlow
  rw [of_high] at hhigh
  push_cast at hhigh
  linarith

end Interval

theorem le_tenTo_scaleUp {num den : ℕ} : ∀ {fuel start : ℕ}, den ≤ num * tenTo (start + fuel) →
    den ≤ num * tenTo (scaleUp num den fuel start)
  | 0, _, h => h
  | fuel + 1, start, h => by
    unfold scaleUp
    split
    · assumption
    · exact le_tenTo_scaleUp (by rwa [Nat.add_right_comm])

theorem ten_zpow_order_le {num den : ℕ} (hden : 0 < den) (hreach : den ≤ num * tenTo 330) :
    (10 : ℚ) ^ (decimalOrder num den - 1) ≤ num / den := by
  have hden' : (0 : ℚ) < den := by exact_mod_cast hden
  rw [le_div_iff₀ hden']
  unfold decimalOrder
  split
  · rename_i hle
    have hpos : 0 < num / den := Nat.div_pos hle hden
    have hlength : 0 < decimalLength (num / den) := Nat.length_toDigits_pos
    have hexp : (decimalLength (num / den) : ℤ) - 1 =
        ((decimalLength (num / den) - 1 : ℕ) : ℤ) := by omega
    rw [hexp, zpow_natCast]
    have hnat : 10 ^ (decimalLength (num / den) - 1) * den ≤ num :=
      (Nat.mul_le_mul_right _ (ten_pow_decimalLength_le hpos)).trans (Nat.div_mul_le_self _ _)
    exact_mod_cast hnat
  · have hscale : den ≤ num * tenTo (scaleUp num den 330 0) :=
      le_tenTo_scaleUp (by simpa using hreach)
    have hscale' : (den : ℚ) ≤ num * 10 ^ scaleUp num den 330 0 := by
      exact_mod_cast hscale
    have hexp : 1 - (scaleUp num den 330 0 : ℤ) - 1 = -(scaleUp num den 330 0 : ℤ) := by omega
    rw [hexp, zpow_neg, zpow_natCast, inv_mul_le_iff₀ (by positivity)]
    linarith

theorem two_pow_le_tenTo : (2 : ℚ) ^ 1074 ≤ tenTo 330 := by
  calc (2 : ℚ) ^ 1074 = (2 ^ 256) ^ 4 * 2 ^ 50 := by rw [← pow_mul, ← pow_add]
    _ ≤ (10 ^ 78) ^ 4 * 10 ^ 18 := by gcongr <;> norm_num
    _ = 10 ^ 330 := by rw [← pow_mul, ← pow_add]
    _ = tenTo 330 := (cast_tenTo 330).symm

namespace Interval

theorem ten_zpow_order_le_of (hc : Canonical m e) (hm : 0 < m) :
    (10 : ℚ) ^ (decimalOrder (of m e).mid (of m e).den - 1) ≤ m * 2 ^ e := by
  rw [← of_mid]
  refine ten_zpow_order_le (of_den_pos m e) ?_
  have hden : (0 : ℚ) < (of m e).den := by exact_mod_cast of_den_pos m e
  have hm' : (1 : ℚ) ≤ m := by exact_mod_cast hm
  have hleast : (2 : ℚ) ^ (-1074 : ℤ) ≤ (of m e).mid / (of m e).den := by
    rw [of_mid]
    calc (2 : ℚ) ^ (-1074 : ℤ) ≤ 2 ^ e := zpow_le_zpow_right₀ (by norm_num) hc.least
      _ ≤ m * 2 ^ e := le_mul_of_one_le_left (two_zpow_pos e).le hm'
  rw [le_div_iff₀ hden, zpow_neg, inv_mul_le_iff₀ (two_zpow_pos _), zpow_ofNat] at hleast
  have hreach : ((of m e).den : ℚ) ≤ ((of m e).mid * tenTo 330 : ℕ) := by
    rw [Nat.cast_mul]
    calc ((of m e).den : ℚ) ≤ 2 ^ 1074 * (of m e).mid := hleast
      _ ≤ tenTo 330 * (of m e).mid := by gcongr; exact two_pow_le_tenTo
      _ = (of m e).mid * tenTo 330 := mul_comm _ _
  exact Nat.cast_le.mp hreach

theorem onGrid_ne_none (hc : Canonical m e) (hm : 0 < m) :
    (of m e).onGrid (decimalOrder (of m e).mid (of m e).den - (17 : ℕ)) ≠ none := by
  intro hnone
  have hpos := two_zpow_pos e
  have hwidth := width_le hm hnone
  have horder := ten_zpow_order_le_of hc hm
  have hstep : (10 : ℚ) ^ (decimalOrder (of m e).mid (of m e).den - 1) =
      10 ^ 16 * 10 ^ (decimalOrder (of m e).mid (of m e).den - (17 : ℕ)) := by
    rw [← zpow_natCast, ← zpow_add₀ (by norm_num)]
    congr 1
    push_cast
    ring
  rw [hstep] at horder
  have hratio : 10 ^ 16 * (1 / 2 + room m e) ≤ m := by
    refine le_of_mul_le_mul_right ?_ hpos
    calc 10 ^ 16 * (1 / 2 + room m e) * 2 ^ e = 10 ^ 16 * ((1 / 2 + room m e) * 2 ^ e) := by ring
      _ ≤ 10 ^ 16 * 10 ^ (decimalOrder (of m e).mid (of m e).den - (17 : ℕ)) := by gcongr
      _ ≤ m * 2 ^ e := horder
  have hm53 : (m : ℚ) < 2 ^ 53 := by exact_mod_cast hc.lt
  unfold room at hratio
  split at hratio
  · rename_i hedge
    rw [hedge.1] at hratio
    norm_num at hratio
  · norm_num at hratio hm53
    linarith

end Interval

/-- **The shortest decimal of a double rounds to it.** -/
theorem shortest_roundsTo (hc : Canonical m e) (hm : 0 < m) :
    RoundsTo (shortest m e).value m e := by
  have hhits : ∀ {step p}, (Interval.of m e).onGrid step = some p → RoundsTo (p * 10 ^ step) m e :=
    fun h => (Interval.onGrid_hits (Interval.of_low_lt_mid hm e) (Interval.of_mid_lt_high m e)
      (Interval.of_den_pos m e) h).roundsTo hm
  unfold shortest
  dsimp only
  obtain ⟨order, horder⟩ : ∃ order,
      decimalOrder (Interval.of m e).mid (Interval.of m e).den = order := ⟨_, rfl⟩
  have hlast := Interval.onGrid_ne_none hc hm
  rw [horder] at hlast ⊢
  split
  · rename_i k d hfound
    obtain ⟨j, _, hj⟩ := List.exists_of_findSome?_eq_some hfound
    obtain ⟨p, hp, heq⟩ := Option.map_eq_some_iff.mp hj
    cases heq
    have hrounds := hhits hp
    split
    · rename_i hpower
      -- A power of ten is written as a single one.
      have hvalue : (d : ℚ) * 10 ^ (order - ((j + 1 : ℕ) : ℤ)) = (1 : ℕ) * 10 ^ order := by
        rw [hpower, cast_tenTo, zpow_sub₀ (by norm_num), zpow_natCast]
        field_simp
        simp
      rw [hvalue] at hrounds
      exact hrounds
    · exact hrounds
  · rename_i hnone
    have hnone' := List.findSome?_eq_none_iff.mp hnone 16 (by simp)
    exact absurd (Option.map_eq_none_iff.mp hnone') hlast

end EntityScript.Number
