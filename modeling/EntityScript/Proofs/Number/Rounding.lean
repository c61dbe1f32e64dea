import EntityScript.Proofs.Number.Double
import Mathlib.Algebra.Order.Field.Power
import Mathlib.Data.Rat.Cast.Order
import Mathlib.Tactic.FieldSimp
import Mathlib.Tactic.Linarith
import Mathlib.Tactic.NormNum
import Mathlib.Tactic.Positivity
import Mathlib.Tactic.Ring

/-! # Rounding to a double

The arithmetic of doubles shifts an exact mantissa to the right, remembers in two bits what it
has shifted out (`Represents`), and rounds once at the end, to the nearest and of two to the
even one (`Represents.nearest`). Which rationals end up at a given double is said by
`RoundsTo`, without shifts; `roundWithAccuracy_eq` is that rounding gets there, also from
just below a power of two, where the first rounding carries and the mantissa is shifted once
more. -/

namespace EntityScript.Number

open Float.Model (UnpackedFloat Format totalExponent)
open Float.Model.UnpackedFloat

/-! ## Nearest naturals -/

/-- `n` is the natural number nearest to `ρ`; of two it is the even one. -/
structure Nearest (ρ : ℚ) (n : ℕ) : Prop where
  ge : (n : ℚ) - 1 / 2 ≤ ρ
  le : ρ ≤ n + 1 / 2
  even : ρ = n - 1 / 2 ∨ ρ = n + 1 / 2 → n % 2 = 0

theorem Nearest.le_of {ρ : ℚ} {n k : ℕ} (hn : Nearest ρ n) (hk : Nearest ρ k) : n ≤ k := by
  by_contra hlt
  have hsucc : (k : ℚ) + 1 ≤ n := by exact_mod_cast Nat.lt_of_not_le hlt
  have hkρ : ρ = k + 1 / 2 := le_antisymm hk.le (by linarith [hn.ge])
  have hnρ : ρ = n - 1 / 2 := le_antisymm (by linarith) hn.ge
  have hnk : n = k + 1 := by
    have hcast : (n : ℚ) = k + 1 := by linarith
    exact_mod_cast hcast
  have hkEven := hk.even (.inr hkρ)
  have hnEven := hn.even (.inl hnρ)
  omega

theorem Nearest.unique {ρ : ℚ} {n k : ℕ} (hn : Nearest ρ n) (hk : Nearest ρ k) : n = k :=
  le_antisymm (hn.le_of hk) (hk.le_of hn)

/-! ## What is shifted out -/

/-- The mantissa is the whole part of `ρ`, and the two bits tell where `ρ` lies behind it. -/
def Represents (em : ExtendedMantissa) (ρ : ℚ) : Prop :=
  match em.roundBit, em.stickyBit with
  | false, false => ρ = em.mantissa
  | false, true => em.mantissa < ρ ∧ ρ < em.mantissa + 1 / 2
  | true, false => ρ = em.mantissa + 1 / 2
  | true, true => em.mantissa + 1 / 2 < ρ ∧ ρ < em.mantissa + 1

theorem Represents.floor {em : ExtendedMantissa} {ρ : ℚ} (h : Represents em ρ) :
    (em.mantissa : ℚ) ≤ ρ ∧ ρ < em.mantissa + 1 := by
  obtain ⟨n, r, s⟩ := em
  cases r <;> cases s <;> simp only [Represents] at h <;> constructor <;> linarith

theorem Represents.nearest {em : ExtendedMantissa} {ρ : ℚ} (h : Represents em ρ) :
    Nearest ρ em.roundedMantissa := by
  obtain ⟨n, r, s⟩ := em
  match r, s, h with
  | false, false, h =>
    obtain rfl : ρ = n := h
    show Nearest (n : ℚ) n
    exact ⟨by linarith, by linarith, by rintro (h | h) <;> linarith⟩
  | false, true, ⟨hlow, hhigh⟩ =>
    show Nearest ρ n
    simp only at hlow hhigh
    exact ⟨by linarith, by linarith, by rintro (h | h) <;> linarith⟩
  | true, false, h =>
    obtain rfl : ρ = n + 1 / 2 := h
    show Nearest ((n : ℚ) + 1 / 2) (n + n % 2)
    rcases Nat.mod_two_eq_zero_or_one n with hn | hn
    · rw [hn]
      exact ⟨by push_cast; linarith, by push_cast; linarith, fun _ => by omega⟩
    · rw [hn]
      exact ⟨by push_cast; linarith, by push_cast; linarith, fun _ => by omega⟩
  | true, true, ⟨hlow, hhigh⟩ =>
    show Nearest ρ (n + 1)
    simp only at hlow hhigh
    refine ⟨by push_cast; linarith, by push_cast; linarith, ?_⟩
    push_cast
    rintro (h | h) <;> linarith

theorem Represents.shiftRightOne {em : ExtendedMantissa} {ρ : ℚ} (h : Represents em ρ) :
    Represents em.shiftRightOne (ρ / 2) := by
  obtain ⟨n, r, s⟩ := em
  have hn : (n : ℚ) = 2 * (n / 2 : ℕ) + (n % 2 : ℕ) := by exact_mod_cast (Nat.div_add_mod n 2).symm
  -- The parity of `n` becomes the new round bit, the two old bits the new sticky bit.
  rcases Nat.mod_two_eq_zero_or_one n with hmod | hmod
  · have hround : (n % 2 != 0) = false := by simp [hmod]
    rw [hmod, Nat.cast_zero] at hn
    cases r <;> cases s <;>
      simp only [Represents, ExtendedMantissa.shiftRightOne, hround, Bool.or_true,
        Bool.or_false] at h ⊢
    all_goals first | linarith | constructor <;> linarith
  · have hround : (n % 2 != 0) = true := by simp [hmod]
    rw [hmod, Nat.cast_one] at hn
    cases r <;> cases s <;>
      simp only [Represents, ExtendedMantissa.shiftRightOne, hround, Bool.or_true,
        Bool.or_false] at h ⊢
    all_goals first | linarith | constructor <;> linarith

theorem Represents.shiftRight {em : ExtendedMantissa} {ρ : ℚ} (h : Represents em ρ) (n : ℕ) :
    Represents (em >>> n) (ρ / 2 ^ n) := by
  show Represents (n.repeat ExtendedMantissa.shiftRightOne em) _
  induction n with
  | zero => simpa [Nat.repeat] using h
  | succ n ih =>
    have hstep := ih.shiftRightOne
    rw [div_div, ← pow_succ] at hstep
    exact hstep

theorem represents_exact (n : ℕ) : Represents (.ofMantissaAndAccuracy n .exact) n := rfl

/-- A quotient is represented by its whole part and the comparison of the remainder with half
of the divisor. -/
theorem represents_quotient (a : ℕ) {d : ℕ} (hd : 0 < d) :
    Represents (.ofMantissaAndAccuracy (a / d) (accuracyOfFraction (a % d) d)) ((a : ℚ) / d) := by
  have hd' : (0 : ℚ) < d := by exact_mod_cast hd
  have ha : (a : ℚ) / d = (a / d : ℕ) + (a % d : ℕ) / d := by
    rw [eq_comm, eq_div_iff hd'.ne', add_mul, div_mul_cancel₀ _ hd'.ne']
    exact_mod_cast Nat.div_add_mod' a d
  have hlt : a % d < d := Nat.mod_lt a hd
  rw [ha]
  generalize a / d = q
  generalize a % d = r at hlt
  have hone : (r : ℚ) / d < 1 := (div_lt_one hd').mpr (by exact_mod_cast hlt)
  unfold accuracyOfFraction
  split
  · rename_i hzero
    show _ = (q : ℚ)
    simp [hzero]
  · rename_i hzero
    have hpos : (0 : ℚ) < r / d := by
      have hr := Nat.pos_of_ne_zero hzero
      positivity
    rcases lt_trichotomy (2 * r) d with h | h | h
    · have hhalf : (r : ℚ) / d < 1 / 2 := by
        rw [div_lt_div_iff₀ hd' (by norm_num), one_mul, mul_comm]
        exact_mod_cast h
      rw [Nat.compare_eq_lt.mpr h]
      show (q : ℚ) < _ ∧ _ < (q : ℚ) + 1 / 2
      constructor <;> linarith
    · have hhalf : (r : ℚ) / d = 1 / 2 := by
        rw [div_eq_div_iff hd'.ne' (by norm_num), one_mul, mul_comm]
        exact_mod_cast h
      rw [Nat.compare_eq_eq.mpr h, hhalf]
      rfl
    · have hhalf : 1 / 2 < (r : ℚ) / d := by
        rw [div_lt_div_iff₀ (by norm_num) hd', one_mul, mul_comm (r : ℚ)]
        exact_mod_cast h
      rw [Nat.compare_eq_gt.mpr h]
      show (q : ℚ) + 1 / 2 < _ ∧ _ < (q : ℚ) + 1
      constructor <;> linarith

/-! ## What rounds to a double -/

/-- How far below `m · 2 ^ e` the next double below still leaves room, in units of `2 ^ e`.
Just above a power of two that double is twice as near. -/
def room (m : ℕ) (e : ℤ) : ℚ := if m = 2 ^ 52 ∧ -1074 < e then 1 / 4 else 1 / 2

/-- The positive rationals that round to `m · 2 ^ e`. -/
structure RoundsTo (v : ℚ) (m : ℕ) (e : ℤ) : Prop where
  low : (m - room m e) * 2 ^ e ≤ v
  high : v ≤ (m + 1 / 2) * 2 ^ e
  even : v = (m - room m e) * 2 ^ e ∨ v = (m + 1 / 2) * 2 ^ e → m % 2 = 0

theorem room_pos (m : ℕ) (e : ℤ) : 0 < room m e := by
  unfold room
  split <;> norm_num

theorem room_le (m : ℕ) (e : ℤ) : room m e ≤ 1 / 2 := by
  unfold room
  split <;> norm_num

theorem two_zpow_pos (e : ℤ) : (0 : ℚ) < 2 ^ e := by positivity

theorem RoundsTo.nearest {v : ℚ} {m : ℕ} {e : ℤ} (h : RoundsTo v m e) : Nearest (v / 2 ^ e) m := by
  have hpos := two_zpow_pos e
  have hroom := room_le m e
  have hlow : (m : ℚ) - room m e ≤ v / 2 ^ e := (le_div_iff₀ hpos).mpr h.low
  have hhigh : v / 2 ^ e ≤ m + 1 / 2 := (div_le_iff₀ hpos).mpr h.high
  refine ⟨by linarith, hhigh, ?_⟩
  rintro (heq | heq)
  · refine h.even (.inl ?_)
    have hroom' : room m e = 1 / 2 := by linarith
    rw [hroom', ← heq, div_mul_cancel₀ _ hpos.ne']
  · refine h.even (.inr ?_)
    rw [← heq, div_mul_cancel₀ _ hpos.ne']

theorem targetExponent_eq (n : ℕ) (e : ℤ) :
    Format.binary64.targetExponent (totalExponent n e) = max (n.log2 + e - 52) (-1074) := by
  show max ((n.log2 : ℤ) + 1 + e - 53) (-1074) = _
  congr 1
  omega

theorem shiftToTargetExponent_eq {n : ℕ} {e t : ℤ} (acc : Accuracy)
    (ht : max (n.log2 + e - 52) (-1074) = t) (hle : e ≤ t) :
    shiftToTargetExponent .binary64 n e acc =
      (ExtendedMantissa.ofMantissaAndAccuracy n acc >>> (t - e).toNat, t) := by
  unfold shiftToTargetExponent shiftToExponent
  rw [targetExponent_eq, ht]
  have hexp : e + ((t - e).toNat : ℤ) = t := by omega
  simp only [hexp]

theorem ofMantissaAndAccuracy_mantissa (n : ℕ) (acc : Accuracy) :
    (ExtendedMantissa.ofMantissaAndAccuracy n acc).mantissa = n := by
  unfold ExtendedMantissa.ofMantissaAndAccuracy
  split <;> rfl

theorem two_zpow_add (k : ℕ) (e : ℤ) : (2 : ℚ) ^ (k + e) = 2 ^ k * 2 ^ e := by
  rw [zpow_add₀ (by norm_num), zpow_natCast]

section Order

variable {v : ℚ} {n : ℕ} {i : ℤ} {acc : Accuracy}
  (h : Represents (.ofMantissaAndAccuracy n acc) (v / 2 ^ i))

include h in
theorem lt_two_zpow {k : ℤ} (hk : n.log2 + 1 + i ≤ k) : v < 2 ^ k := by
  have hlt := h.floor.2
  rw [ofMantissaAndAccuracy_mantissa, div_lt_iff₀ (two_zpow_pos i)] at hlt
  have hn : (n : ℚ) + 1 ≤ 2 ^ (n.log2 + 1) := by exact_mod_cast Nat.lt_log2_self
  calc v < (n + 1) * 2 ^ i := hlt
    _ ≤ 2 ^ (n.log2 + 1) * 2 ^ i := by gcongr
    _ = 2 ^ ((n.log2 + 1 : ℕ) + i) := (two_zpow_add _ i).symm
    _ ≤ 2 ^ k := zpow_le_zpow_right₀ (by norm_num) (by omega)

include h in
theorem two_zpow_le (hn : 0 < n) {k : ℤ} (hk : k ≤ n.log2 + i) : 2 ^ k ≤ v := by
  have hle := h.floor.1
  rw [ofMantissaAndAccuracy_mantissa, le_div_iff₀ (two_zpow_pos i)] at hle
  have hlog : (2 : ℚ) ^ n.log2 ≤ n := by exact_mod_cast Nat.log2_self_le hn.ne'
  calc (2 : ℚ) ^ k ≤ 2 ^ (n.log2 + i) := zpow_le_zpow_right₀ (by norm_num) hk
    _ = 2 ^ n.log2 * 2 ^ i := two_zpow_add _ i
    _ ≤ n * 2 ^ i := by gcongr
    _ ≤ v := hle

end Order

namespace RoundsTo

variable {v : ℚ} {m : ℕ} {e : ℤ} (hv : RoundsTo v m e)

include hv in
theorem sub_half_lt {k : ℕ} (h : v < 2 ^ (k + e)) : (m : ℚ) - 1 / 2 < 2 ^ k := by
  rw [two_zpow_add] at h
  have hroom := room_le m e
  have hlt := lt_of_mul_lt_mul_right (hv.low.trans_lt h) (two_zpow_pos e).le
  linarith

include hv in
theorem le_add_half {k : ℕ} (h : 2 ^ (k + e) ≤ v) : (2 : ℚ) ^ k ≤ m + 1 / 2 := by
  rw [two_zpow_add] at h
  exact le_of_mul_le_mul_right (h.trans hv.high) (two_zpow_pos e)

include hv in
/-- The exponent at which a value that rounds to `m · 2 ^ e` is first rounded: `e`, unless the
value is below a power of two and rounded up to it. -/
theorem target (hc : Canonical m e) {n : ℕ} {i t : ℤ} {acc : Accuracy}
    (hn : Represents (.ofMantissaAndAccuracy n acc) (v / 2 ^ i))
    (ht : max (n.log2 + i - 52) (-1074) = t) (hle : i ≤ t) :
    t = e ∨ t = e - 1 ∧ m = 2 ^ 52 ∧ v < 2 ^ 52 * 2 ^ e := by
  obtain ⟨hlt, hleast, hmost, hleading⟩ := hc
  rcases lt_trichotomy t e with hte | hte | hte
  · right
    have hm : 2 ^ 52 ≤ m := by omega
    have hbelow : v < 2 ^ ((52 : ℕ) + e) := lt_two_zpow hn (by omega)
    have hmle : m ≤ 2 ^ 52 := by
      have hlt := hv.sub_half_lt hbelow
      have hlt' : (m : ℚ) < 2 ^ 52 + 1 := by linarith
      have hlt'' : m < 2 ^ 52 + 1 := by exact_mod_cast hlt'
      omega
    refine ⟨?_, by omega, two_zpow_add 52 e ▸ hbelow⟩
    by_contra hne
    have hhalf : v < 2 ^ ((51 : ℕ) + e) := lt_two_zpow hn (by omega)
    have hlt := hv.sub_half_lt hhalf
    have hm' : (2 : ℚ) ^ 52 ≤ m := by exact_mod_cast hm
    linarith
  · exact .inl hte
  · exfalso
    have hnpos : 0 < n := by
      rcases Nat.eq_zero_or_pos n with rfl | hn
      · simp at ht
        omega
      · exact hn
    have habove : 2 ^ ((53 : ℕ) + e) ≤ v := two_zpow_le hn hnpos (by omega)
    have hm : (m : ℚ) + 1 ≤ 2 ^ 53 := by exact_mod_cast hlt
    linarith [hv.le_add_half habove]

end RoundsTo

/-- Just below a power of two the first rounding carries. -/
theorem RoundsTo.carry {v : ℚ} {e : ℤ} (hv : RoundsTo v (2 ^ 52) e) (he : -1074 < e)
    (hbelow : v < 2 ^ 52 * 2 ^ e) : Nearest (v / 2 ^ (e - 1)) (2 ^ 53) := by
  have hpos := two_zpow_pos e
  have hroom : room (2 ^ 52) e = 1 / 4 := by simp [room, he]
  have hdouble : v / 2 ^ (e - 1) = 2 * (v / 2 ^ e) := by
    rw [zpow_sub_one₀ (by norm_num)]
    field_simp
  have hlow : (2 : ℚ) ^ 52 - 1 / 4 ≤ v / 2 ^ e := by
    have hlow := hv.low
    rw [hroom] at hlow
    rw [le_div_iff₀ hpos]
    exact_mod_cast hlow
  have hhigh : v / 2 ^ e < 2 ^ 52 := (div_lt_iff₀ hpos).mpr hbelow
  rw [hdouble]
  refine ⟨?_, ?_, fun _ => by norm_num⟩
  · push_cast
    linarith
  · push_cast
    linarith

/-! ## Rounding -/

theorem roundWithAccuracy_of_shifts {n m : ℕ} {i t e : ℤ} {acc : Accuracy}
    {em em' : ExtendedMantissa} (hfirst : shiftToTargetExponent .binary64 n i acc = (em, t))
    (hsecond : shiftToTargetExponent .binary64 em.roundedMantissa t .exact = (em', e))
    (hmantissa : em'.mantissa = m) (hm : 0 < m) (s : Sign) :
    roundWithAccuracy .binary64 s n i acc = .finite s m e hm := by
  subst hmantissa
  unfold roundWithAccuracy
  rw [hfirst]
  dsimp only
  rw [hsecond]
  exact dif_neg hm.ne'

/-- Rounding gets to the double that a rational rounds to. -/
theorem roundWithAccuracy_eq {v : ℚ} {m : ℕ} {e : ℤ} (hv : RoundsTo v m e) (hc : Canonical m e)
    (hm : 0 < m) {n : ℕ} {i : ℤ} {acc : Accuracy}
    (hn : Represents (.ofMantissaAndAccuracy n acc) (v / 2 ^ i))
    (hle : i ≤ max (n.log2 + i - 52) (-1074)) (s : Sign) :
    roundWithAccuracy .binary64 s n i acc = .finite s m e hm := by
  obtain ⟨t, ht⟩ : ∃ t, max (n.log2 + i - 52) (-1074) = t := ⟨_, rfl⟩
  rw [ht] at hle
  have hshift : Represents (ExtendedMantissa.ofMantissaAndAccuracy n acc >>> (t - i).toNat)
      (v / 2 ^ t) := by
    have hshift := hn.shiftRight (t - i).toNat
    rw [div_div, ← zpow_natCast, ← zpow_add₀ (by norm_num),
      Int.toNat_of_nonneg (by omega)] at hshift
    simpa using hshift
  have hnearest := hshift.nearest
  have hfirst := shiftToTargetExponent_eq acc ht hle
  rcases hv.target hc hn ht hle with rfl | ⟨rfl, rfl, hbelow⟩
  · have hlog : max ((m.log2 : ℤ) + t - 52) (-1074) = t := by
      have hlog := (Nat.log2_lt hm.ne').mpr hc.lt
      rcases hc.leading with hleading | hleading
      · omega
      · have hlog' := (Nat.le_log2 hm.ne').mpr hleading
        have hleast := hc.least
        omega
    have hsecond := shiftToTargetExponent_eq .exact hlog le_rfl
    rw [← hnearest.unique hv.nearest] at hsecond
    refine roundWithAccuracy_of_shifts hfirst hsecond ?_ hm s
    rw [hnearest.unique hv.nearest, sub_self]
    rfl
  · have hcarry : Nearest (v / 2 ^ (e - 1)) (2 ^ 53) := hv.carry (by omega) hbelow
    have hlog : max (((2 ^ 53 : ℕ).log2 : ℤ) + (e - 1) - 52) (-1074) = e := by
      have hleast := hc.least
      rw [Nat.log2_two_pow]
      omega
    have hsecond := shiftToTargetExponent_eq .exact hlog (by omega)
    rw [← hnearest.unique hcarry] at hsecond
    refine roundWithAccuracy_of_shifts hfirst hsecond ?_ hm s
    rw [hnearest.unique hcarry, (by omega : (e - (e - 1)).toNat = 1)]
    rfl

end EntityScript.Number
