import EntityScript.Number.Shape
import Mathlib.Algebra.Group.Nat.Defs

/-! # Doubles put together

The bit fields of a finite double and its fraction determine each other
(`Fraction.ofBits_bits`, `Fraction.bits_ofBits`), so a double can be put together from the
fraction that it stands for (`double_of_shape`) and taken apart again (`unpack_double`). -/

namespace EntityScript.Number

open Float.Model (UnpackedFloat Format)
open Float.Model.UnpackedFloat (Sign packComponents unpackMantissa unpackExponent unpackSign)

/-! ## Fractions and bits -/

/-- A significand and an exponent as a double carries them. -/
structure Canonical (m : Nat) (e : Int) : Prop where
  lt : m < 2 ^ 53
  least : -1074 ≤ e
  most : e ≤ 971
  leading : e = -1074 ∨ 2 ^ 52 ≤ m

/-- What the bit fields stand for, unless the exponent field is full. -/
def Fraction.ofBits (bits : Nat) : Fraction :=
  if bits / 2 ^ 52 % 2 ^ 11 = 0 then ⟨bits / 2 ^ 63 % 2 == 1, bits % 2 ^ 52, -1074⟩
  else ⟨bits / 2 ^ 63 % 2 == 1, bits % 2 ^ 52 + 2 ^ 52, (bits / 2 ^ 52 % 2 ^ 11 : Nat) - 1075⟩

/-- The bit fields of a double that stands for a fraction. -/
def Fraction.bits (f : Fraction) : Nat :=
  f.negative.toNat * 2 ^ 63 + if 2 ^ 52 ≤ f.significand then
    (f.exponent + 1075).toNat * 2 ^ 52 + (f.significand - 2 ^ 52) else f.significand

namespace Fraction

theorem canonical_ofBits {n : Nat} (h : n / 2 ^ 52 % 2 ^ 11 ≠ 2047) :
    Canonical (ofBits n).significand (ofBits n).exponent := by
  by_cases hzero : n / 2 ^ 52 % 2 ^ 11 = 0
  · simp only [ofBits, hzero, if_true]
    exact ⟨by omega, by omega, by omega, .inl rfl⟩
  · simp only [ofBits, hzero, if_false]
    exact ⟨by omega, by omega, by omega, .inr (by omega)⟩

theorem toNat_beq_one (n : Nat) : (n % 2 == 1).toNat = n % 2 := by
  rcases Nat.mod_two_eq_zero_or_one n with h | h <;> simp [h]

theorem bits_ofBits {n : Nat} (hn : n < 2 ^ 64) : (ofBits n).bits = n := by
  have hsign := toNat_beq_one (n / 2 ^ 63)
  by_cases hzero : n / 2 ^ 52 % 2 ^ 11 = 0
  · simp only [ofBits, bits, hzero, if_true]
    rw [if_neg (by omega)]
    omega
  · simp only [ofBits, bits, hzero, if_false]
    rw [if_pos (by omega)]
    omega

theorem exponentField_bits {f : Fraction} (h : Canonical f.significand f.exponent) :
    f.bits / 2 ^ 52 % 2 ^ 11 = if 2 ^ 52 ≤ f.significand then (f.exponent + 1075).toNat else 0 := by
  obtain ⟨hlt, hleast, hmost, hleading⟩ := h
  have hsign := Bool.toNat_lt f.negative
  unfold bits
  split <;> omega

theorem ofBits_bits {f : Fraction} (h : Canonical f.significand f.exponent) :
    ofBits f.bits = f := by
  have hfield := exponentField_bits h
  obtain ⟨hlt, hleast, hmost, hleading⟩ := h
  have hsign := Bool.toNat_lt f.negative
  have hnegative : (f.bits / 2 ^ 63 % 2 == 1) = f.negative := by
    unfold bits
    cases f.negative <;> simp <;> split <;> omega
  unfold ofBits
  rw [hnegative, hfield]
  by_cases hm : 2 ^ 52 ≤ f.significand
  · have hman : f.bits % 2 ^ 52 + 2 ^ 52 = f.significand := by
      simp only [bits, hm, if_true]
      omega
    rw [if_pos hm, if_neg (by omega), hman]
    have hexp : ((f.exponent + 1075).toNat : Int) - 1075 = f.exponent := by omega
    rw [hexp]
  · have hman : f.bits % 2 ^ 52 = f.significand := by
      simp only [bits, hm, if_false]
      omega
    have hexp : f.exponent = -1074 := by omega
    rw [if_neg hm, if_pos rfl, hman, ← hexp]

end Fraction

theorem shape_finite {x : Float} {f : Fraction} (h : shape x = .finite f) :
    x.toBits.toNat / 2 ^ 52 % 2 ^ 11 ≠ 2047 ∧ f = .ofBits x.toBits.toNat := by
  unfold shape Shape.ofBits at h
  dsimp only at h
  split at h
  · split at h <;> cases h
  · rename_i hfull
    refine ⟨hfull, ?_⟩
    unfold Fraction.ofBits
    split at h
    · rename_i hzero
      cases h
      exact (if_pos hzero).symm
    · rename_i hzero
      cases h
      exact (if_neg hzero).symm

theorem canonical_of_shape {x : Float} {f : Fraction} (h : shape x = .finite f) :
    Canonical f.significand f.exponent := by
  obtain ⟨hfull, rfl⟩ := shape_finite h
  exact Fraction.canonical_ofBits hfull

/-! ## Taking apart -/

/-- The sign of a double that is negative, or is not. -/
def signOf (negative : Bool) : Sign := if negative then .negative else .positive

/-- A fraction as a double is computed with. -/
def Fraction.unpacked (f : Fraction) : UnpackedFloat :=
  if h : f.significand = 0 then .zero (signOf f.negative)
  else .finite (signOf f.negative) f.significand f.exponent (Nat.pos_of_ne_zero h)

theorem Fraction.unpacked_of_pos {f : Fraction} (h : 0 < f.significand) :
    f.unpacked = .finite (signOf f.negative) f.significand f.exponent h :=
  dif_neg (Nat.ne_of_gt h)

theorem Fraction.unpacked_of_zero {f : Fraction} (h : f.significand = 0) :
    f.unpacked = .zero (signOf f.negative) :=
  dif_pos h

theorem Fraction.unpacked_positive {m : Nat} (e : Int) (h : 0 < m) :
    (Fraction.mk false m e).unpacked = .finite .positive m e h :=
  unpacked_of_pos (f := ⟨false, m, e⟩) h

section Fields

variable (b : BitVec 64)

theorem toNat_unpackMantissa : (@unpackMantissa .binary64 b).toNat = b.toNat % 2 ^ 52 := by
  show (b.extractLsb 51 0).toNat = _
  rw [BitVec.extractLsb_toNat, Nat.shiftRight_zero]

theorem toNat_unpackExponent :
    (@unpackExponent .binary64 b).toNat = b.toNat / 2 ^ 52 % 2 ^ 11 := by
  show (b.extractLsb 62 52).toNat = _
  rw [BitVec.extractLsb_toNat, Nat.shiftRight_eq_div_pow]

theorem toNat_unpackSign : (@unpackSign .binary64 b).toNat = b.toNat / 2 ^ 63 % 2 := by
  show (b.extractLsb 63 63).toNat = _
  rw [BitVec.extractLsb_toNat, Nat.shiftRight_eq_div_pow]

theorem ofBitVec_unpackSign :
    Sign.ofBitVec (@unpackSign .binary64 b) = signOf (b.toNat / 2 ^ 63 % 2 == 1) := by
  have hsign := toNat_unpackSign b
  unfold Sign.ofBitVec signOf
  rcases Nat.mod_two_eq_zero_or_one (b.toNat / 2 ^ 63) with h | h
  · have hzero : @unpackSign .binary64 b = 0#1 := BitVec.eq_of_toNat_eq (by rw [hsign, h]; rfl)
    rw [hzero, h]
    rfl
  · have hone : @unpackSign .binary64 b ≠ 0#1 := by
      intro hzero
      rw [hzero, h] at hsign
      cases hsign
    rw [if_neg hone, h]
    rfl

end Fields

theorem toNat_one_append (m : BitVec 52) : (1#1 ++ m).toNat = m.toNat + 2 ^ 52 := by
  rw [BitVec.toNat_append, ← Nat.shiftLeft_add_eq_or_of_lt m.isLt, Nat.shiftLeft_eq]
  simp [Nat.add_comm]

theorem unpack_eq (b : BitVec 64) (h : b.toNat / 2 ^ 52 % 2 ^ 11 ≠ 2047) :
    UnpackedFloat.unpack .binary64 b = (Fraction.ofBits b.toNat).unpacked := by
  unfold Fraction.ofBits
  rw [← toNat_unpackExponent, ← toNat_unpackMantissa, ← toNat_one_append] at *
  unfold UnpackedFloat.unpack
  dsimp only
  rw [ofBitVec_unpackSign]
  have hfull : @unpackExponent .binary64 b ≠ -1#11 := by
    intro heq
    rw [heq] at h
    exact h (by decide)
  rw [if_neg hfull]
  by_cases hexp : @unpackExponent .binary64 b = 0#11
  · have hexp' : (@unpackExponent .binary64 b).toNat = 0 := by rw [hexp]; rfl
    rw [if_pos hexp, if_pos hexp']
    by_cases hman : @unpackMantissa .binary64 b = 0#52
    · have hman' : (@unpackMantissa .binary64 b).toNat = 0 := by rw [hman]; rfl
      rw [dif_pos hman, Fraction.unpacked_of_zero hman']
    · have hman' : (@unpackMantissa .binary64 b).toNat ≠ 0 := by
        intro heq
        exact hman (BitVec.eq_of_toNat_eq heq)
      rw [dif_neg hman, Fraction.unpacked_of_pos (Nat.pos_of_ne_zero hman'), hexp']
      rfl
  · have hexp' : (@unpackExponent .binary64 b).toNat ≠ 0 := by
      intro heq
      exact hexp (BitVec.eq_of_toNat_eq heq)
    rw [if_neg hexp, if_neg hexp', Fraction.unpacked_of_pos]
    rfl

theorem unpack_of_shape {x : Float} {f : Fraction} (h : shape x = .finite f) :
    x.toModel.unpack = f.unpacked := by
  obtain ⟨hfull, rfl⟩ := shape_finite h
  exact unpack_eq x.toBits.toBitVec hfull

/-! ## Putting together -/

/-- The double that stands for a fraction. -/
def Fraction.double (f : Fraction) : Float := .ofModel (.pack f.unpacked)

theorem toNat_packComponents (s : Sign) (e : BitVec 11) (m : BitVec 52) :
    (packComponents .binary64 s e m).toNat =
      s.toBitVec.toNat * 2 ^ 63 + e.toNat * 2 ^ 52 + m.toNat := by
  have hhigh := BitVec.toNat_append s.toBitVec e
  have hall := BitVec.toNat_append (s.toBitVec ++ e) m
  rw [← Nat.shiftLeft_add_eq_or_of_lt e.isLt, Nat.shiftLeft_eq] at hhigh
  rw [← Nat.shiftLeft_add_eq_or_of_lt m.isLt, Nat.shiftLeft_eq, hhigh] at hall
  refine hall.trans ?_
  omega

theorem toNat_signOf (negative : Bool) : (signOf negative).toBitVec.toNat = negative.toNat := by
  cases negative <;> rfl

theorem toNat_pack {f : Fraction} (h : Canonical f.significand f.exponent) :
    (UnpackedFloat.pack .binary64 f.unpacked).toNat = f.bits := by
  obtain ⟨hlt, hleast, hmost, hleading⟩ := h
  unfold Fraction.bits
  by_cases hzero : f.significand = 0
  · rw [Fraction.unpacked_of_zero hzero]
    refine (toNat_packComponents _ _ _).trans ?_
    simp [toNat_signOf, hzero]
  have hpos : 0 < f.significand := Nat.pos_of_ne_zero hzero
  have hbiased : f.exponent + (Format.binary64.exponentBias : Int) +
      (Format.binary64.mantissaBitsWithoutImplicit : Int) = f.exponent + 1075 := by
    show f.exponent + 1023 + 52 = f.exponent + 1075
    omega
  have hbits : Format.binary64.mantissaBits = 53 := rfl
  have hfits : ¬ 2 ^ Format.binary64.exponentBits ≤ (f.exponent + 1075).toNat + 1 := by
    show ¬ 2 ^ 11 ≤ (f.exponent + 1075).toNat + 1
    omega
  rw [Fraction.unpacked_of_pos hpos]
  unfold UnpackedFloat.pack
  simp only [hbiased, hfits, if_false, hbits]
  by_cases hm : 2 ^ 52 ≤ f.significand
  · have hlog : f.significand.log2 + 1 = 53 := by
      have hge := (Nat.le_log2 hzero).mpr hm
      have hlt := (Nat.log2_lt hzero).mpr hlt
      omega
    rw [if_pos hlog, if_pos hm]
    refine (toNat_packComponents _ _ _).trans ?_
    rw [toNat_signOf, BitVec.toNat_ofNat, BitVec.toNat_ofNat]
    omega
  · have hlog : f.significand.log2 + 1 ≠ 53 := by
      have hlt := (Nat.log2_lt hzero).mpr (Nat.lt_of_not_le hm)
      omega
    rw [if_neg hlog, if_neg hm]
    refine (toNat_packComponents _ _ _).trans ?_
    rw [toNat_signOf, BitVec.toNat_ofNat, BitVec.toNat_ofNat]
    omega

theorem ext_bits {x y : Float} (h : x.toBits.toNat = y.toBits.toNat) : x = y := by
  obtain ⟨⟨xbits, _⟩⟩ := x
  obtain ⟨⟨ybits, _⟩⟩ := y
  obtain rfl : xbits = ybits := UInt64.toNat_inj.mp h
  rfl

theorem double_of_shape {x : Float} {f : Fraction} (h : shape x = .finite f) : f.double = x := by
  have hcanonical := canonical_of_shape h
  obtain ⟨hfull, rfl⟩ := shape_finite h
  exact ext_bits ((toNat_pack hcanonical).trans (Fraction.bits_ofBits x.toBits.toNat_lt))

theorem unpack_double {f : Fraction} (h : Canonical f.significand f.exponent) :
    f.double.toModel.unpack = f.unpacked := by
  have hfull : (UnpackedFloat.pack .binary64 f.unpacked).toNat / 2 ^ 52 % 2 ^ 11 ≠ 2047 := by
    rw [toNat_pack h, Fraction.exponentField_bits h]
    obtain ⟨hlt, hleast, hmost, hleading⟩ := h
    split <;> omega
  show UnpackedFloat.unpack .binary64 (UnpackedFloat.pack .binary64 f.unpacked) = _
  rw [unpack_eq _ hfull, toNat_pack h, Fraction.ofBits_bits h]

theorem Fraction.neg_unpacked (f : Fraction) :
    f.unpacked.neg = { f with negative := !f.negative }.unpacked := by
  obtain ⟨negative, m, e⟩ := f
  by_cases hm : m = 0
  · rw [unpacked_of_zero hm, unpacked_of_zero hm]
    cases negative <;> rfl
  · have hpos : 0 < m := Nat.pos_of_ne_zero hm
    rw [unpacked_of_pos hpos, unpacked_of_pos hpos]
    cases negative <;> rfl

theorem neg_double {f : Fraction} (h : Canonical f.significand f.exponent) :
    -f.double = { f with negative := !f.negative }.double := by
  show Float.ofModel (.pack f.double.toModel.unpack.neg) = _
  rw [unpack_double h, f.neg_unpacked]
  rfl

end EntityScript.Number
