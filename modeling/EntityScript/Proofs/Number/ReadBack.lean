import EntityScript.Proofs.Number.Shortest

/-! # Numbers read back

The text of a finite number is a numeral behind a minus if the number is negative, and the
numeral is read as the number without its sign (`read?_magnitudeText`). A decimal is written
in one of three ways, as a whole number, with a point among its digits, or with zeros behind
the point; each is read as a decimal of the same value (`Decimal.text_writtenAs`). -/

namespace EntityScript.Number

/-! ## Numerals -/

/-- Digits, with more digits behind a point if there is one. -/
inductive Numeral : List Char → Prop
  | whole {ds : List Char} : ds ≠ [] → (∀ c ∈ ds, c.isDigit) → Numeral ds
  | point {ds ps : List Char} : ds ≠ [] → (∀ c ∈ ds, c.isDigit) → ps ≠ [] →
    (∀ c ∈ ps, c.isDigit) → Numeral (ds ++ '.' :: ps)

theorem Numeral.start {cs : List Char} (h : Numeral cs) :
    ∃ c rest, cs = c :: rest ∧ c.isDigit = true := by
  cases h with
  | whole hne hdigits =>
    obtain ⟨c, rest, rfl⟩ := List.exists_cons_of_ne_nil hne
    exact ⟨c, rest, rfl, hdigits c List.mem_cons_self⟩
  | point hne hdigits _ _ =>
    obtain ⟨c, rest, rfl⟩ := List.exists_cons_of_ne_nil hne
    exact ⟨c, _, rfl, hdigits c List.mem_cons_self⟩

theorem takeWhile_digits {ds : List Char} (hds : ∀ c ∈ ds, c.isDigit) (rest : List Char)
    (hrest : ∀ c, rest.head? = some c → c.isDigit = false) :
    (ds ++ rest).takeWhile Char.isDigit = ds ∧ (ds ++ rest).dropWhile Char.isDigit = rest := by
  rw [List.takeWhile_append_of_pos hds, List.dropWhile_append_of_pos hds]
  cases rest with
  | nil => simp
  | cons c rest => simp [hrest c rfl]

theorem digitsValue_eq (acc : ℕ) (ds : List Char) :
    digitsValue acc ds = Nat.ofDigitChars 10 ds acc :=
  Nat.ofDigitChars_eq_foldl.symm

theorem readDecimal?_whole {ds : List Char} (hne : ds ≠ []) (hds : ∀ c ∈ ds, c.isDigit) :
    readDecimal? ds = some ⟨Nat.ofDigitChars 10 ds 0, 0⟩ := by
  obtain ⟨htake, hdrop⟩ := takeWhile_digits hds [] (by simp)
  rw [List.append_nil] at htake hdrop
  have hempty : ds.isEmpty = false := by simpa using hne
  unfold readDecimal?
  simp [htake, hdrop, hempty, readExponent?, digitsValue_eq]

theorem readDecimal?_point {ds ps : List Char} (hne : ds ≠ []) (hds : ∀ c ∈ ds, c.isDigit)
    (hps : ∀ c ∈ ps, c.isDigit) :
    readDecimal? (ds ++ '.' :: ps) = some ⟨Nat.ofDigitChars 10 (ds ++ ps) 0, -ps.length⟩ := by
  obtain ⟨htake, hdrop⟩ := takeWhile_digits hds ('.' :: ps) (by simp)
  obtain ⟨htake', hdrop'⟩ := takeWhile_digits hps [] (by simp)
  rw [List.append_nil] at htake' hdrop'
  have hempty : ds.isEmpty = false := by simpa using hne
  unfold readDecimal?
  simp [htake, hdrop, htake', hdrop', hempty, readExponent?, digitsValue_eq,
    Nat.ofDigitChars_append]

theorem toLower_of_isDigit {c : Char} (h : c.isDigit = true) : c.toLower = c := by
  simp only [Char.isDigit, Bool.and_eq_true, decide_eq_true_eq] at h
  have hle : c.val.toNat ≤ 57 := UInt32.le_iff_toNat_le.mp h.2
  refine dif_neg ?_
  rintro ⟨hge, _⟩
  have hge' : 65 ≤ c.val.toNat := UInt32.le_iff_toNat_le.mp hge
  omega

theorem readMagnitude?_numeral {cs : List Char} (h : Numeral cs) :
    readMagnitude? cs = (readDecimal? cs).map ofDecimal := by
  obtain ⟨c, rest, rfl, hc⟩ := h.start
  have hnot : ∀ {w : String} {d : Char} {ds : List Char}, w.toList = d :: ds → d.isDigit = false →
      String.ofList ((c :: rest).map Char.toLower) ≠ w := by
    rintro w d ds hw hd rfl
    rw [String.toList_ofList, List.map_cons, toLower_of_isDigit hc] at hw
    cases hw
    rw [hc] at hd
    cases hd
  unfold readMagnitude?
  split
  · rename_i heq
    exact absurd heq (hnot rfl rfl)
  · rename_i heq
    exact absurd heq (hnot rfl rfl)
  · rename_i heq
    exact absurd heq (hnot rfl rfl)
  · rfl

theorem read?_numeral {cs : List Char} (h : Numeral cs) :
    read? (String.ofList cs) = (readDecimal? cs).map ofDecimal := by
  rw [← readMagnitude?_numeral h]
  obtain ⟨c, rest, rfl, hc⟩ := h.start
  unfold read?
  rw [String.toList_ofList]
  split
  · rename_i heq
    cases heq
    cases hc
  · rename_i heq
    cases heq
    cases hc
  · rfl

/-! ## What a decimal is written as -/

namespace Decimal

/-- The characters are a numeral that reads as a decimal of the same value. -/
def WrittenAs (d : Decimal) (cs : List Char) : Prop :=
  Numeral cs ∧ ∃ d', readDecimal? cs = some d' ∧ d'.value = d.value

theorem writtenAs_whole {d : Decimal} {ds : List Char} (hne : ds ≠ []) (hds : ∀ c ∈ ds, c.isDigit)
    (hvalue : (Nat.ofDigitChars 10 ds 0 : ℚ) = d.value) : d.WrittenAs ds := by
  refine ⟨.whole hne hds, _, readDecimal?_whole hne hds, ?_⟩
  simpa [value] using hvalue

theorem writtenAs_point {d : Decimal} {ds ps : List Char} (hne : ds ≠ [])
    (hds : ∀ c ∈ ds, c.isDigit) (hne' : ps ≠ []) (hps : ∀ c ∈ ps, c.isDigit)
    (hvalue : Nat.ofDigitChars 10 (ds ++ ps) 0 = d.digits)
    (hlength : -(ps.length : ℤ) = d.exponent) : d.WrittenAs (ds ++ '.' :: ps) := by
  refine ⟨.point hne hds hne' hps, _, readDecimal?_point hne hds hps, ?_⟩
  rw [hvalue, hlength]

theorem text_writtenAs (d : Decimal) : d.WrittenAs d.text.toList := by
  have hne : Nat.toDigits 10 d.digits ≠ [] := Nat.toDigits_ne_nil
  have hds : ∀ c ∈ Nat.toDigits 10 d.digits, c.isDigit :=
    fun c hc => Nat.isDigit_of_mem_toDigits (by norm_num) (by norm_num) hc
  have hzeros : ∀ k, ∀ c ∈ List.replicate k '0', c.isDigit := by
    intro k c hc
    rw [List.eq_of_mem_replicate hc]
    rfl
  have hvalue : Nat.ofDigitChars 10 (Nat.toDigits 10 d.digits) 0 = d.digits :=
    Nat.ofDigitChars_ten_toDigits
  unfold text
  dsimp only
  generalize Nat.toDigits 10 d.digits = ds at hne hds hvalue
  have hpos := List.length_pos_iff.mpr hne
  split
  · rename_i hexp
    rw [String.toList_ofList]
    refine writtenAs_whole (by simp [hne]) (List.forall_mem_append.mpr ⟨hds, hzeros _⟩) ?_
    have hpower : (10 : ℚ) ^ d.exponent = 10 ^ d.exponent.toNat := by
      rw [← zpow_natCast, Int.toNat_of_nonneg hexp]
    rw [Nat.ofDigitChars_append, hvalue, Nat.ofDigitChars_replicate_zero, value, hpower]
    push_cast
    ring
  · split
    · rename_i hexp hlt
      rw [String.toList_ofList]
      refine writtenAs_point ?_ (fun c hc => hds c (List.mem_of_mem_take hc)) ?_
        (fun c hc => hds c (List.mem_of_mem_drop hc)) ?_ ?_
      · rw [ne_eq, ← List.length_eq_zero_iff, List.length_take]
        omega
      · rw [ne_eq, ← List.length_eq_zero_iff, List.length_drop]
        omega
      · rw [List.take_append_drop, hvalue]
      · rw [List.length_drop]
        omega
    · rename_i hexp hle
      rw [String.toList_ofList]
      show d.WrittenAs
        (['0'] ++ '.' :: (List.replicate ((-d.exponent).toNat - ds.length) '0' ++ ds))
      refine writtenAs_point (by simp) (hzeros 1) (by simp [hne])
        (List.forall_mem_append.mpr ⟨hzeros _, hds⟩) ?_ ?_
      · have hzero : Nat.ofDigitChars 10 ['0'] 0 = 0 := rfl
        rw [Nat.ofDigitChars_append, hzero, Nat.ofDigitChars_append,
          Nat.ofDigitChars_replicate_zero, Nat.mul_zero, hvalue]
      · rw [List.length_append, List.length_replicate]
        omega

end Decimal

/-! ## Reading back -/

theorem zero_double : ofDecimal ⟨0, 0⟩ = Fraction.double ⟨false, 0, -1074⟩ :=
  ext_bits (by decide +kernel)

/-- **The text of a finite number without its sign is a numeral that reads as the number
without its sign.** -/
theorem read?_magnitudeText {x : Float} {f : Fraction} (h : shape x = .finite f) :
    Numeral (magnitudeText f).toList ∧
      read? (magnitudeText f) = some { f with negative := false }.double := by
  have hc := canonical_of_shape h
  unfold magnitudeText
  split
  · rename_i hzero
    have hnumeral : Numeral "0".toList := .whole (by decide) (by simp)
    have hread : readDecimal? "0".toList = some ⟨0, 0⟩ := rfl
    have hexp : f.exponent = -1074 := by
      rcases hc.leading with hexp | hle
      · exact hexp
      · rw [hzero] at hle
        cases hle
    refine ⟨hnumeral, ?_⟩
    rw [hzero, hexp, ← String.ofList_toList (s := "0"), read?_numeral hnumeral, hread]
    exact congrArg some zero_double
  · rename_i hne
    obtain ⟨hnumeral, d, hread, hvalue⟩ := (shortest f.significand f.exponent).text_writtenAs
    have hpos := Nat.pos_of_ne_zero hne
    have hrounds := shortest_roundsTo hc hpos
    rw [← hvalue] at hrounds
    refine ⟨hnumeral, ?_⟩
    rw [← String.ofList_toList (s := Decimal.text _), read?_numeral hnumeral, hread]
    exact congrArg some (ofDecimal_eq hrounds hc hpos)

/-- The number with the sign that its text has. -/
theorem signed_double {x : Float} {f : Fraction} (h : shape x = .finite f) :
    (if f.negative then -{ f with negative := false }.double
      else { f with negative := false }.double) = x := by
  have hc := canonical_of_shape h
  rw [← double_of_shape h]
  obtain ⟨negative, significand, exponent⟩ := f
  cases negative with
  | false => rfl
  | true => exact neg_double hc

end EntityScript.Number
