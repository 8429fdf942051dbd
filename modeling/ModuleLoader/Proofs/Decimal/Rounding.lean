import ModuleLoader.Proofs.Decimal.Doubles

/-! # Rounding to doubles

What a fraction or a decimal rounds to depends on its value alone, and a value that some double has
rounds to that double. So the shortest decimal of a double reads back as the double.
-/

namespace ModuleLoader

namespace Binary64

/-! ## Fractions -/

theorem log_eq {b : ℕ} (hb : 1 < b) {r : ℚ} (hr : 0 < r) {t : ℤ} (h1 : (b : ℚ) ^ t ≤ r)
    (h2 : r < (b : ℚ) ^ (t + 1)) : Int.log b r = t := by
  have h3 := (Int.zpow_le_iff_le_log hb hr).1 h1
  have h4 := (Int.lt_zpow_iff_log_lt hb hr).1 h2
  omega

theorem scale_pos (num : ℕ) {den : ℕ} (hd : 0 < den) (e : ℤ) : 0 < (scale num den e).2 := by
  rw [scale]
  split
  · exact hd
  · exact Nat.mul_pos hd (Nat.pow_pos (by decide))

theorem scale_div (num : ℕ) {den : ℕ} (e : ℤ) :
    ((scale num den e).1 : ℚ) / (scale num den e).2 = (num : ℚ) / den * 2 ^ e := by
  rw [scale]
  split
  · rename_i he
    obtain ⟨n, rfl⟩ := Int.eq_ofNat_of_zero_le he
    simp only [Int.toNat_natCast, Nat.pow_eq, Nat.cast_mul, Nat.cast_pow, Nat.cast_ofNat,
      zpow_natCast]
    ring
  · rename_i he
    obtain ⟨n, rfl⟩ := Int.exists_eq_neg_ofNat (not_le.1 he).le
    simp only [neg_neg, Int.toNat_natCast, Nat.pow_eq, Nat.cast_mul, Nat.cast_pow, Nat.cast_ofNat,
      zpow_neg, zpow_natCast]
    rw [← div_eq_mul_inv, div_div]

/-- Scaling by the inverse of a power of two compares with that power. -/
theorem scale_le_iff (num : ℕ) {den : ℕ} (hd : 0 < den) (e : ℤ) :
    (scale num den (-e)).2 ≤ (scale num den (-e)).1 ↔ (2 : ℚ) ^ e ≤ (num : ℚ) / den := by
  have hpos : (0 : ℚ) < (scale num den (-e)).2 := by exact_mod_cast scale_pos num hd (-e)
  rw [← one_le_div₀ (show (0 : ℚ) < 2 ^ e by positivity), div_eq_mul_inv, ← zpow_neg, ← scale_div,
    one_le_div₀ hpos, Nat.cast_le]

/-- The lengths of numerator and denominator tell the exponent of a fraction up to one. -/
theorem log2_bounds {num den : ℕ} (hn : 0 < num) (hd : 0 < den) :
    (2 : ℚ) ^ ((num.log2 : ℤ) - den.log2 - 1) ≤ (num : ℚ) / den ∧
      (num : ℚ) / den < 2 ^ ((num.log2 : ℤ) - den.log2 + 1) := by
  have hdq : (0 : ℚ) < den := by exact_mod_cast hd
  have hn1 : (2 : ℚ) ^ num.log2 ≤ num := by exact_mod_cast Nat.log2_self_le hn.ne'
  have hn2 : (num : ℚ) < 2 ^ (num.log2 + 1) := by exact_mod_cast Nat.lt_log2_self
  have hd1 : (2 : ℚ) ^ den.log2 ≤ den := by exact_mod_cast Nat.log2_self_le hd.ne'
  have hd2 : (den : ℚ) < 2 ^ (den.log2 + 1) := by exact_mod_cast Nat.lt_log2_self
  generalize he : (num.log2 : ℤ) - den.log2 = e
  constructor
  · rw [le_div_iff₀ hdq]
    calc (2 : ℚ) ^ (e - 1) * den ≤ 2 ^ (e - 1) * 2 ^ (den.log2 + 1) := by gcongr
      _ = 2 ^ num.log2 := by
        rw [← zpow_natCast, ← zpow_add₀ two_ne_zero, ← zpow_natCast]
        congr 1
        push_cast
        omega
      _ ≤ num := hn1
  · rw [div_lt_iff₀ hdq]
    calc (num : ℚ) < 2 ^ (num.log2 + 1) := hn2
      _ = 2 ^ (e + 1) * 2 ^ den.log2 := by
        rw [← zpow_natCast, ← zpow_natCast, ← zpow_add₀ two_ne_zero]
        congr 1
        push_cast
        omega
      _ ≤ 2 ^ (e + 1) * den := by gcongr

theorem binaryExponent_eq {num den : ℕ} (hn : 0 < num) (hd : 0 < den) :
    binaryExponent num den = Int.log 2 ((num : ℚ) / den) := by
  have hnq : (0 : ℚ) < num := by exact_mod_cast hn
  have hdq : (0 : ℚ) < den := by exact_mod_cast hd
  obtain ⟨hlow, hhigh⟩ := log2_bounds hn hd
  simp only [binaryExponent, scale_le_iff num hd]
  split
  · rename_i h
    exact (log_eq (by decide) (div_pos hnq hdq) (by exact_mod_cast h)
      (by exact_mod_cast hhigh)).symm
  · rename_i h
    refine (log_eq (by decide) (div_pos hnq hdq) (by exact_mod_cast hlow) ?_).symm
    rw [sub_add_cancel]
    exact_mod_cast not_le.1 h

theorem roundDiv_mul (num den : ℕ) {k : ℕ} (hk : 0 < k) :
    roundDiv (num * k) (den * k) = roundDiv num den := by
  rw [roundDiv, roundDiv, Nat.mul_div_mul_right _ _ hk, Nat.mul_mod_mul_right, ← Nat.mul_assoc]
  simp only [Nat.mul_lt_mul_right hk, Nat.mul_left_inj (Nat.pos_iff_ne_zero.1 hk)]

theorem roundDiv_congr {num den num' den' : ℕ} (hd : 0 < den) (hd' : 0 < den')
    (h : (num : ℚ) / den = (num' : ℚ) / den') : roundDiv num den = roundDiv num' den' := by
  rw [div_eq_div_iff (by exact_mod_cast hd.ne') (by exact_mod_cast hd'.ne')] at h
  have hnat : num * den' = num' * den := by exact_mod_cast h
  rw [← roundDiv_mul num den hd', ← roundDiv_mul num' den' hd, hnat, Nat.mul_comm den]

theorem ofRatio_congr {num den num' den' : ℕ} (hd : 0 < den) (hd' : 0 < den')
    (h : (num : ℚ) / den = (num' : ℚ) / den') : ofRatio num den = ofRatio num' den' := by
  have hzero : num = 0 ↔ num' = 0 := by
    have h0 : (num : ℚ) / den = 0 ↔ num = 0 := by simp [hd.ne']
    have h0' : (num' : ℚ) / den' = 0 ↔ num' = 0 := by simp [hd'.ne']
    rw [← h0, ← h0', h]
  rw [ofRatio, ofRatio]
  by_cases hn : num = 0
  · rw [if_pos hn, if_pos (hzero.1 hn)]
  · have hn' := mt hzero.2 hn
    rw [if_neg hn, if_neg hn', binaryExponent_eq (Nat.pos_of_ne_zero hn) hd,
      binaryExponent_eq (Nat.pos_of_ne_zero hn') hd', h]
    generalize max (Int.log 2 ((num' : ℚ) / den') - 52) (-1074) = q
    have hround : roundDiv (scale num den (-q)).1 (scale num den (-q)).2 =
        roundDiv (scale num' den' (-q)).1 (scale num' den' (-q)).2 := by
      apply roundDiv_congr (scale_pos num hd (-q)) (scale_pos num' hd' (-q))
      rw [scale_div, scale_div, h]
    simp only [hround]

/-- What the magnitude in some bits without a sign is made of. -/
theorem magnitude_finite {bits m : ℕ} {q : ℤ} (hb : bits < 2 ^ 63)
    (hm : magnitude bits = .finite m q) :
    -1074 ≤ q ∧ q < 972 ∧ m < 2 ^ 53 ∧ (q = -1074 ∨ 2 ^ 52 ≤ m) ∧
      bits = (q + 1074).toNat * 2 ^ 52 + m := by
  rw [magnitude] at hm
  simp only [Nat.pow_eq] at hm
  split at hm
  · split at hm <;> simp at hm
  · split at hm
    all_goals
      simp only [Magnitude.finite.injEq] at hm
      omega

theorem binary_log {m : ℕ} {q : ℤ} (h1 : 2 ^ 52 ≤ m) (h2 : m < 2 ^ 53) :
    Int.log 2 ((m : ℚ) * 2 ^ q) = q + 52 := by
  have hpos : (0 : ℚ) < 2 ^ q := by positivity
  have h1q : ((2 : ℚ) ^ (52 : ℤ)) ≤ m := by exact_mod_cast h1
  have h2q : (m : ℚ) < (2 : ℚ) ^ (53 : ℤ) := by exact_mod_cast h2
  have hm : (0 : ℚ) < m := lt_of_lt_of_le (by norm_num) h1q
  apply log_eq (by decide) (by positivity)
  · push_cast
    rw [zpow_add₀ two_ne_zero, mul_comm]
    gcongr
  · push_cast
    rw [add_assoc, zpow_add₀ two_ne_zero, mul_comm]
    gcongr
    exact h2q

theorem binary_log_lt {m : ℕ} (h0 : 0 < m) (h : m < 2 ^ 52) :
    Int.log 2 ((m : ℚ) * 2 ^ (-1074 : ℤ)) < -1022 := by
  have hq : (m : ℚ) < (2 : ℚ) ^ (52 : ℤ) := by exact_mod_cast h
  have hm : (0 : ℚ) < m := by exact_mod_cast h0
  rw [← Int.lt_zpow_iff_log_lt (by decide) (by positivity)]
  calc (m : ℚ) * 2 ^ (-1074 : ℤ) < 2 ^ (52 : ℤ) * 2 ^ (-1074 : ℤ) := by gcongr
    _ = ((2 : ℕ) : ℚ) ^ (-1022 : ℤ) := by
      rw [← zpow_add₀ two_ne_zero]
      norm_num

/-- A number that a double can be is rounded to itself. -/
theorem ofRatio_magnitude {bits m : ℕ} {q : ℤ} (hb : bits < 2 ^ 63)
    (hm : magnitude bits = .finite m q) {num den : ℕ} (hd : 0 < den)
    (h : (num : ℚ) / den = m * 2 ^ q) : ofRatio num den = bits := by
  obtain ⟨hq, hq', hlt, hcase, hbits⟩ := magnitude_finite hb hm
  by_cases h0 : m = 0
  · have hn : num = 0 := by simpa [h0, hd.ne'] using h
    rw [ofRatio, if_pos hn]
    omega
  · have hpos : 0 < m := Nat.pos_of_ne_zero h0
    have hn : num ≠ 0 := by
      rintro rfl
      simp [h0, zpow_ne_zero] at h
    have hexp : max (binaryExponent num den - 52) (-1074) = q := by
      rw [binaryExponent_eq (Nat.pos_of_ne_zero hn) hd, h]
      by_cases hnormal : 2 ^ 52 ≤ m
      · rw [binary_log hnormal hlt]
        omega
      · have hmin : q = -1074 := hcase.resolve_right hnormal
        subst hmin
        have hlog := binary_log_lt hpos (not_le.1 hnormal)
        omega
    rw [ofRatio, if_neg hn, hexp]
    have hround : roundDiv (scale num den (-q)).1 (scale num den (-q)).2 = m := by
      have hdiv : ((scale num den (-q)).1 : ℚ) / (scale num den (-q)).2 = m / (1 : ℕ) := by
        rw [scale_div, h, mul_assoc, ← zpow_add₀ two_ne_zero, add_neg_cancel, zpow_zero, mul_one,
          Nat.cast_one, div_one]
      rw [roundDiv_congr (scale_pos num hd (-q)) Nat.one_pos hdiv]
      simp [roundDiv, Nat.mod_one]
    simp only [hround, infinity, Nat.pow_eq]
    omega

theorem ofRatio_le_infinity (num den : ℕ) : ofRatio num den ≤ infinity := by
  rw [ofRatio]
  split
  · exact Nat.zero_le _
  · exact Nat.min_le_right _ _

end Binary64

namespace Decimal

/-! ## Decimals -/

/-- The number that a decimal denotes. -/
def value (d : Decimal) : ℚ := d.digits * 10 ^ d.exponent

theorem ratio_pos (d : Decimal) : 0 < d.ratio.2 := by
  rw [ratio]
  split
  · exact Nat.one_pos
  · exact Nat.pow_pos (by decide)

theorem ratio_div (d : Decimal) : (d.ratio.1 : ℚ) / d.ratio.2 = d.value := by
  rw [ratio, value]
  split
  · rename_i he
    obtain ⟨n, hn⟩ := Int.eq_ofNat_of_zero_le he
    rw [hn]
    simp
  · rename_i he
    obtain ⟨n, hn⟩ := Int.exists_eq_neg_ofNat (not_le.1 he).le
    rw [hn]
    simp [zpow_neg, div_eq_mul_inv]

theorem value_eq_zero_iff (d : Decimal) : d.value = 0 ↔ d.digits = 0 := by
  simp [value, zpow_ne_zero]

theorem value_pos {d : Decimal} (h : d.digits ≠ 0) : 0 < d.value :=
  mul_pos (by exact_mod_cast Nat.pos_of_ne_zero h) (by positivity)

/-- The place behind the first digit is told by the value. -/
theorem top_eq {d : Decimal} (h : d.digits ≠ 0) :
    d.exponent + (digitChars d.digits).length = Int.log 10 d.value + 1 := by
  have hlen : 0 < (digitChars d.digits).length := Nat.length_toDigits_pos
  obtain ⟨n, hn⟩ : ∃ n, (digitChars d.digits).length = n + 1 := ⟨_, (Nat.succ_pred hlen.ne').symm⟩
  have hhigh : d.digits < 10 ^ (n + 1) :=
    (Nat.length_toDigits_le_iff (by decide) (Nat.succ_pos n)).1 hn.le
  have hlow : 10 ^ n ≤ d.digits := by
    rcases Nat.eq_zero_or_pos n with rfl | hpos
    · exact Nat.pos_of_ne_zero h
    · refine not_lt.1 fun hlt => ?_
      have hle := (Nat.length_toDigits_le_iff (by decide) hpos).2 hlt
      rw [digitChars] at hn
      omega
  have hlowq : (10 : ℚ) ^ n ≤ d.digits := by exact_mod_cast hlow
  have hhighq : (d.digits : ℚ) < 10 ^ (n + 1) := by exact_mod_cast hhigh
  have hlog : Int.log 10 d.value = d.exponent + n := by
    apply Binary64.log_eq (by decide) (value_pos h)
    · push_cast
      rw [value, zpow_add₀ (by norm_num), mul_comm, zpow_natCast]
      gcongr
    · push_cast
      rw [value, add_assoc, zpow_add₀ (by norm_num), mul_comm, ← Nat.cast_succ, zpow_natCast]
      gcongr
  rw [hlog, hn]
  push_cast
  ring

end Decimal

namespace Binary64

open Decimal

theorem ofDecimal_eq_ofRatio {d : Decimal} (h : d.digits ≠ 0)
    (hlow : -401 ≤ Int.log 10 d.value) (hhigh : Int.log 10 d.value ≤ 399) :
    ofDecimal d = ofRatio d.ratio.1 d.ratio.2 := by
  have htop := top_eq h
  rw [ofDecimal, if_neg (by omega), if_neg (by omega), ratio]
  split <;> rfl

theorem ofDecimal_congr {d d' : Decimal} (h : d.value = d'.value) : ofDecimal d = ofDecimal d' := by
  have hzero : d.digits = 0 ↔ d'.digits = 0 := by
    rw [← value_eq_zero_iff, h, value_eq_zero_iff]
  by_cases h0 : d.digits = 0
  · rw [ofDecimal, ofDecimal, if_pos (.inl h0), if_pos (.inl (hzero.1 h0))]
  · have h0' := mt hzero.2 h0
    have htop := top_eq h0
    have htop' := top_eq h0'
    rw [← h] at htop'
    by_cases hlow : Int.log 10 d.value < -401
    · rw [ofDecimal, ofDecimal, if_pos (.inr (by omega)), if_pos (.inr (by omega))]
    · by_cases hhigh : 399 < Int.log 10 d.value
      · rw [ofDecimal, ofDecimal, if_neg (by omega), if_pos (by omega), if_neg (by omega),
          if_pos (by omega)]
      · rw [ofDecimal_eq_ofRatio h0 (by omega) (by omega),
          ofDecimal_eq_ofRatio h0' (by rw [← h]; omega) (by rw [← h]; omega)]
        apply ofRatio_congr (ratio_pos d) (ratio_pos d')
        rw [ratio_div, ratio_div, h]

theorem ofDecimal_le_infinity (d : Decimal) : ofDecimal d ≤ infinity := by
  rw [ofDecimal]
  split
  · exact Nat.zero_le _
  · split
    · exact le_rfl
    · split <;> exact ofRatio_le_infinity _ _

/-- No double above zero is beyond the decimals that are worked out. -/
theorem log_magnitude {m : ℕ} {q : ℤ} (hm0 : 0 < m) (hm : m < 2 ^ 53) (hq : -1074 ≤ q)
    (hq' : q < 972) : -401 ≤ Int.log 10 ((m : ℚ) * 2 ^ q) ∧ Int.log 10 ((m : ℚ) * 2 ^ q) ≤ 399 := by
  have hm1 : (1 : ℚ) ≤ m := by exact_mod_cast hm0
  have hm2 : (m : ℚ) < 2 ^ (53 : ℤ) := by exact_mod_cast hm
  have hpos : (0 : ℚ) < m * 2 ^ q := mul_pos (by exact_mod_cast hm0) (by positivity)
  have hsmall : 2 ^ 1074 ≤ 10 ^ 401 := by decide +kernel
  have hlarge : 2 ^ (53 + 972) < 10 ^ 400 := by decide +kernel
  have hlow : (10 : ℚ) ^ (-401 : ℤ) ≤ m * 2 ^ q := by
    calc (10 : ℚ) ^ (-401 : ℤ) ≤ 2 ^ (-1074 : ℤ) := by
          rw [zpow_neg, zpow_neg]
          exact inv_anti₀ (by positivity) (by exact_mod_cast hsmall)
      _ ≤ 2 ^ q := zpow_le_zpow_right₀ one_le_two hq
      _ ≤ m * 2 ^ q := le_mul_of_one_le_left (by positivity) hm1
  have hhigh : (m : ℚ) * 2 ^ q < (10 : ℚ) ^ (400 : ℤ) := by
    calc (m : ℚ) * 2 ^ q ≤ 2 ^ (53 : ℤ) * 2 ^ (972 : ℤ) := by
          gcongr
          exact one_le_two
      _ < 10 ^ (400 : ℤ) := by
          rw [← zpow_add₀ two_ne_zero]
          exact_mod_cast hlarge
  have h1 := (Int.zpow_le_iff_le_log (b := 10) (by decide) hpos).1 hlow
  have h2 := (Int.lt_zpow_iff_log_lt (b := 10) (by decide) hpos).1 hhigh
  omega

/-- A decimal with the value of a double is read as that double. -/
theorem ofDecimal_magnitude {bits m : ℕ} {q : ℤ} (hb : bits < 2 ^ 63)
    (hm : magnitude bits = .finite m q) {d : Decimal} (h : d.value = m * 2 ^ q) :
    ofDecimal d = bits := by
  obtain ⟨hq, hq', hlt, hcase, hbits⟩ := magnitude_finite hb hm
  by_cases h0 : d.digits = 0
  · have hm0 : m = 0 := by
      rw [← value_eq_zero_iff, h] at h0
      simpa [zpow_ne_zero] using h0
    rw [ofDecimal, if_pos (.inl h0)]
    omega
  · have hm0 : m ≠ 0 := by
      rintro rfl
      simpa [h] using value_pos h0
    obtain ⟨hlow, hhigh⟩ := log_magnitude (Nat.pos_of_ne_zero hm0) hlt hq hq'
    rw [← h] at hlow hhigh
    rw [ofDecimal_eq_ofRatio h0 hlow hhigh]
    exact ofRatio_magnitude hb hm (ratio_pos d) ((ratio_div d).trans h)

end Binary64

namespace Decimal

/-! ## The shortest decimal of a double -/

theorem value_strip (fuel : ℕ) (d : Decimal) : (strip fuel d).value = d.value := by
  induction fuel generalizing d with
  | zero => rfl
  | succ fuel ih =>
    rw [strip]
    split
    · rename_i h
      rw [ih]
      have hdiv : d.digits = 10 * (d.digits / 10) := by omega
      have hdivq : (d.digits : ℚ) = 10 * (d.digits / 10 : ℕ) := by exact_mod_cast hdiv
      simp only [value]
      rw [hdivq, zpow_add_one₀ (by norm_num)]
      ring
    · rfl

theorem value_normal (d : Decimal) : d.normal.value = d.value := value_strip _ d

theorem value_exact (m : ℕ) (q : ℤ) : (exact m q).value = m * 2 ^ q := by
  rw [exact]
  split
  · rename_i hq
    obtain ⟨n, rfl⟩ := Int.eq_ofNat_of_zero_le hq
    simp [value]
  · rename_i hq
    obtain ⟨n, rfl⟩ := Int.exists_eq_neg_ofNat (not_le.1 hq).le
    simp only [value, neg_neg, Int.toNat_natCast, Nat.pow_eq, Nat.cast_mul, Nat.cast_pow,
      Nat.cast_ofNat, zpow_neg, zpow_natCast]
    rw [show (10 : ℚ) = 5 * 2 by norm_num, mul_pow, mul_inv]
    field_simp

theorem ofDecimal_of_choose? {bits num den : ℕ} {pair : Decimal × Decimal} {d : Decimal}
    (h : choose? bits num den pair = some d) : Binary64.ofDecimal d = bits := by
  rw [choose?] at h
  split at h
  · rename_i h1 h2
    rw [Option.some.injEq] at h
    split at h
    · exact h ▸ beq_iff_eq.1 h1
    · exact h ▸ beq_iff_eq.1 h2
  · rename_i h1 _
    rw [Option.some.injEq] at h
    exact h ▸ beq_iff_eq.1 h1
  · rename_i h2
    rw [Option.some.injEq] at h
    exact h ▸ beq_iff_eq.1 h2
  · cases h

/-- The shortest decimal of a double reads back as the double. -/
theorem ofDecimal_shortest {bits m : ℕ} {q : ℤ} (hb : bits < 2 ^ 63)
    (hm : Binary64.magnitude bits = .finite m q) :
    Binary64.ofDecimal (shortest bits m q) = bits := by
  rw [shortest, Binary64.ofDecimal_congr (value_normal _)]
  generalize hfound : List.findSome? _ _ = found
  cases found with
  | none => exact Binary64.ofDecimal_magnitude hb hm (value_exact m q)
  | some d =>
    obtain ⟨i, -, hi⟩ := List.exists_of_findSome?_eq_some hfound
    exact ofDecimal_of_choose? hi

end Decimal

end ModuleLoader
