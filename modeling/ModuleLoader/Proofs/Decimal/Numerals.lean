import ModuleLoader.Proofs.Decimal.Rounding
import ModuleLoader.Proofs.Text.Segments

/-! # Numerals

The text of a number is digits, with at most one point that has digits on both sides. Reading it
gives the number back. An infinite number has no such text.
-/

namespace ModuleLoader

/-- Digits, with at most one point that stands between digits. -/
inductive IsNumeral : List Char → Prop where
  | whole {ds : List Char} (digits : ∀ c ∈ ds, c.isDigit) (nonempty : ds ≠ []) : IsNumeral ds
  | pointed {ds es : List Char} (before : ∀ c ∈ ds, c.isDigit) (nonempty : ds ≠ [])
      (after : ∀ c ∈ es, c.isDigit) (places : es ≠ []) : IsNumeral (ds ++ '.' :: es)

namespace Decimal

theorem isDigit_of_mem_digitChars {n : ℕ} {c : Char} (h : c ∈ digitChars n) : c.isDigit :=
  Nat.isDigit_of_mem_toDigits (by decide) (by decide) h

theorem ofDigits_digitChars (n : ℕ) : ofDigits (digitChars n) = n :=
  Nat.ofDigitChars_ten_toDigits

theorem ofDigits_append_zeros (cs : List Char) (k : ℕ) :
    ofDigits (cs ++ List.replicate k '0') = 10 ^ k * ofDigits cs := by
  show Nat.ofDigitChars 10 _ 0 = 10 ^ k * Nat.ofDigitChars 10 cs 0
  rw [Nat.ofDigitChars_append, Nat.ofDigitChars_replicate_zero]

theorem ofDigits_zeros_append (k : ℕ) (cs : List Char) :
    ofDigits (List.replicate k '0' ++ cs) = ofDigits cs := by
  show Nat.ofDigitChars 10 _ 0 = Nat.ofDigitChars 10 cs 0
  rw [Nat.ofDigitChars_append, Nat.ofDigitChars_replicate_zero, Nat.mul_zero]

theorem read?_whole {ds : List Char} (hd : ∀ c ∈ ds, c.isDigit) (hne : ds ≠ []) :
    read? ds = some ⟨ofDigits ds, 0⟩ := by
  have ht := List.takeWhile_eq_self_iff.2 hd
  have hr := List.dropWhile_eq_nil_iff.2 hd
  rw [read?, ht, hr]
  simp [hne, readExponent?]

theorem read?_pointed {ds es : List Char} (hd : ∀ c ∈ ds, c.isDigit) (hne : ds ≠ [])
    (he : ∀ c ∈ es, c.isDigit) :
    read? (ds ++ '.' :: es) = some ⟨ofDigits (ds ++ es), -es.length⟩ := by
  have ht : (ds ++ '.' :: es).takeWhile Char.isDigit = ds := takeWhile_append_stop hd (by simp)
  have hr : (ds ++ '.' :: es).dropWhile Char.isDigit = '.' :: es :=
    dropWhile_append_stop hd (by simp)
  have ht' := List.takeWhile_eq_self_iff.2 he
  have hr' := List.dropWhile_eq_nil_iff.2 he
  rw [read?, ht, hr]
  simp only [ht', hr']
  simp [hne, readExponent?]

/-- The digits before and behind the point, where the exponent is negative. -/
theorem exists_places {d : Decimal} (h : d.exponent < 0) : ∃ ds es, d.positional = ds ++ '.' :: es ∧
    (∀ c ∈ ds, c.isDigit) ∧ ds ≠ [] ∧ (∀ c ∈ es, c.isDigit) ∧ es ≠ [] ∧
    ofDigits (ds ++ es) = d.digits ∧ -(es.length : ℤ) = d.exponent := by
  obtain ⟨places, hplaces⟩ := Int.exists_eq_neg_ofNat h.le
  have hpos : 0 < places := by omega
  have hmem : ∀ c ∈ digitChars d.digits, c.isDigit := fun c => isDigit_of_mem_digitChars
  simp only [positional, if_neg (not_le.2 h)]
  simp only [hplaces, neg_neg, Int.toNat_natCast]
  split
  · rename_i hlen
    refine ⟨['0'],
      List.replicate (places - (digitChars d.digits).length) '0' ++ digitChars d.digits,
      rfl, by simp, by simp, ?_, ?_, ?_, ?_⟩
    · intro c hc
      rcases List.mem_append.1 hc with hz | hc
      · rw [List.eq_of_mem_replicate hz]
        rfl
      · exact hmem c hc
    · have hne : digitChars d.digits ≠ [] := Nat.toDigits_ne_nil
      simp [hne]
    · rw [← List.append_assoc]
      exact (ofDigits_zeros_append (_ + 1) _).trans (ofDigits_digitChars _)
    · rw [List.length_append, List.length_replicate]
      omega
  · rename_i hlen
    refine ⟨_, _, rfl, fun c hc => hmem c (List.mem_of_mem_take hc), ?_,
      fun c hc => hmem c (List.mem_of_mem_drop hc), ?_, ?_, ?_⟩
    · rw [← List.length_pos_iff, List.length_take]
      omega
    · rw [← List.length_pos_iff, List.length_drop]
      omega
    · rw [List.take_append_drop, ofDigits_digitChars]
    · rw [List.length_drop]
      omega

/-- The digits alone, where the exponent is not negative. -/
theorem positional_digits {d : Decimal} (h : 0 ≤ d.exponent) : (∀ c ∈ d.positional, c.isDigit) ∧
    d.positional ≠ [] ∧ ofDigits d.positional = d.digits * 10 ^ d.exponent.toNat := by
  have hmem : ∀ c ∈ digitChars d.digits, c.isDigit := fun c => isDigit_of_mem_digitChars
  have hne : digitChars d.digits ≠ [] := Nat.toDigits_ne_nil
  simp only [positional, if_pos h]
  split
  · rename_i h0
    refine ⟨hmem, hne, ?_⟩
    rw [ofDigits_digitChars, h0, Nat.zero_mul]
  · refine ⟨fun c hc => ?_, by simp [hne], ?_⟩
    · rcases List.mem_append.1 hc with hc | hz
      · exact hmem c hc
      · rw [List.eq_of_mem_replicate hz]
        rfl
    · rw [ofDigits_append_zeros, ofDigits_digitChars, Nat.mul_comm]

theorem isNumeral_positional (d : Decimal) : IsNumeral d.positional := by
  rcases le_or_gt 0 d.exponent with h | h
  · obtain ⟨hd, hne, -⟩ := positional_digits h
    exact .whole hd hne
  · obtain ⟨ds, es, ht, hd, hne, he, hne', -⟩ := exists_places h
    rw [ht]
    exact .pointed hd hne he hne'

theorem read?_positional (d : Decimal) : ∃ e, read? d.positional = some e ∧ e.value = d.value := by
  rcases le_or_gt 0 d.exponent with h | h
  · obtain ⟨hd, hne, hv⟩ := positional_digits h
    refine ⟨_, read?_whole hd hne, ?_⟩
    obtain ⟨n, hn⟩ := Int.eq_ofNat_of_zero_le h
    simp [value, hv, hn]
  · obtain ⟨ds, es, ht, hd, hne, he, -, hv, hl⟩ := exists_places h
    rw [ht]
    refine ⟨_, read?_pointed hd hne he, ?_⟩
    simp only [value, hv, hl]

end Decimal

namespace Number

open Binary64

theorem zero_le_ofNumeral (cs : List Char) : 0.0 ≤ ofNumeral cs := by
  rw [ofNumeral]
  split
  · exact zero_le_ofBits (ofDecimal_le_infinity _)
  · exact (zero_le_iff _).2 (.inl (by decide))

/-- A zero that is read has no sign. -/
theorem ofNumeral_zero {cs : List Char} (h : (ofNumeral cs == 0.0) = true) :
    ofNumeral cs = 0.0 := by
  rw [ofNumeral] at h ⊢
  split
  · rename_i d hd
    rw [hd] at h
    have hle := ofDecimal_le_infinity d
    obtain ⟨q, hq⟩ := (beq_zero_iff _).1 h
    rw [toNat_toBits_ofBits hle] at hq
    have hlt : ofDecimal d < 2 ^ 63 := lt_of_le_of_lt hle (by decide)
    have hbits : ofDecimal d = 0 := by
      have := magnitude_finite hlt hq
      omega
    rw [hbits]
    decide
  · rfl

theorem bits_of_positive {x : Float} (h : 0.0 ≤ x) (hx : ¬ (x == 0.0) = true) :
    isNegative x.toBits.toNat = false ∧ x.toBits.toNat < 2 ^ 63 := by
  have hn := (((zero_le_iff x).1 h).resolve_left hx).1
  have hlt := x.toBits.toNat_lt
  refine ⟨hn, ?_⟩
  simp only [isNegative, Nat.pow_eq, decide_eq_false_iff_not] at hn
  omega

/-- A finite number above zero is written as its shortest decimal. -/
theorem display_finite {x : Float} (h : 0.0 ≤ x) (hx : ¬ (x == 0.0) = true) {m : ℕ} {q : ℤ}
    (hm : magnitude x.toBits.toNat = .finite m q) :
    (display x).toList = (Decimal.shortest x.toBits.toNat m q).positional := by
  have ⟨hn, hlt⟩ := bits_of_positive h hx
  have h0 : m ≠ 0 := by
    rintro rfl
    exact hx ((beq_zero_iff x).2 ⟨q, hm⟩)
  rw [display, if_neg hx, text]
  rw [Nat.pow_eq, Nat.mod_eq_of_lt hlt]
  simp [hm, hn, h0]

theorem display_zero {x : Float} (hx : (x == 0.0) = true) : display x = "0" := if_pos hx

/-- An infinite number is written as a word. -/
theorem display_infinite {x : Float} (h : 0.0 ≤ x) (hf : ¬ x.isFinite = true) :
    display x = "inf" := by
  have hx : ¬ (x == 0.0) = true := by
    intro hx
    obtain ⟨q, hq⟩ := (beq_zero_iff x).1 hx
    exact hf ((isFinite_iff x).2 ⟨_, _, hq⟩)
  obtain ⟨hn, hnan⟩ := ((zero_le_iff x).1 h).resolve_left hx
  rw [display, if_neg hx, text]
  cases hm : magnitude x.toBits.toNat with
  | nan => exact absurd hm hnan
  | infinite => simp [hn]
  | finite m q => exact absurd ((isFinite_iff x).2 ⟨_, _, hm⟩) hf

theorem isNumeral_display {x : Float} (h : 0.0 ≤ x) (hf : x.isFinite = true) :
    IsNumeral (display x).toList := by
  by_cases hx : (x == 0.0) = true
  · rw [display_zero hx]
    exact .whole (List.all_eq_true.1 (by decide)) (by decide)
  · obtain ⟨m, q, hm⟩ := (isFinite_iff x).1 hf
    rw [display_finite h hx hm]
    exact Decimal.isNumeral_positional _

/-- The text of a finite number reads back as the number, without the sign of a zero. -/
theorem ofNumeral_display {x : Float} (h : 0.0 ≤ x) (hf : x.isFinite = true) :
    ofNumeral (display x).toList = if x == 0.0 then 0.0 else x := by
  by_cases hx : (x == 0.0) = true
  · rw [display_zero hx, if_pos hx]
    decide
  · obtain ⟨m, q, hm⟩ := (isFinite_iff x).1 hf
    obtain ⟨e, he, hv⟩ := Decimal.read?_positional (Decimal.shortest x.toBits.toNat m q)
    have hbits := Decimal.ofDecimal_shortest (bits_of_positive h hx).2 hm
    rw [display_finite h hx hm, if_neg hx, ofNumeral, he]
    simp only
    rw [ofDecimal_congr hv, hbits, ofBits_toNat_toBits]

end Number

end ModuleLoader
