import Mathlib.Tactic.Ring
import ModuleLoader.SourceMap.Vlq

/-! # Numbers read back

The letters of a number are read as that number, wherever they stand in a row, as long as its double
is a word.
-/

namespace ModuleLoader.Vlq

theorem value?_letter {n : ℕ} (h : n < 64) : value? (letter n) = some n := by
  have hall : ∀ m < 64, value? (letter m) = some m := by decide
  exact hall n h

theorem word_eq {n : ℤ} (hl : -(2 ^ 63) ≤ n) (hu : n < 2 ^ 63) : word n = n := by
  have hc : (wordCount : ℤ) = 2 ^ 64 := rfl
  exact Int.bmod_eq_of_le (by omega) (by omega)

theorem word_natCast {n : ℕ} (h : n < 2 ^ 63) : word n = n := word_eq (by omega) (by omega)

/-- Numbers are written in letters of the alphabet. -/
theorem exists_letter_of_mem_digits {n : ℕ} {c : Char} (h : c ∈ digits n) :
    ∃ m < 64, c = letter m := by
  fun_induction digits n with
  | case1 n hn => exact ⟨n, by omega, List.mem_singleton.1 h⟩
  | case2 n hn ih =>
    rcases List.mem_cons.1 h with rfl | h
    · exact ⟨n % 32 + 32, by omega, rfl⟩
    · exact ih h

theorem notMem_encode {c : Char} (h : value? c = none) (v : ℤ) : c ∉ encode v := by
  intro hc
  obtain ⟨m, hm, rfl⟩ := exists_letter_of_mem_digits hc
  rw [value?_letter hm] at h
  cases h

theorem digits_ne_nil (n : ℕ) : digits n ≠ [] := by
  rw [digits]
  split <;> simp

theorem encode_ne_nil (v : ℤ) : encode v ≠ [] := digits_ne_nil _

theorem word_add_digit {value m shift : ℕ} (hm : value + m * 2 ^ shift < 2 ^ 63)
    (hs : shift < 63) :
    word (value + word (m * Nat.pow 2 (shift % 64) : ℕ)) = (value + m * 2 ^ shift : ℕ) := by
  rw [Nat.mod_eq_of_lt (show shift < 64 by omega), Nat.pow_eq, word_natCast (by omega),
    ← Nat.cast_add, word_natCast hm]

/-- The digits of a number are added to what has been read, from their place on. -/
theorem decode?_digits {n shift value : ℕ} (hn : value + n * 2 ^ shift < 2 ^ 63) (hs : shift < 63)
    (rest : List Char) :
    decode? value shift (digits n ++ rest) =
      (decode? 0 0 rest).map (signed (value + n * 2 ^ shift : ℕ) :: ·) := by
  fun_induction digits n generalizing value shift with
  | case1 n hlt =>
    rw [List.singleton_append, decode?, value?_letter (by omega), Option.bind_some,
      if_neg (by omega), Nat.mod_eq_of_lt hlt, word_add_digit hn hs]
  | case2 n hge ih =>
    have hsplit : n % 32 * 2 ^ shift + n / 32 * 2 ^ (shift + 5) = n * 2 ^ shift := by
      conv_rhs => rw [← Nat.mod_add_div n 32]
      ring
    have hlow : value + n % 32 * 2 ^ shift < 2 ^ 63 := by omega
    have hnext : value + n % 32 * 2 ^ shift + n / 32 * 2 ^ (shift + 5) < 2 ^ 63 := by omega
    have hpow : 2 ^ (shift + 5) < 2 ^ 63 := by
      have hle := Nat.le_mul_of_pos_left (2 ^ (shift + 5)) (show 0 < n / 32 by omega)
      omega
    rw [List.cons_append, decode?, value?_letter (by omega), Option.bind_some, if_pos (by omega),
      Nat.add_mod_right, Nat.mod_mod, word_add_digit hlow hs,
      ih hnext ((Nat.pow_lt_pow_iff_right (by omega)).1 hpow), Nat.add_assoc, hsplit]

theorem signed_double (v : ℕ) : signed (2 * v : ℕ) = v := by
  rw [signed, if_neg (by omega)]
  omega

theorem signed_double_add_one {v : ℕ} (h : v < 2 ^ 62) : signed (2 * v + 1 : ℕ) = -v := by
  rw [signed, if_pos (by omega), word_eq (by omega) (by omega)]
  omega

/-- The letters of a number are read as that number. -/
theorem decode?_encode {v : ℤ} (h : v.natAbs < 2 ^ 62) (rest : List Char) :
    decode? 0 0 (encode v ++ rest) = (decode? 0 0 rest).map (v :: ·) := by
  have hdouble : 2 * v.natAbs % wordCount = 2 * v.natAbs :=
    Nat.mod_eq_of_lt (show _ < 2 ^ 64 by omega)
  have hread {n : ℕ} (hn : n < 2 ^ 63) :
      decode? 0 0 (digits n ++ rest) = (decode? 0 0 rest).map (signed n :: ·) := by
    have hd : decode? (0 : ℕ) 0 (digits n ++ rest) = _ :=
      decode?_digits (by omega) (by omega) rest
    simpa using hd
  unfold encode
  simp only [hdouble]
  split
  · rw [hread (by omega), signed_double_add_one h]
    have hneg : -(v.natAbs : ℤ) = v := by omega
    rw [hneg]
  · rw [hread (by omega), signed_double]
    have hpos : (v.natAbs : ℤ) = v := by omega
    rw [hpos]

end ModuleLoader.Vlq
