import Mathlib
import ModuleLoader.Decimal.Shortest

/-! # The bits of doubles

A double is its bits, of which the library keeps one pattern for all that are no number. Its own
view of them, a sign and a magnitude, is the one that the decimals of this project are worked out
from, so comparisons with zero can be read off the bits.
-/

namespace ModuleLoader.Binary64

open Float.Model Float.Model.UnpackedFloat

theorem toBits_ofBits {n : UInt64} (h : Format.binary64.Valid n.toBitVec) :
    (Float.ofBits n).toBits = n := by
  simp only [Float.ofBits, Float.toBits, Float.Model.ofBits, Float.Model.pack,
    pack_unpack_of_valid h]

theorem toNat_one_append (m : BitVec 52) : (1#1 ++ m).toNat = 2 ^ 52 + m.toNat := by
  have h := Nat.two_pow_add_eq_or_of_lt m.isLt 1
  rw [BitVec.toNat_append, Nat.shiftLeft_eq]
  exact h.symm.trans (by rw [Nat.mul_one])

/-! ## Sign and magnitude -/

theorem toNat_unpackExponent (b : BitVec 64) :
    (@unpackExponent Format.binary64 b).toNat = b.toNat / Nat.pow 2 52 % 2048 := by
  simp [unpackExponent, Nat.shiftRight_eq_div_pow]

theorem toNat_unpackMantissa (b : BitVec 64) :
    (@unpackMantissa Format.binary64 b).toNat = b.toNat % Nat.pow 2 52 := by
  simp [unpackMantissa]

theorem toNat_unpackSign (b : BitVec 64) :
    (@unpackSign Format.binary64 b).toNat = b.toNat / Nat.pow 2 63 % 2 := by
  simp [unpackSign, Nat.shiftRight_eq_div_pow]

/-- The sign of the bits of a double. -/
def sign (bits : Nat) : Sign := if isNegative bits then .negative else .positive

theorem ofBitVec_unpackSign (b : BitVec 64) :
    Sign.ofBitVec (@unpackSign Format.binary64 b) = sign b.toNat := by
  have h := toNat_unpackSign b
  rw [sign, isNegative, ← h]
  rcases BitVec.eq_zero_or_eq_one (@unpackSign Format.binary64 b) with h | h <;> rw [h] <;> rfl

/-- A magnitude and a sign as the library's own view of a double. -/
def Magnitude.signed (s : Sign) : Magnitude → UnpackedFloat
  | .nan => .notANumber
  | .infinite => .infinity s
  | .finite m q => if h : 0 < m then .finite s m q h else .zero s

theorem unpack_eq (b : BitVec 64) : UnpackedFloat.unpack Format.binary64 b =
    (magnitude b.toNat).signed (sign b.toNat) := by
  have he := toNat_unpackExponent b
  have hm := toNat_unpackMantissa b
  have hfull : @unpackExponent Format.binary64 b = -1#11 ↔
      b.toNat / Nat.pow 2 52 % 2048 = 2047 := by rw [← he, ← BitVec.toNat_inj]; rfl
  have hzero : @unpackExponent Format.binary64 b = 0#11 ↔
      b.toNat / Nat.pow 2 52 % 2048 = 0 := by rw [← he, ← BitVec.toNat_inj]; rfl
  have hman : @unpackMantissa Format.binary64 b = 0#52 ↔
      b.toNat % Nat.pow 2 52 = 0 := by rw [← hm, ← BitVec.toNat_inj]; rfl
  rw [UnpackedFloat.unpack, magnitude, ofBitVec_unpackSign]
  split
  · rename_i h
    rw [if_pos (hfull.1 h)]
    split
    · rename_i h'
      rw [if_pos (hman.1 h')]
      rfl
    · rename_i h'
      rw [if_neg (mt hman.2 h')]
      rfl
  · rename_i h
    rw [if_neg (mt hfull.2 h)]
    split
    · rename_i h'
      rw [if_pos (hzero.1 h')]
      split
      · rename_i h''
        rw [Magnitude.signed, dif_neg (by simp [hman.1 h''])]
      · rename_i h''
        rw [Magnitude.signed, dif_pos (Nat.pos_of_ne_zero (mt hman.2 h''))]
        simp only [he, hm, hzero.1 h']
        rfl
    · rename_i h'
      rw [if_neg (mt hzero.2 h')]
      rw [Magnitude.signed, dif_pos (Nat.add_pos_right _ (by decide))]
      simp only [toNat_one_append, he, hm]
      congr 1
      exact Nat.add_comm _ _

/-! ## Bits without a sign -/

theorem magnitude_le_infinity {bits : Nat} (h : bits ≤ infinity) : magnitude bits ≠ .nan := by
  simp only [infinity, Nat.pow_eq] at h
  simp only [magnitude, Nat.pow_eq]
  split
  · rw [if_pos (by omega)]
    simp
  · split <;> simp

theorem isNegative_le_infinity {bits : Nat} (h : bits ≤ infinity) : isNegative bits = false := by
  simp only [infinity, Nat.pow_eq] at h
  simp only [isNegative, Nat.pow_eq, decide_eq_false_iff_not]
  omega

theorem valid_of_magnitude {b : BitVec 64} (h : magnitude b.toNat ≠ .nan) :
    Format.binary64.Valid b := by
  constructor
  intro he hm
  refine absurd ?_ h
  have hu := unpack_eq b
  rw [UnpackedFloat.unpack, if_pos he, if_neg hm] at hu
  cases hmag : magnitude b.toNat with
  | nan => rfl
  | infinite => simp [hmag, Magnitude.signed] at hu
  | finite m q =>
    rw [hmag, Magnitude.signed] at hu
    split at hu <;> simp at hu

/-- The double with given bits that have no sign has these bits. -/
theorem toNat_toBits_ofBits {bits : Nat} (h : bits ≤ infinity) :
    (Float.ofBits (UInt64.ofNat bits)).toBits.toNat = bits := by
  have hlt : bits < 2 ^ 64 := Nat.lt_of_le_of_lt h (by decide)
  have hnat : (UInt64.ofNat bits).toNat = bits := UInt64.toNat_ofNat_of_lt' hlt
  rw [toBits_ofBits, hnat]
  refine valid_of_magnitude ?_
  rw [UInt64.toNat_toBitVec, hnat]
  exact magnitude_le_infinity h

theorem ofBits_toNat_toBits (x : Float) : Float.ofBits (UInt64.ofNat x.toBits.toNat) = x := by
  rw [UInt64.ofNat_toNat, Float.ofBits_toBits]

/-! ## Comparisons with zero -/

theorem unpack_toModel (x : Float) :
    x.toModel.unpack = (magnitude x.toBits.toNat).signed (sign x.toBits.toNat) :=
  unpack_eq _

theorem isFinite_iff (x : Float) :
    x.isFinite = true ↔ ∃ m q, magnitude x.toBits.toNat = .finite m q := by
  rw [Float.isFinite, Float.Model.isFinite, unpack_toModel]
  cases magnitude x.toBits.toNat with
  | nan => simp [Magnitude.signed, UnpackedFloat.isFinite]
  | infinite => simp [Magnitude.signed, UnpackedFloat.isFinite]
  | finite m q =>
    rw [Magnitude.signed]
    split <;> simp [UnpackedFloat.isFinite]

theorem unpack_zero : (0.0 : Float).toModel.unpack = .zero .positive := rfl

theorem beq_zero_iff (x : Float) :
    (x == 0.0) = true ↔ ∃ q, magnitude x.toBits.toNat = .finite 0 q := by
  show (x.toModel.unpack.beq (0.0 : Float).toModel.unpack) = true ↔ _
  rw [unpack_zero, unpack_toModel]
  cases magnitude x.toBits.toNat with
  | nan => simp [Magnitude.signed, UnpackedFloat.beq, UnpackedFloat.compare]
  | infinite =>
    rw [Magnitude.signed]
    cases sign x.toBits.toNat <;> simp [UnpackedFloat.beq, UnpackedFloat.compare]
  | finite m q =>
    rw [Magnitude.signed]
    split
    · cases sign x.toBits.toNat <;> simp [UnpackedFloat.beq, UnpackedFloat.compare] <;> omega
    · simp [UnpackedFloat.beq, UnpackedFloat.compare]; omega

theorem zero_le_iff (x : Float) : 0.0 ≤ x ↔
    (x == 0.0) = true ∨ isNegative x.toBits.toNat = false ∧ magnitude x.toBits.toNat ≠ .nan := by
  have hle : 0.0 ≤ x ↔ UnpackedFloat.le (0.0 : Float).toModel.unpack x.toModel.unpack = true :=
    decide_eq_true_iff
  rw [beq_zero_iff, hle, unpack_zero, unpack_toModel, sign]
  cases magnitude x.toBits.toNat with
  | nan => simp [Magnitude.signed, UnpackedFloat.le, UnpackedFloat.compare]
  | infinite =>
    cases isNegative x.toBits.toNat <;>
      simp [Magnitude.signed, UnpackedFloat.le, UnpackedFloat.compare, Ordering.isLE]
  | finite m q =>
    rw [Magnitude.signed]
    split
    · cases isNegative x.toBits.toNat with
      | false => simp [UnpackedFloat.le, UnpackedFloat.compare, Ordering.isLE]
      | true =>
        simp [UnpackedFloat.le, UnpackedFloat.compare, Ordering.isLE]
        omega
    · simp [UnpackedFloat.le, UnpackedFloat.compare, Ordering.isLE]; omega

theorem not_lt_zero {x : Float} (h : 0.0 ≤ x) : ¬ x < 0.0 := by
  have hlt : x < 0.0 ↔ UnpackedFloat.lt x.toModel.unpack (0.0 : Float).toModel.unpack = true :=
    decide_eq_true_iff
  rw [zero_le_iff, beq_zero_iff] at h
  rw [hlt, unpack_zero, unpack_toModel, sign]
  rcases h with ⟨q, h⟩ | ⟨hn, h⟩
  · simp [h, Magnitude.signed, UnpackedFloat.lt, UnpackedFloat.compare]
  · rw [hn]
    cases magnitude x.toBits.toNat with
    | nan => simp [Magnitude.signed, UnpackedFloat.lt, UnpackedFloat.compare]
    | infinite => simp [Magnitude.signed, UnpackedFloat.lt, UnpackedFloat.compare]
    | finite m q =>
      rw [Magnitude.signed]
      split <;> simp [UnpackedFloat.lt, UnpackedFloat.compare]

theorem zero_le_ofBits {bits : Nat} (h : bits ≤ infinity) :
    0.0 ≤ Float.ofBits (UInt64.ofNat bits) := by
  rw [zero_le_iff, toNat_toBits_ofBits h]
  exact .inr ⟨isNegative_le_infinity h, magnitude_le_infinity h⟩

end ModuleLoader.Binary64
