import CommandConsole.Number.BinaryFormat
import Mathlib
/-!
# Patterns — a float made of bits has the number of the bits

A float keeps the bits that it is made of unless they stand for no number, and then it is no number
(`Float.magnitude_exact_ofBits`, `Float32.magnitude_exact_ofBits`).
-/
namespace CommandConsole

open Float.Model Float.Model.UnpackedFloat

/-- The format with the fields of a machine float. -/
def BinaryFormat.ofSpec (spec : Format) : BinaryFormat := ⟨spec.mantissaBitsWithoutImplicit, spec.exponentBits⟩

variable {spec : Format}

/-- The bits below the sign tell whether a pattern stands for a number. -/
theorem isNaNBits_iff (b : BitVec spec.numBits) : isNaNBits b = true ↔
    (BinaryFormat.ofSpec spec).infinityBits < b.toNat % (BinaryFormat.ofSpec spec).signBit := by
  have hexponent : (unpackExponent b).toNat =
      b.toNat / 2 ^ spec.mantissaBitsWithoutImplicit % 2 ^ spec.exponentBits := by
    rw [unpackExponent_def, BitVec.extractLsb'_toNat, Nat.shiftRight_eq_div_pow]
  have hmantissa : (unpackMantissa b).toNat = b.toNat % 2 ^ spec.mantissaBitsWithoutImplicit := by
    rw [unpackMantissa_def, BitVec.extractLsb'_toNat, Nat.shiftRight_zero]
  have hisNaN : isNaNBits b = true ↔
      (unpackExponent b).toNat = 2 ^ spec.exponentBits - 1 ∧ (unpackMantissa b).toNat ≠ 0 := by
    rw [isNaNBits, decide_eq_true_iff, ← BitVec.toNat_inj, ne_eq, ← BitVec.toNat_inj, BitVec.neg_one_eq_allOnes,
      BitVec.toNat_allOnes, BitVec.toNat_zero]
  have hinfinity : (BinaryFormat.ofSpec spec).infinityBits =
      (2 ^ spec.exponentBits - 1) * 2 ^ spec.mantissaBitsWithoutImplicit := rfl
  have hsign : (BinaryFormat.ofSpec spec).signBit = 2 ^ spec.mantissaBitsWithoutImplicit * 2 ^ spec.exponentBits :=
    Nat.pow_add ..
  have hexponentLt := (unpackExponent b).isLt
  have hmantissaLt := (unpackMantissa b).isLt
  rw [hisNaN, hinfinity, hsign, Nat.mod_mul, ← hexponent, ← hmantissa]
  generalize (unpackExponent b).toNat = x at hexponentLt ⊢
  generalize (unpackMantissa b).toNat = y at hmantissaLt ⊢
  generalize 2 ^ spec.mantissaBitsWithoutImplicit = M at hmantissaLt ⊢
  obtain hx | hx := Nat.lt_or_ge x (2 ^ spec.exponentBits - 1)
  · have hbelow : M * x + M ≤ (2 ^ spec.exponentBits - 1) * M := by
      rw [← Nat.mul_succ, Nat.mul_comm]
      exact Nat.mul_le_mul_right M hx
    omega
  · obtain rfl : x = 2 ^ spec.exponentBits - 1 := by omega
    rw [Nat.mul_comm]
    omega

/-- **Bits that are made into a float keep their magnitude.** -/
theorem magnitude_pack_unpack (hspec : 2 ≤ spec.exponentBits) (b : BitVec spec.numBits) :
    (BinaryFormat.ofSpec spec).magnitude ((pack spec (unpack spec b)).toNat % (BinaryFormat.ofSpec spec).signBit) =
      (BinaryFormat.ofSpec spec).magnitude (b.toNat % (BinaryFormat.ofSpec spec).signBit) := by
  rw [pack_unpack b hspec]
  split
  · rename_i hnan
    rw [BinaryFormat.magnitude, BinaryFormat.magnitude, if_pos ((isNaNBits_iff _).1 isNaNBits_packedNaN),
      if_pos ((isNaNBits_iff b).1 hnan)]
  · rfl

theorem Float.magnitude_exact_ofBits (b : UInt64) : (Float.exact (Float.ofBits b)).magnitude =
    BinaryFormat.binary64.magnitude (b.toNat % BinaryFormat.binary64.signBit) :=
  @magnitude_pack_unpack Format.binary64 (by decide) b.toBitVec

theorem Float32.magnitude_exact_ofBits (b : UInt32) : (Float32.exact (Float32.ofBits b)).magnitude =
    BinaryFormat.binary32.magnitude (b.toNat % BinaryFormat.binary32.signBit) :=
  @magnitude_pack_unpack Format.binary32 (by decide) b.toBitVec

end CommandConsole
