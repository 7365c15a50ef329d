import CommandConsole.Number.Numeral
import Mathlib.Algebra.Order.Field.Power
import Mathlib.Data.Rat.Cast.Order
import Mathlib.Tactic.FieldSimp
import Mathlib.Tactic.Linarith
import Mathlib.Tactic.Positivity
import Mathlib.Tactic.Qify
import Mathlib.Tactic.Ring
import Mathlib.Tactic.SplitIfs
/-!
# Rounding — which numbers are rounded beyond a given one

A number is rounded beyond a given number of a format if it lies past the half of the last place after it, and at the half if
the given one is odd: so it is for a ratio (`BinaryFormat.Normal.lt_round_iff`) and for a decimal
(`BinaryFormat.Normal.lt_roundDecimal_iff`).  Finite patterns stand in the order of their numbers
(`BinaryFormat.Normal.lt_magnitude_iff`).
-/
namespace CommandConsole

/-! ## Powers and ratios -/

theorem cast_pow2 (n : Nat) : (pow2 n : ℚ) = 2 ^ n := Nat.cast_pow 2 n

theorem cast_pow10 (n : Nat) : (pow10 n : ℚ) = 10 ^ n := Nat.cast_pow 10 n

/-- A power is the quotient of two with natural exponents, one of which is zero. -/
theorem pow_toNat {b : ℚ} (hb : b ≠ 0) (e : Int) : b ^ e.toNat = b ^ e * b ^ (-e).toNat := by
  rcases e.eq_nat_or_neg with ⟨k, rfl | rfl⟩
  · simp
  · simp [hb]

/-- A number lies between the powers of ten that its digits count. -/
theorem places_spec {digits : Nat} (h : 0 < digits) (q : Int) :
    (10 : ℚ) ^ (((Nat.toDigits 10 digits).length : Int) + q - 1) ≤ digits * 10 ^ q ∧
      (digits * 10 ^ q : ℚ) < 10 ^ (((Nat.toDigits 10 digits).length : Int) + q) := by
  have hlength : 0 < (Nat.toDigits 10 digits).length := Nat.length_toDigits_pos
  have hmost : digits < 10 ^ (Nat.toDigits 10 digits).length :=
    (Nat.length_toDigits_le_iff (by decide) hlength).1 le_rfl
  have hleast : 10 ^ ((Nat.toDigits 10 digits).length - 1) ≤ digits := by
    obtain hmany | hone := Nat.lt_or_ge 1 (Nat.toDigits 10 digits).length
    · refine not_lt.1 fun hlt => ?_
      have := (Nat.length_toDigits_le_iff (by decide) (by omega)).2 hlt
      omega
    · rw [Nat.sub_eq_zero_of_le hone]
      exact h
  have hpos : (0 : ℚ) < 10 ^ q := zpow_pos (by norm_num) q
  constructor
  · have hexponent : ((Nat.toDigits 10 digits).length : Int) + q - 1 = ((Nat.toDigits 10 digits).length - 1 : Nat) + q := by
      omega
    rw [hexponent, zpow_add₀ (by norm_num), zpow_natCast]
    exact mul_le_mul_of_nonneg_right (by exact_mod_cast hleast) hpos.le
  · rw [zpow_add₀ (by norm_num), zpow_natCast]
    exact mul_lt_mul_of_pos_right (by exact_mod_cast hmost) hpos

theorem two_mul_zpow_le {k e : Int} (h : k < e) : 2 * (2 : ℚ) ^ k ≤ 2 ^ e := by
  have hstep : (2 : ℚ) ^ (k + 1) ≤ 2 ^ e := zpow_le_zpow_right₀ one_le_two (Int.add_one_le_of_lt h)
  rwa [zpow_add_one₀ two_ne_zero, mul_comm] at hstep

/-- Two numbers are compared on the lesser of their scales. -/
theorem scaled_lt_iff (a b : Nat) (k e : Int) :
    a * pow2 (k - e).toNat < b * pow2 (e - k).toNat ↔ (a * 2 ^ k : ℚ) < b * 2 ^ e := by
  have hpos (e : Int) : (0 : ℚ) < 2 ^ e := zpow_pos two_pos e
  have hscale : (2 : ℚ) ^ (k - e).toNat = 2 ^ k / 2 ^ e * 2 ^ (e - k).toNat := by
    rw [← zpow_sub₀ two_ne_zero, pow_toNat two_ne_zero, neg_sub]
  have hcast : a * pow2 (k - e).toNat < b * pow2 (e - k).toNat ↔
      (a * (2 ^ k / 2 ^ e * 2 ^ (e - k).toNat) : ℚ) < b * 2 ^ (e - k).toNat := by
    rw [← hscale, ← cast_pow2, ← cast_pow2]
    exact_mod_cast Iff.rfl
  rw [hcast, ← mul_assoc, mul_lt_mul_iff_of_pos_right (pow_pos two_pos _), ← mul_div_assoc, div_lt_iff₀ (hpos e)]

/-- What lies before a half is neither past it nor at it. -/
theorem not_past_half {half x : ℚ} {p : Prop} (h : x < half) : ¬ (half < x ∨ (half = x ∧ p)) :=
  not_or.2 ⟨h.not_gt, fun hat => h.ne' hat.1⟩

variable {n d m : Nat}

theorem scaleDown_pos (hd : 0 < d) (n : Nat) (e : Int) : 0 < (scaleDown n d e).2 := Nat.mul_pos hd (pow2_pos _)

theorem scaleDown_ratio (hd : 0 < d) (n : Nat) (e : Int) :
    ((scaleDown n d e).1 / (scaleDown n d e).2 : ℚ) = n / d / 2 ^ e := by
  have hd : (d : ℚ) ≠ 0 := by positivity
  have he : (2 : ℚ) ^ e.toNat = 2 ^ e * 2 ^ (-e).toNat := pow_toNat two_ne_zero e
  rw [scaleDown]
  push_cast
  rw [cast_pow2, cast_pow2, he]
  field_simp

theorem scaleDown_lt_iff (hd : 0 < d) (n : Nat) (e : Int) :
    (scaleDown n d e).1 < (scaleDown n d e).2 ↔ (n / d : ℚ) < 2 ^ e := by
  have hpos : (0 : ℚ) < (scaleDown n d e).2 := Nat.cast_pos.2 (scaleDown_pos hd n e)
  have hcast : ((scaleDown n d e).1 : ℚ) < (scaleDown n d e).2 ↔ (n / d : ℚ) < 2 ^ e := by
    rw [← div_lt_one hpos, scaleDown_ratio hd n, div_lt_one (by positivity)]
  exact Nat.cast_lt.symm.trans hcast

/-- A whole number lies below the rounded ratio if the next half does, or if it is odd and the ratio is that half. -/
theorem lt_roundHalfEven_iff (hd : 0 < d) (n m : Nat) : m < roundHalfEven n d ↔
    (m + 1 / 2 : ℚ) < n / d ∨ ((m + 1 / 2 : ℚ) = n / d ∧ m % 2 = 1) := by
  have hlt : (m + 1 / 2 : ℚ) < n / d ↔ (2 * m + 1) * d < 2 * n := by
    rw [lt_div_iff₀ (by positivity)]
    qify
    constructor <;> intro h <;> linarith
  have heq : (m + 1 / 2 : ℚ) = n / d ↔ (2 * m + 1) * d = 2 * n := by
    rw [eq_div_iff (by positivity)]
    qify
    constructor <;> intro h <;> linarith
  have hn : d * (n / d) + n % d = n := Nat.div_add_mod n d
  have hrest : n % d < d := Nat.mod_lt n hd
  rw [hlt, heq, roundHalfEven]
  generalize n / d = q at hn ⊢
  generalize n % d = r at hn hrest ⊢
  subst hn
  rcases Nat.lt_trichotomy m q with hmq | rfl | hmq
  · -- the half after `m` comes before `q`
    have hhalf : (2 * m + 1) * d < 2 * (d * q + r) := by nlinarith
    have hround : m < if 2 * r < d then q else if d < 2 * r then q + 1 else q + q % 2 := by
      split_ifs <;> omega
    exact iff_of_true hround (.inl hhalf)
  · have hhalf : (2 * m + 1) * d = 2 * (d * m) + d := by ring
    rw [hhalf, Nat.mul_add]
    split_ifs <;> omega
  · have hhalf : 2 * (d * q + r) < (2 * m + 1) * d := by nlinarith
    have hround : ¬ m < if 2 * r < d then q else if d < 2 * r then q + 1 else q + q % 2 := by
      split_ifs <;> omega
    exact iff_of_false hround (by omega)

/-- **`floorLog2` is the exponent of the power of two at or below the ratio.** -/
theorem floorLog2_spec (hn : 0 < n) (hd : 0 < d) :
    (2 : ℚ) ^ floorLog2 n d ≤ n / d ∧ (n / d : ℚ) < 2 ^ (floorLog2 n d + 1) := by
  have hn' : (0 : ℚ) < n := by positivity
  have hd' : (0 : ℚ) < d := by positivity
  have hnlow : (2 : ℚ) ^ n.log2 ≤ n := by exact_mod_cast Nat.log2_self_le hn.ne'
  have hnhigh : (n : ℚ) < 2 ^ (n.log2 + 1) := by exact_mod_cast Nat.lt_log2_self
  have hdlow : (2 : ℚ) ^ d.log2 ≤ d := by exact_mod_cast Nat.log2_self_le hd.ne'
  have hdhigh : (d : ℚ) < 2 ^ (d.log2 + 1) := by exact_mod_cast Nat.lt_log2_self
  have hpos (k : Nat) : (0 : ℚ) < 2 ^ k := pow_pos two_pos k
  have hpow : (2 : ℚ) ^ ((n.log2 : Int) - d.log2) = 2 ^ n.log2 / 2 ^ d.log2 := by
    rw [zpow_sub₀ two_ne_zero, zpow_natCast, zpow_natCast]
  -- the difference of the two logarithms is right or one too high
  have hlow : (2 : ℚ) ^ ((n.log2 : Int) - d.log2 - 1) ≤ n / d := by
    rw [zpow_sub_one₀ two_ne_zero, hpow, le_div_iff₀ hd', div_mul_eq_mul_div, div_mul_eq_mul_div,
      div_le_iff₀ (by positivity)]
    rw [pow_succ] at hdhigh
    nlinarith [hpos n.log2, hpos d.log2]
  have hhigh : (n / d : ℚ) < 2 ^ ((n.log2 : Int) - d.log2 + 1) := by
    rw [zpow_add_one₀ two_ne_zero, hpow, div_lt_iff₀ hd', div_mul_eq_mul_div, div_mul_eq_mul_div,
      lt_div_iff₀ (by positivity)]
    rw [pow_succ] at hnhigh
    nlinarith [hpos n.log2, hpos d.log2]
  unfold floorLog2
  dsimp only
  split
  · rename_i hlt
    rw [Int.sub_add_cancel]
    exact ⟨hlow, (scaleDown_lt_iff hd n _).1 hlt⟩
  · rename_i hle
    exact ⟨not_lt.1 (mt (scaleDown_lt_iff hd n _).2 hle), hhigh⟩

theorem lt_roundHalfEven_scaleDown_iff (hd : 0 < d) (n m : Nat) (k : Int) :
    m < roundHalfEven (scaleDown n d k).1 (scaleDown n d k).2 ↔
      (m + 1 / 2 : ℚ) * 2 ^ k < n / d ∨ ((m + 1 / 2 : ℚ) * 2 ^ k = n / d ∧ m % 2 = 1) := by
  have hpos : (0 : ℚ) < 2 ^ k := zpow_pos two_pos k
  rw [lt_roundHalfEven_iff (scaleDown_pos hd n k), scaleDown_ratio hd n k, lt_div_iff₀ hpos, eq_div_iff hpos.ne']

namespace BinaryFormat

variable {f : BinaryFormat} {e : Int}

/-- The pattern of `m · 2 ^ e`, for a significand of full length. -/
def normalBits (f : BinaryFormat) (m : Nat) (e : Int) : Nat := (e - f.minExponent).toNat * pow2 f.fractionBits + m

/-- The number `m · 2 ^ e` belongs to the format, with a significand of full length. -/
structure Normal (f : BinaryFormat) (m : Nat) (e : Int) : Prop where
  exponent : f.minExponent ≤ e
  low      : pow2 f.fractionBits ≤ m
  high     : m < 2 * pow2 f.fractionBits
  isFinite : f.normalBits m e < f.infinityBits

/-- The exponent under which a ratio is rounded. -/
def exponentOf (f : BinaryFormat) (n d : Nat) : Int := max f.minExponent (floorLog2 n d - f.fractionBits)

/-- The whole number to which it is rounded there. -/
def significandOf (f : BinaryFormat) (n d : Nat) : Nat :=
  roundHalfEven (scaleDown n d (f.exponentOf n d)).1 (scaleDown n d (f.exponentOf n d)).2

theorem round_eq (f : BinaryFormat) (hn : n ≠ 0) (d : Nat) :
    f.round n d = min (f.normalBits (f.significandOf n d) (f.exponentOf n d)) f.infinityBits := if_neg hn

/-- Under its exponent a ratio has no more digits than there is room for. -/
theorem lt_exponentOf (f : BinaryFormat) (hn : 0 < n) (hd : 0 < d) :
    (n / d : ℚ) < 2 * pow2 f.fractionBits * 2 ^ f.exponentOf n d := by
  have hexponent : floorLog2 n d + 1 ≤ 1 + f.fractionBits + f.exponentOf n d := by
    have := le_max_right f.minExponent (floorLog2 n d - f.fractionBits)
    rw [exponentOf]
    omega
  calc (n / d : ℚ) < 2 ^ (floorLog2 n d + 1) := (floorLog2_spec hn hd).2
    _ ≤ 2 ^ (1 + (f.fractionBits : Int) + f.exponentOf n d) := zpow_le_zpow_right₀ one_le_two hexponent
    _ = 2 * pow2 f.fractionBits * 2 ^ f.exponentOf n d := by
      rw [zpow_add₀ two_ne_zero, zpow_add₀ two_ne_zero, zpow_one, zpow_natCast, cast_pow2]

/-- Above the least exponent it has as many as there is room for. -/
theorem exponentOf_le (f : BinaryFormat) (hn : 0 < n) (hd : 0 < d) (hleast : f.minExponent < f.exponentOf n d) :
    pow2 f.fractionBits * 2 ^ f.exponentOf n d ≤ (n / d : ℚ) := by
  have hexponent : floorLog2 n d = f.fractionBits + f.exponentOf n d := by
    rw [exponentOf] at hleast ⊢
    omega
  calc (pow2 f.fractionBits * 2 ^ f.exponentOf n d : ℚ)
      = 2 ^ ((f.fractionBits : Int) + f.exponentOf n d) := by
        rw [zpow_add₀ two_ne_zero, zpow_natCast, cast_pow2]
    _ = 2 ^ floorLog2 n d := by rw [hexponent]
    _ ≤ n / d := (floorLog2_spec hn hd).1

theorem significandOf_le (f : BinaryFormat) (hn : 0 < n) (hd : 0 < d) : f.significandOf n d ≤ 2 * pow2 f.fractionBits := by
  have hbound := f.lt_exponentOf hn hd
  have hpos : (0 : ℚ) < 2 ^ f.exponentOf n d := zpow_pos two_pos _
  have hbelow : (n / d : ℚ) < ((2 * pow2 f.fractionBits : Nat) + 1 / 2 : ℚ) * 2 ^ f.exponentOf n d := by
    push_cast
    nlinarith
  exact not_lt.1 (mt (lt_roundHalfEven_scaleDown_iff hd n _ _).1 (not_past_half hbelow))

theorem le_significandOf (f : BinaryFormat) (hn : 0 < n) (hd : 0 < d) (hleast : f.minExponent < f.exponentOf n d) :
    pow2 f.fractionBits ≤ f.significandOf n d := by
  have hreach := f.exponentOf_le hn hd hleast
  have hpos : (0 : ℚ) < 2 ^ f.exponentOf n d := zpow_pos two_pos _
  obtain ⟨p, hp⟩ := Nat.exists_eq_succ_of_ne_zero (pow2_pos f.fractionBits).ne'
  rw [hp] at hreach ⊢
  push_cast at hreach
  have hhalf : (p + 1 / 2 : ℚ) * 2 ^ f.exponentOf n d < n / d := by nlinarith
  exact (lt_roundHalfEven_scaleDown_iff hd n p _).2 (.inl hhalf)

/-- One more in the exponent is worth as much in a pattern as a significand of full length. -/
theorem shift_exponent (f : BinaryFormat) {k : Int} (hk : f.minExponent ≤ k) (hke : k < e) :
    (k - f.minExponent).toNat * pow2 f.fractionBits + pow2 f.fractionBits ≤
      (e - f.minExponent).toNat * pow2 f.fractionBits := by
  have hexponent : (k - f.minExponent).toNat + 1 ≤ (e - f.minExponent).toNat := by omega
  have hshift := Nat.mul_le_mul_right (pow2 f.fractionBits) hexponent
  rwa [Nat.add_mul, Nat.one_mul] at hshift

/-- **A ratio is rounded beyond a number if it lies past the half of the last place after it.**  At the half it is rounded to the
even one of the two. -/
theorem Normal.lt_round_iff (h : f.Normal m e) (hd : 0 < d) (n : Nat) : f.normalBits m e < f.round n d ↔
    (m + 1 / 2 : ℚ) * 2 ^ e < n / d ∨ ((m + 1 / 2 : ℚ) * 2 ^ e = n / d ∧ m % 2 = 1) := by
  have hpos (k : Int) : (0 : ℚ) < 2 ^ k := zpow_pos two_pos k
  have hlow : (pow2 f.fractionBits : ℚ) ≤ m := Nat.cast_le.2 h.low
  have hhigh : (m + 1 : ℚ) ≤ 2 * pow2 f.fractionBits := by exact_mod_cast h.high
  obtain rfl | hn := n.eq_zero_or_pos
  · have hhalf : (0 : ℚ) < (m + 1 / 2 : ℚ) * 2 ^ e := mul_pos (by positivity) (hpos e)
    have hzero : f.round 0 d = 0 := if_pos rfl
    rw [hzero, Nat.cast_zero, zero_div]
    exact iff_of_false (Nat.not_lt_zero _) (not_past_half hhalf)
  · rw [round_eq f hn.ne', lt_min_iff, and_iff_left h.isFinite]
    rcases lt_trichotomy (f.exponentOf n d) e with hlt | rfl | hlt
    · -- with a lesser exponent even the greatest significand does not reach the number
      have hstep := two_mul_zpow_le hlt
      have hbound := f.lt_exponentOf hn hd
      have hbelow : (n / d : ℚ) < (m + 1 / 2) * 2 ^ e := by nlinarith [hpos e]
      have hbits : ¬ f.normalBits m e < f.normalBits (f.significandOf n d) (f.exponentOf n d) := by
        have hleast : f.minExponent ≤ f.exponentOf n d := le_max_left ..
        have := f.shift_exponent hleast hlt
        have := f.significandOf_le hn hd
        have := h.low
        rw [normalBits, normalBits]
        omega
      exact iff_of_false hbits (not_past_half hbelow)
    · exact Nat.add_lt_add_iff_left.trans (lt_roundHalfEven_scaleDown_iff hd n m _)
    · -- with a greater one even the least goes beyond it
      have hleast := h.exponent.trans_lt hlt
      have hstep := two_mul_zpow_le hlt
      have hreach := f.exponentOf_le hn hd hleast
      have habove : (m + 1 / 2 : ℚ) * 2 ^ e < n / d := by nlinarith [hpos e]
      have hbits : f.normalBits m e < f.normalBits (f.significandOf n d) (f.exponentOf n d) := by
        have := f.shift_exponent h.exponent hlt
        have := f.le_significandOf hn hd hleast
        have := h.high
        rw [normalBits, normalBits]
        omega
      exact iff_of_true hbits (.inl habove)

/-- Numbers of the usual sizes have fewer than four hundred places on either side of the point. -/
theorem Normal.within_places (h : f.Normal m e) (hsmall : -1200 ≤ f.fractionBits + e)
    (hgreat : f.fractionBits + e < 1200) : (10 : ℚ) ^ (-400 : Int) ≤ m * 2 ^ e ∧ (m + 1 : ℚ) * 2 ^ e ≤ 10 ^ (400 : Int) := by
  have hpos : (0 : ℚ) < 2 ^ e := zpow_pos two_pos e
  have height : (2 : ℚ) ^ (1200 : Int) = 8 ^ (400 : Int) := by
    have hthree : (1200 : Int) = 3 * 400 := by decide
    have hcube : (2 : ℚ) ^ (3 : Int) = 8 := by norm_num
    rw [hthree, zpow_mul, hcube]
  have hten : (8 : ℚ) ^ (400 : Int) ≤ 10 ^ (400 : Int) := zpow_le_zpow_left₀ (by norm_num) (by norm_num) (by norm_num)
  constructor
  · calc (10 : ℚ) ^ (-400 : Int) ≤ 2 ^ (-1200 : Int) := by
          rw [zpow_neg, zpow_neg, height]
          exact inv_anti₀ (by positivity) hten
      _ ≤ 2 ^ ((f.fractionBits : Int) + e) := zpow_le_zpow_right₀ one_le_two hsmall
      _ = pow2 f.fractionBits * 2 ^ e := by rw [zpow_add₀ two_ne_zero, zpow_natCast, cast_pow2]
      _ ≤ m * 2 ^ e := mul_le_mul_of_nonneg_right (Nat.cast_le.2 h.low) hpos.le
  · have hsucc : (m + 1 : ℚ) ≤ 2 * pow2 f.fractionBits := by exact_mod_cast h.high
    calc (m + 1 : ℚ) * 2 ^ e ≤ 2 * pow2 f.fractionBits * 2 ^ e := mul_le_mul_of_nonneg_right hsucc hpos.le
      _ = 2 ^ ((f.fractionBits : Int) + e + 1) := by
        rw [zpow_add_one₀ two_ne_zero, zpow_add₀ two_ne_zero, zpow_natCast, cast_pow2]
        ring
      _ ≤ 2 ^ (1200 : Int) := zpow_le_zpow_right₀ one_le_two hgreat
      _ = 8 ^ (400 : Int) := height
      _ ≤ 10 ^ (400 : Int) := hten

/-- A decimal with so many places that the format has only infinity for it, or so few that it has only zero, is rounded without
being computed; any other is a ratio. -/
theorem Normal.lt_roundDecimal_iff (h : f.Normal m e) (hsmall : -1200 ≤ f.fractionBits + e)
    (hgreat : f.fractionBits + e < 1200) (digits : Nat) (q : Int) : f.normalBits m e < f.roundDecimal digits q ↔
      (m + 1 / 2 : ℚ) * 2 ^ e < digits * 10 ^ q ∨ ((m + 1 / 2 : ℚ) * 2 ^ e = digits * 10 ^ q ∧ m % 2 = 1) := by
  have hpos : (0 : ℚ) < 2 ^ e := zpow_pos two_pos e
  obtain ⟨hlow, hhigh⟩ := h.within_places hsmall hgreat
  obtain rfl | hdigits := digits.eq_zero_or_pos
  · have hhalf : (0 : ℚ) < (m + 1 / 2 : ℚ) * 2 ^ e := mul_pos (by positivity) hpos
    rw [roundDecimal, if_pos (.inl rfl), Nat.cast_zero, zero_mul]
    exact iff_of_false (Nat.not_lt_zero _) (not_past_half hhalf)
  · obtain ⟨hleast, hmost⟩ := places_spec hdigits q
    rw [roundDecimal]
    generalize ((Nat.toDigits 10 digits).length : Int) + q = places at hleast hmost ⊢
    split_ifs with hfew hmany
    · have hbelow : (digits * 10 ^ q : ℚ) < (m + 1 / 2) * 2 ^ e := by
        have := zpow_le_zpow_right₀ (a := (10 : ℚ)) (by norm_num) (hfew.resolve_left hdigits.ne').le
        linarith
      exact iff_of_false (Nat.not_lt_zero _) (not_past_half hbelow)
    · have habove : ((m + 1 / 2 : ℚ) * 2 ^ e) < digits * 10 ^ q := by
        have := zpow_le_zpow_right₀ (a := (10 : ℚ)) (by norm_num) (Int.le_sub_one_of_lt hmany)
        linarith
      exact iff_of_true h.isFinite (.inl habove)
    · have hratio : ((digits * pow10 q.toNat : Nat) / (pow10 (-q).toNat : Nat) : ℚ) = digits * 10 ^ q := by
        have hten : (10 : ℚ) ^ q.toNat = 10 ^ q * 10 ^ (-q).toNat := pow_toNat (by norm_num) q
        rw [Nat.cast_mul, cast_pow10, cast_pow10, hten]
        field_simp
      rw [h.lt_round_iff (pow10_pos _), hratio]

theorem round_le_infinityBits (f : BinaryFormat) (n d : Nat) : f.round n d ≤ f.infinityBits := by
  unfold round
  split
  · exact Nat.zero_le _
  · exact min_le_right _ _

theorem roundDecimal_le_infinityBits (f : BinaryFormat) (digits : Nat) (q : Int) :
    f.roundDecimal digits q ≤ f.infinityBits := by
  unfold roundDecimal
  dsimp only
  split_ifs
  · exact Nat.zero_le _
  · exact le_rfl
  · exact f.round_le_infinityBits _ _

/-! ## Patterns in order -/

theorem Normal.lt_normalBits_iff {m' : Nat} {e' : Int} (h : f.Normal m e) (h' : f.Normal m' e') :
    f.normalBits m e < f.normalBits m' e' ↔ (m * 2 ^ e : ℚ) < m' * 2 ^ e' := by
  have hpos (k : Int) : (0 : ℚ) < 2 ^ k := zpow_pos two_pos k
  have hless {a b : Nat} {k l : Int} (ha : f.Normal a k) (hb : f.Normal b l) (hkl : k < l) :
      f.normalBits a k < f.normalBits b l ∧ (a * 2 ^ k : ℚ) < b * 2 ^ l := by
    have hshift := f.shift_exponent ha.exponent hkl
    have hahigh := ha.high
    have hblow := hb.low
    have hstep := two_mul_zpow_le hkl
    have hahigh' : (a : ℚ) < 2 * pow2 f.fractionBits := by exact_mod_cast hahigh
    have hblow' : (pow2 f.fractionBits : ℚ) ≤ b := Nat.cast_le.2 hblow
    refine ⟨?_, by nlinarith [hpos k]⟩
    rw [normalBits, normalBits]
    omega
  rcases lt_trichotomy e e' with hlt | rfl | hlt
  · exact iff_of_true (hless h h' hlt).1 (hless h h' hlt).2
  · exact Nat.add_lt_add_iff_left.trans (Nat.cast_lt.symm.trans (mul_lt_mul_iff_of_pos_right (hpos e)).symm)
  · exact iff_of_false (hless h' h hlt).1.not_gt (hless h' h hlt).2.not_gt

/-- **Patterns stand in the order of their numbers.** -/
theorem Normal.lt_magnitude_iff (h : f.Normal m e) {bits : Nat} (hbits : bits < f.infinityBits) :
    ∃ (m' : Nat) (e' : Int), f.magnitude bits = .finite m' e' ∧
      (f.normalBits m e < bits ↔ (m * 2 ^ e : ℚ) < m' * 2 ^ e') := by
  have hfraction : bits % pow2 f.fractionBits < pow2 f.fractionBits := Nat.mod_lt _ (pow2_pos _)
  have hfield : pow2 f.fractionBits * (bits / pow2 f.fractionBits) + bits % pow2 f.fractionBits = bits :=
    Nat.div_add_mod bits _
  unfold magnitude
  rw [if_neg hbits.not_gt, if_neg hbits.ne]
  generalize bits / pow2 f.fractionBits = field at hfield ⊢
  generalize bits % pow2 f.fractionBits = fraction at hfraction hfield ⊢
  cases field with
  | zero   =>
    -- without a leading one a number is below all that have one
    refine ⟨fraction, f.minExponent, if_pos rfl, iff_of_false ?_ ?_⟩
    · have hlow := h.low
      rw [normalBits]
      omega
    · have hlow : (pow2 f.fractionBits : ℚ) ≤ m := Nat.cast_le.2 h.low
      have hfraction : (fraction : ℚ) ≤ pow2 f.fractionBits := Nat.cast_le.2 hfraction.le
      have hexponent : (2 : ℚ) ^ f.minExponent ≤ 2 ^ e := zpow_le_zpow_right₀ one_le_two h.exponent
      exact not_lt.2 (mul_le_mul (hfraction.trans hlow) hexponent (by positivity) (by positivity))
  | succ k =>
    have hpattern : f.normalBits (pow2 f.fractionBits + fraction) (f.minExponent + k) = bits := by
      have hk : f.minExponent + k - f.minExponent = k := by omega
      rw [normalBits, hk, Int.toNat_natCast, ← hfield]
      ring
    have hnormal : f.Normal (pow2 f.fractionBits + fraction) (f.minExponent + k) :=
      ⟨by omega, by omega, by omega, hpattern.trans_lt hbits⟩
    refine ⟨pow2 f.fractionBits + fraction, f.minExponent + k, if_neg (Nat.succ_ne_zero k), ?_⟩
    rw [← h.lt_normalBits_iff hnormal, hpattern]

end BinaryFormat

end CommandConsole
