/-!
# Powers of two and of ten

The scales of the numbers here: binary ones of floats and of integer widths, decimal ones of numerals.
-/
namespace CommandConsole

/-- The power of two with this exponent. -/
def pow2 (n : Nat) : Nat := Nat.pow 2 n

/-- The power of ten with this exponent. -/
def pow10 (n : Nat) : Nat := Nat.pow 10 n

@[simp] theorem pow2_zero : pow2 0 = 1 := rfl

theorem pow2_succ (n : Nat) : pow2 (n + 1) = pow2 n * 2 := rfl

theorem pow2_pos (n : Nat) : 0 < pow2 n := Nat.pow_pos (by decide)

theorem pow10_pos (n : Nat) : 0 < pow10 n := Nat.pow_pos (by decide)

end CommandConsole
