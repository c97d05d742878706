/-
How long the buzzer sounds. A program asks for a number of ticks; short beeps
are stretched so that they stay audible: 1 to 255 ticks become 5 to 255 along
the curve `5 + 250 * ((v - 1) / 254) ^ (17 / 20)`, rounded to the nearest
number, and 0 stays 0.

The rounding is exact. The rounded curve is at least `k + 1` above its foot
exactly when `(2 * k + 1) / 500 ≤ ((v - 1) / 254) ^ (17 / 20)`, and raising
both sides to the 20th power leaves a comparison of whole numbers.
-/

namespace Chip8.Buzzer

/-- The step that the curve has to clear to be rounded to `k + 1` above its foot,
times `500 ^ 20 * 254 ^ 17`. -/
def threshold (k : Nat) : Nat := Nat.pow (2 * k + 1) 20 * Nat.pow 254 17

/-- All steps, in order. -/
def thresholds : Array Nat := (Array.range 250).map threshold

/-- How high above its foot the rounded curve is. -/
def rise (ticks : UInt8) : Nat :=
  let height := Nat.pow (ticks.toNat - 1) 17 * Nat.pow 500 20
  thresholds.countP (· ≤ height)

/-- The ticks the buzzer sounds when a program asks for the given ones. -/
def stretch (ticks : UInt8) : UInt8 :=
  if ticks = 0 then 0 else UInt8.ofNat (5 + rise ticks)

/-- The curve rises by at most 250. -/
theorem rise_le (ticks : UInt8) : rise ticks ≤ 250 := by
  refine Nat.le_trans Array.countP_le_size ?_
  simp [thresholds]

/-- Only a beep of no ticks is silent. -/
theorem stretch_eq_zero_iff (ticks : UInt8) : stretch ticks = 0 ↔ ticks = 0 := by
  unfold stretch
  split
  · simp [*]
  · rename_i h
    have := rise_le ticks
    simp only [h, iff_false, ← UInt8.toNat_inj, UInt8.toNat_ofNat']
    simp only [UInt8.toNat_ofNat]
    omega

end Chip8.Buzzer
