/-
What the computing instructions compute, in whole numbers. `AluOp.value` is the number
that goes to vX and `AluOp.report?` the one that goes to the flag, if the computation
has something to report: the carry of an addition, whether a difference is above zero,
the bit that a shift drops.

A register can be operand, target and flag at once. That does no harm
(`compute_exact`): both numbers come from what the registers held before, the result
is written first, and the report last, so the report stays where both go to vF.
-/
import Chip8.Proofs.InstructionFacts
import Chip8.Proofs.Loading

namespace Chip8

namespace AluOp

/-- The number that goes to vX: `a` is in vX, `b` in vY, and `s` in the register that
the dialect shifts. -/
def value (op : AluOp) (a b s : Nat) : Int :=
  match op with
  | .copy => b
  | .or => (a ||| b : Nat)
  | .and => (a &&& b : Nat)
  | .xor => (a ^^^ b : Nat)
  | .add => ((a : Int) + b) % 256
  | .sub => ((a : Int) - b) % 256
  | .shiftRight => (s : Int) / 2
  | .reverseSub => ((b : Int) - a) % 256
  | .shiftLeft => 2 * (s : Int) % 256

/-- The number that goes to the flag, if the computation reports one. -/
def report? (op : AluOp) (a b s : Nat) : Option Nat :=
  match op with
  | .copy | .or | .and | .xor => none
  | .add => some ((a + b) / 256)
  | .sub => some (if b < a then 1 else 0)
  | .shiftRight => some (s % 2)
  | .reverseSub => some (if a < b then 1 else 0)
  | .shiftLeft => some (s / 128)

end AluOp

/-! ## Bytes as numbers -/

section Bytes

variable (a b : UInt8)

theorem toNat_shiftRight_one : (a >>> 1).toNat = a.toNat / 2 := by
  rw [UInt8.toNat_shiftRight, Nat.shiftRight_eq_div_pow]
  rfl

theorem toNat_shiftRight_seven : (a >>> 7).toNat = a.toNat / 128 := by
  rw [UInt8.toNat_shiftRight, Nat.shiftRight_eq_div_pow]
  rfl

theorem toNat_shiftLeft_one : (a <<< 1).toNat = 2 * a.toNat % 256 := by
  rw [UInt8.toNat_shiftLeft, Nat.shiftLeft_eq, Nat.mul_comm]
  rfl

theorem toNat_and_one : (a &&& 1).toNat = a.toNat % 2 := by
  rw [UInt8.toNat_and]
  exact Nat.and_one_is_mod a.toNat

/-- A sum of two bytes carries at most once. -/
theorem toNat_carry : (if 256 ≤ a.toNat + b.toNat then 1 else 0 : UInt8).toNat = (a.toNat + b.toNat) / 256 := by
  have ha := a.toNat_lt
  have hb := b.toNat_lt
  split
  · show 1 = _
    omega
  · show 0 = _
    omega

theorem toNat_exceeds : (if b < a then 1 else 0 : UInt8).toNat = if b.toNat < a.toNat then 1 else 0 := by
  simp only [UInt8.lt_iff_toNat_lt, apply_ite UInt8.toNat]
  rfl

end Bytes

namespace Processor

/-! ## One computation -/

section

variable (d : Dialect) (op : AluOp) (x y : UInt8)

/-- The result of a computation is the exact one, modulo 256 where it may not fit. -/
theorem value_aluResult :
    ((aluResult d op x y).1.toNat : Int) =
      op.value x.toNat y.toNat (if d.shiftsFromY then y else x).toNat := by
  have hx := x.toNat_lt
  have hy := y.toNat_lt
  cases op with
  | copy => rfl
  | or => exact congrArg Int.ofNat (UInt8.toNat_or x y)
  | and => exact congrArg Int.ofNat (UInt8.toNat_and x y)
  | xor => exact congrArg Int.ofNat (UInt8.toNat_xor x y)
  | add =>
    simp only [aluResult, AluOp.value, UInt8.toNat_add]
    omega
  | sub | reverseSub =>
    simp only [aluResult, AluOp.value, UInt8.toNat_sub]
    omega
  | shiftRight =>
    simp only [aluResult, AluOp.value, toNat_shiftRight_one]
    omega
  | shiftLeft =>
    simp only [aluResult, AluOp.value, toNat_shiftLeft_one]
    omega

theorem report_aluResult :
    (aluResult d op x y).2.map UInt8.toNat =
      op.report? x.toNat y.toNat (if d.shiftsFromY then y else x).toNat := by
  cases op with
  | copy | or | and | xor => rfl
  | add => exact congrArg some (toNat_carry x y)
  | sub => exact congrArg some (toNat_exceeds x y)
  | reverseSub => exact congrArg some (toNat_exceeds y x)
  | shiftRight => exact congrArg some (toNat_and_one _)
  | shiftLeft => exact congrArg some (toNat_shiftRight_seven _)

end

/-! ## The registers after it -/

/-- What a computation into vX makes of the registers, when `a` is in vX, `b` in vY and
`s` in the register that the dialect shifts. -/
structure Computed (op : AluOp) (a b s : Nat) (x : Register) (before after : Processor) : Prop where
  report : ∀ n, op.report? a b s = some n → (after.get flag).toNat = n
  result : op.report? a b s = none ∨ x ≠ flag → ((after.get x).toNat : Int) = op.value a b s
  others : ∀ r, r ≠ x → op.report? a b s = none ∨ r ≠ flag → after.get r = before.get r

namespace Computed

variable {op : AluOp} {a b s : Nat} {x : Register} {value : UInt8}

theorem of_value (c : Processor) (hreport : op.report? a b s = none)
    (hvalue : (value.toNat : Int) = op.value a b s) : Computed op a b s x c (c.set x value) where
  report n hn := absurd (hreport.symm.trans hn) (by simp)
  result _ := by
    rw [get_set]
    exact hvalue
  others _ hr _ := c.get_set_of_ne value hr

theorem of_report (c : Processor) {carry : UInt8} (hreport : op.report? a b s = some carry.toNat)
    (hvalue : (value.toNat : Int) = op.value a b s) :
    Computed op a b s x c ((c.set x value).set flag carry) where
  report n hn := by
    rw [hreport, Option.some.injEq] at hn
    rw [get_set]
    exact hn
  result h := by
    have hx : x ≠ flag := h.resolve_left (by simp [hreport])
    rw [get_set_of_ne _ carry hx, get_set]
    exact hvalue
  others r hr h := by
    have hflag : r ≠ flag := h.resolve_left (by simp [hreport])
    rw [get_set_of_ne _ carry hflag, c.get_set_of_ne value hr]

end Computed

theorem computed_compute (c : Processor) (op : AluOp) (x y : Register) :
    Computed op (c.get x).toNat (c.get y).toNat
      (if c.settings.dialect.strictCosmac then (c.get y).toNat else (c.get x).toNat) x c (c.compute op x y) := by
  have hvalue := value_aluResult c.settings.dialect op (c.get x) (c.get y)
  have hreport := report_aluResult c.settings.dialect op (c.get x) (c.get y)
  rw [apply_ite UInt8.toNat] at hvalue hreport
  -- Both numbers are there before a register is written, so it does not matter which registers coincide.
  cases hresult : aluResult c.settings.dialect op (c.get x) (c.get y) with
  | mk value report =>
    rw [hresult] at hvalue hreport
    simp only [compute, hresult]
    cases report with
    | none => exact .of_value c hreport.symm hvalue
    | some carry => exact .of_report c hreport.symm hvalue

end Processor

namespace Machine

open Processor (Computed)

/-- **The computing instructions are exact**, whichever registers they name. What they
leave in vX and in the flag is the number that whole numbers give, from what vX and vY
held before; where the result and a report both go to vF, the report stays; and no other
register changes. That is what `8xyN` does when it is run. -/
theorem compute_exact (m : Machine) (random : UInt8) (op : AluOp) (x y : Register) :
    let a := (m.cpu.get x).toNat
    let b := (m.cpu.get y).toNat
    let s := if m.cpu.settings.dialect.strictCosmac then b else a
    Computed op a b s x m.cpu (m.cpu.compute op x y) ∧
      (m.cpu.memory.readWord m.cpu.pc = some (UInt16.ofNat (0x8000 + x.val * 256 + y.val * 16 + op.digit)) →
        (m.step random).2 = .ok .continued ∧ Computed op a b s x m.cpu (m.step random).1.cpu) := by
  intro a b s
  refine ⟨m.cpu.computed_compute op x y, fun hword => ?_⟩
  have hi := Instruction.ofWord?_toWord (.compute op x y)
  have hcomputed := (m.fetched (Instruction.compute op x y).toWord).cpu.computed_compute op x y
  rw [step_of_instruction random hword hi]
  refine ⟨rfl, ?_⟩
  show Computed op a b s x m.cpu ((m.fetched (Instruction.compute op x y).toWord).cpu.compute op x y)
  rw [fetched_cpu] at hcomputed ⊢
  -- Fetching the word changes no register.
  exact ⟨hcomputed.report, hcomputed.result, hcomputed.others⟩

/-- `84F5` takes the flag, which is 5, from v4, which is 3: the difference goes to v4,
and the flag is cleared, as v4 was not above it. -/
theorem compute_exact_flagOperand :
    let c : Processor :=
      { memory := (Memory.new 0x50 0x200).withProgram [0x84, 0xF5]
        v := ((Vector.replicate 16 0).set 4 3).set 15 5 }
    let m : Machine := { cpu := c }
    m.cpu.memory.readWord m.cpu.pc = some 0x84F5 ∧ (m.step 0).2 = .ok .continued ∧
      (m.step 0).1.cpu.get 4 = 254 ∧ (m.step 0).1.cpu.get 15 = 0 := by
  intro c m
  have hword : m.cpu.memory.readWord m.cpu.pc = some 0x84F5 :=
    Memory.readWord_withProgram _ rfl 0x84 0xF5 [] (by decide)
  obtain ⟨hcontinued, hcomputed⟩ := (compute_exact m 0 .sub 4 15).2 hword
  have hresult : (((m.step 0).1.cpu.get 4).toNat : Int) = 254 := hcomputed.result (.inr (by decide))
  have hreport : ((m.step 0).1.cpu.get 15).toNat = 0 := hcomputed.report 0 rfl
  refine ⟨hword, hcontinued, ?_, ?_⟩
  · rw [← UInt8.toNat_inj]
    exact Int.ofNat.inj hresult
  · rw [← UInt8.toNat_inj]
    exact hreport

end Machine

end Chip8
