/-
What a word stands for. An instruction read off a word is written as that word
(`toWord_of_ofWord?`), and the word it is written as reads back (`ofWord?_toWord`),
so a word and its instruction say the same. As for forms: native routines are
the words of class 0 that are not `00E0` or `00EE`, words of class 1 jump, and
`Fx0A` waits for a key.
-/
import Chip8.Instruction

namespace Chip8

theorem AluOp.digit_of_ofDigit? {n : Nat} {op : AluOp} (h : AluOp.ofDigit? n = some op) : op.digit = n := by
  unfold AluOp.ofDigit? at h
  split at h <;> cases h <;> rfl

theorem AluOp.ofDigit?_digit (op : AluOp) : AluOp.ofDigit? op.digit = some op := by
  cases op <;> rfl

theorem AluOp.digit_lt (op : AluOp) : op.digit < 16 := by
  cases op <;> decide

namespace Instruction

/-- An instruction read off a word is written as that word. -/
theorem toWord_of_ofWord? {word : UInt16} {i : Instruction} (h : ofWord? word = some i) : i.toWord = word := by
  have hlt := word.toNat_lt
  rw [← UInt16.toNat_inj]
  unfold ofWord? at h
  dsimp only at h
  -- One case for each class, the first digit of the word.
  split at h
  case h_1 =>
    split at h
    · cases h; rename_i hw; rw [hw]; rfl
    · split at h
      · cases h; rename_i hw; rw [hw]; rfl
      · cases h
  case h_6 | h_10 =>
    split at h
    · cases h
      simp only [toWord, UInt16.toNat_ofNat', lastDigit]
      omega
    · cases h
  case h_9 =>
    obtain ⟨op, hop, rfl⟩ := Option.map_eq_some_iff.mp h
    have hdigit := AluOp.digit_of_ofDigit? hop
    simp only [toWord, UInt16.toNat_ofNat', lastDigit, hdigit]
    omega
  case h_15 =>
    split at h <;> cases h <;> simp only [toWord, UInt16.toNat_ofNat', lastDigit] <;> omega
  case h_16 =>
    -- Only class 15 is left.
    simp only [imp_false] at *
    split at h <;> cases h <;> simp only [toWord, UInt16.toNat_ofNat', lastDigit] <;> omega
  all_goals
    cases h
    simp only [toWord, UInt16.toNat_ofNat', UInt8.toNat_ofNat', lastDigit, lastAddress]
    omega

/-! ## Words put together -/

/-- The class and the address of a word that is put together from them. -/
theorem parts_of_address {n : Nat} (k : Nat) (a : Address) (hn : n = k * 4096 + a.val) (hk : k < 16) :
    (UInt16.ofNat n).toNat / 4096 = k ∧ lastAddress (UInt16.ofNat n).toNat = a := by
  have ha := a.isLt
  have hw : (UInt16.ofNat n).toNat = n := by
    simp only [UInt16.toNat_ofNat']
    omega
  rw [hw]
  refine ⟨by omega, Fin.ext ?_⟩
  simp only [lastAddress]
  omega

/-- The class, the register and the low byte of a word that is put together from them. -/
theorem parts_of_register {n : Nat} (k : Nat) (x : Register) (b : UInt8)
    (hn : n = k * 4096 + x.val * 256 + b.toNat) (hk : k < 16) :
    (UInt16.ofNat n).toNat / 4096 = k ∧ lastDigit ((UInt16.ofNat n).toNat / 256) = x ∧
      (UInt16.ofNat n).toNat % 256 = b.toNat := by
  have hx := x.isLt
  have hb := b.toNat_lt
  have hw : (UInt16.ofNat n).toNat = n := by
    simp only [UInt16.toNat_ofNat']
    omega
  rw [hw]
  refine ⟨by omega, Fin.ext ?_, by omega⟩
  simp only [lastDigit]
  omega

/-- The same for a word whose class and low byte are fixed. -/
theorem parts_of_code (code k : Nat) (x : Register) (low : UInt8) (hcode : code = k * 4096 + low.toNat)
    (hk : k < 16) :
    (UInt16.ofNat (code + x.val * 256)).toNat / 4096 = k ∧
      lastDigit ((UInt16.ofNat (code + x.val * 256)).toNat / 256) = x ∧
      (UInt16.ofNat (code + x.val * 256)).toNat % 256 = low.toNat :=
  parts_of_register k x low (by omega) hk

/-- The class and the three digits of a word that is put together from them. -/
theorem parts_of_registers {n : Nat} (k : Nat) (x y d : Fin 16)
    (hn : n = k * 4096 + x.val * 256 + y.val * 16 + d.val) (hk : k < 16) :
    (UInt16.ofNat n).toNat / 4096 = k ∧ lastDigit ((UInt16.ofNat n).toNat / 256) = x ∧
      lastDigit ((UInt16.ofNat n).toNat / 16) = y ∧ (UInt16.ofNat n).toNat % 16 = d.val := by
  have hx := x.isLt
  have hy := y.isLt
  have hd := d.isLt
  have hw : (UInt16.ofNat n).toNat = n := by
    simp only [UInt16.toNat_ofNat']
    omega
  rw [hw]
  refine ⟨by omega, Fin.ext ?_, Fin.ext ?_, by omega⟩
  · simp only [lastDigit]
    omega
  · simp only [lastDigit]
    omega

/-- The word an instruction is written as stands for it. -/
theorem ofWord?_toWord (i : Instruction) : ofWord? i.toWord = some i := by
  cases i with
  | clearScreen | ret => rfl
  | jump a =>
    obtain ⟨hclass, ha⟩ := parts_of_address 1 a rfl (by decide)
    simp only [ofWord?, toWord, hclass, ha]
  | call a =>
    obtain ⟨hclass, ha⟩ := parts_of_address 2 a rfl (by decide)
    simp only [ofWord?, toWord, hclass, ha]
  | skipIfByte x b =>
    obtain ⟨hclass, hx, hb⟩ := parts_of_register 3 x b rfl (by decide)
    simp only [ofWord?, toWord, hclass, hx, hb, UInt8.ofNat_toNat]
  | skipUnlessByte x b =>
    obtain ⟨hclass, hx, hb⟩ := parts_of_register 4 x b rfl (by decide)
    simp only [ofWord?, toWord, hclass, hx, hb, UInt8.ofNat_toNat]
  | skipIfEqual x y =>
    obtain ⟨hclass, hx, hy, hdigit⟩ :=
      parts_of_registers (n := 0x5000 + x.val * 256 + y.val * 16) 5 x y 0 rfl (by decide)
    simp only [ofWord?, toWord, hclass, hx, hy, hdigit]
    rfl
  | setByte x b =>
    obtain ⟨hclass, hx, hb⟩ := parts_of_register 6 x b rfl (by decide)
    simp only [ofWord?, toWord, hclass, hx, hb, UInt8.ofNat_toNat]
  | addByte x b =>
    obtain ⟨hclass, hx, hb⟩ := parts_of_register 7 x b rfl (by decide)
    simp only [ofWord?, toWord, hclass, hx, hb, UInt8.ofNat_toNat]
  | compute op x y =>
    obtain ⟨hclass, hx, hy, hdigit⟩ := parts_of_registers 8 x y ⟨op.digit, op.digit_lt⟩ rfl (by decide)
    simp only [ofWord?, toWord, hclass, hx, hy, hdigit, op.ofDigit?_digit, Option.map_some]
  | skipUnlessEqual x y =>
    obtain ⟨hclass, hx, hy, hdigit⟩ :=
      parts_of_registers (n := 0x9000 + x.val * 256 + y.val * 16) 9 x y 0 rfl (by decide)
    simp only [ofWord?, toWord, hclass, hx, hy, hdigit]
    rfl
  | setIndex a =>
    obtain ⟨hclass, ha⟩ := parts_of_address 10 a rfl (by decide)
    simp only [ofWord?, toWord, hclass, ha]
  | jumpIndexed a =>
    obtain ⟨hclass, ha⟩ := parts_of_address 11 a rfl (by decide)
    simp only [ofWord?, toWord, hclass, ha]
  | random x b =>
    obtain ⟨hclass, hx, hb⟩ := parts_of_register 12 x b rfl (by decide)
    simp only [ofWord?, toWord, hclass, hx, hb, UInt8.ofNat_toNat]
  | draw x y rows =>
    obtain ⟨hclass, hx, hy, hdigit⟩ := parts_of_registers 13 x y rows rfl (by decide)
    have hrows : lastDigit (UInt16.ofNat (13 * 4096 + x.val * 256 + y.val * 16 + rows.val)).toNat = rows :=
      Fin.ext hdigit
    simp only [ofWord?, toWord, hclass, hx, hy, hrows]
  | skipIfKey x =>
    obtain ⟨hclass, hx, hlow⟩ := parts_of_code 0xE09E 14 x 0x9E rfl (by decide)
    simp only [ofWord?, toWord, hclass, hx, hlow]
    rfl
  | skipUnlessKey x =>
    obtain ⟨hclass, hx, hlow⟩ := parts_of_code 0xE0A1 14 x 0xA1 rfl (by decide)
    simp only [ofWord?, toWord, hclass, hx, hlow]
    rfl
  | getDelay x =>
    obtain ⟨hclass, hx, hlow⟩ := parts_of_code 0xF007 15 x 0x07 rfl (by decide)
    simp only [ofWord?, toWord, hclass, hx, hlow]
    rfl
  | awaitKey x =>
    obtain ⟨hclass, hx, hlow⟩ := parts_of_code 0xF00A 15 x 0x0A rfl (by decide)
    simp only [ofWord?, toWord, hclass, hx, hlow]
    rfl
  | setDelay x =>
    obtain ⟨hclass, hx, hlow⟩ := parts_of_code 0xF015 15 x 0x15 rfl (by decide)
    simp only [ofWord?, toWord, hclass, hx, hlow]
    rfl
  | setSound x =>
    obtain ⟨hclass, hx, hlow⟩ := parts_of_code 0xF018 15 x 0x18 rfl (by decide)
    simp only [ofWord?, toWord, hclass, hx, hlow]
    rfl
  | addIndex x =>
    obtain ⟨hclass, hx, hlow⟩ := parts_of_code 0xF01E 15 x 0x1E rfl (by decide)
    simp only [ofWord?, toWord, hclass, hx, hlow]
    rfl
  | glyph x =>
    obtain ⟨hclass, hx, hlow⟩ := parts_of_code 0xF029 15 x 0x29 rfl (by decide)
    simp only [ofWord?, toWord, hclass, hx, hlow]
    rfl
  | decimal x =>
    obtain ⟨hclass, hx, hlow⟩ := parts_of_code 0xF033 15 x 0x33 rfl (by decide)
    simp only [ofWord?, toWord, hclass, hx, hlow]
    rfl
  | store x =>
    obtain ⟨hclass, hx, hlow⟩ := parts_of_code 0xF055 15 x 0x55 rfl (by decide)
    simp only [ofWord?, toWord, hclass, hx, hlow]
    rfl
  | load x =>
    obtain ⟨hclass, hx, hlow⟩ := parts_of_code 0xF065 15 x 0x65 rfl (by decide)
    simp only [ofWord?, toWord, hclass, hx, hlow]
    rfl

/-! ## Forms of words -/

/-- The word calls a native routine: class 0, but neither `00E0` nor `00EE`. -/
def IsNative (word : UInt16) : Prop := word.toNat < 0x1000 ∧ word ≠ 0x00E0 ∧ word ≠ 0x00EE

instance (word : UInt16) : Decidable (IsNative word) := inferInstanceAs (Decidable (_ ∧ _))

/-- The word has the form `Fx0A`. -/
def IsAwaitKey (word : UInt16) : Prop := ∃ x : Register, word = (awaitKey x).toWord

instance (word : UInt16) : Decidable (IsAwaitKey word) := inferInstanceAs (Decidable (∃ _ : Fin 16, _))

theorem ofWord?_of_class_zero {word : UInt16} (h : word.toNat < 0x1000) :
    ofWord? word =
      if word = 0x00E0 then some .clearScreen else if word = 0x00EE then some .ret else none := by
  have hclass : word.toNat / 4096 = 0 := by omega
  simp only [ofWord?, hclass, ← UInt16.toNat_inj]
  rfl

/-- A word of class 0 stands for no instruction exactly if it is native. -/
theorem ofWord?_eq_none_iff {word : UInt16} (h : word.toNat < 0x1000) :
    ofWord? word = none ↔ IsNative word := by
  rw [ofWord?_of_class_zero h]
  by_cases h1 : word = 0x00E0
  · simp [h1, IsNative]
  · by_cases h2 : word = 0x00EE
    · simp [h2, IsNative]
    · simp [h1, h2, h, IsNative]

theorem ofWord?_of_class_one {word : UInt16} (h : word.toNat / 4096 = 1) :
    ofWord? word = some (.jump (lastAddress word.toNat)) := by
  simp only [ofWord?, h]

/-- Exactly the words of the form `Fx0A` wait for a key. -/
theorem isAwaitKey_iff {word : UInt16} : IsAwaitKey word ↔ ∃ x, ofWord? word = some (.awaitKey x) := by
  constructor
  · rintro ⟨x, rfl⟩
    exact ⟨x, ofWord?_toWord _⟩
  · rintro ⟨x, hx⟩
    exact ⟨x, (toWord_of_ofWord? hx).symm⟩

end Instruction

end Chip8
