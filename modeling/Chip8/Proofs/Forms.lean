/-
The instruction set as a table of 34 forms. A form has four places, one for each digit
of a word, and at each of them either a digit, which has to be there, or a letter, which
stands for a digit of an operand.

The table is written without a look at how words are read, and reading keeps to it: a
word stands for an instruction exactly if it has one of the forms, no word has two of
them, and the instruction is that of the form with the operands that its letters spell.
What is read and what is written are inverse to each other (`decode_keeps_to_forms`).
-/
import Chip8.Proofs.InstructionFacts
import Mathlib.Data.List.Pairwise

namespace Chip8

namespace Instruction

/-! ## Forms -/

/-- What stands at a place of a form: a digit, or the letter of an operand. The letters
are `a` for an address, `b` for a byte, `x` and `y` for registers and `n` for a number of
rows. -/
inductive Place where
  | digit (d : Nat)
  | a
  | b
  | x
  | y
  | n
deriving DecidableEq, Repr

instance (d : Nat) : OfNat Place d := ⟨.digit d⟩

/-- Operands, by their letters. -/
structure Operands where
  a : Address := 0
  b : UInt8 := 0
  x : Register := 0
  y : Register := 0
  n : Nibble := 0

/-- A form: what stands at its places, the highest digit first, and the instruction
that it is once it has its operands. -/
structure Form where
  first : Place
  second : Place
  third : Place
  fourth : Place
  instruction : Operands → Instruction

/-- All forms. -/
def forms : List Form := [
  ⟨0, 0, 0xE, 0, fun _ => .clearScreen⟩,
  ⟨0, 0, 0xE, 0xE, fun _ => .ret⟩,
  ⟨1, .a, .a, .a, fun o => .jump o.a⟩,
  ⟨2, .a, .a, .a, fun o => .call o.a⟩,
  ⟨3, .x, .b, .b, fun o => .skipIfByte o.x o.b⟩,
  ⟨4, .x, .b, .b, fun o => .skipUnlessByte o.x o.b⟩,
  ⟨5, .x, .y, 0, fun o => .skipIfEqual o.x o.y⟩,
  ⟨6, .x, .b, .b, fun o => .setByte o.x o.b⟩,
  ⟨7, .x, .b, .b, fun o => .addByte o.x o.b⟩,
  ⟨8, .x, .y, 0, fun o => .compute .copy o.x o.y⟩,
  ⟨8, .x, .y, 1, fun o => .compute .or o.x o.y⟩,
  ⟨8, .x, .y, 2, fun o => .compute .and o.x o.y⟩,
  ⟨8, .x, .y, 3, fun o => .compute .xor o.x o.y⟩,
  ⟨8, .x, .y, 4, fun o => .compute .add o.x o.y⟩,
  ⟨8, .x, .y, 5, fun o => .compute .sub o.x o.y⟩,
  ⟨8, .x, .y, 6, fun o => .compute .shiftRight o.x o.y⟩,
  ⟨8, .x, .y, 7, fun o => .compute .reverseSub o.x o.y⟩,
  ⟨8, .x, .y, 0xE, fun o => .compute .shiftLeft o.x o.y⟩,
  ⟨9, .x, .y, 0, fun o => .skipUnlessEqual o.x o.y⟩,
  ⟨0xA, .a, .a, .a, fun o => .setIndex o.a⟩,
  ⟨0xB, .a, .a, .a, fun o => .jumpIndexed o.a⟩,
  ⟨0xC, .x, .b, .b, fun o => .random o.x o.b⟩,
  ⟨0xD, .x, .y, .n, fun o => .draw o.x o.y o.n⟩,
  ⟨0xE, .x, 9, 0xE, fun o => .skipIfKey o.x⟩,
  ⟨0xE, .x, 0xA, 1, fun o => .skipUnlessKey o.x⟩,
  ⟨0xF, .x, 0, 7, fun o => .getDelay o.x⟩,
  ⟨0xF, .x, 0, 0xA, fun o => .awaitKey o.x⟩,
  ⟨0xF, .x, 1, 5, fun o => .setDelay o.x⟩,
  ⟨0xF, .x, 1, 8, fun o => .setSound o.x⟩,
  ⟨0xF, .x, 1, 0xE, fun o => .addIndex o.x⟩,
  ⟨0xF, .x, 2, 9, fun o => .glyph o.x⟩,
  ⟨0xF, .x, 3, 3, fun o => .decimal o.x⟩,
  ⟨0xF, .x, 5, 5, fun o => .store o.x⟩,
  ⟨0xF, .x, 6, 5, fun o => .load o.x⟩]

/-! ## Words of a form -/

/-- A digit fits at a place: it is the one that has to be there, or there is a letter. -/
def Place.Fits (p : Place) (d : Nat) : Prop :=
  match p with
  | .digit e => d = e
  | _ => True

instance (p : Place) (d : Nat) : Decidable (p.Fits d) :=
  match p with
  | .digit e => inferInstanceAs (Decidable (d = e))
  | .a | .b | .x | .y | .n => .isTrue trivial

/-- The word has the form. -/
def Form.Matches (f : Form) (w : BitVec 16) : Prop :=
  f.first.Fits (w.extractLsb 15 12).toNat ∧ f.second.Fits (w.extractLsb 11 8).toNat ∧
    f.third.Fits (w.extractLsb 7 4).toNat ∧ f.fourth.Fits (w.extractLsb 3 0).toNat

instance (f : Form) (w : BitVec 16) : Decidable (f.Matches w) := inferInstanceAs (Decidable (_ ∧ _))

/-- The number that a letter of the form spells in a word: the digits at its places. -/
def Form.spelled (f : Form) (letter : Place) (w : BitVec 16) : Nat :=
  let add (acc : Nat) (p : Place) (d : Nat) : Nat := if p = letter then 16 * acc + d else acc
  add (add (add (add 0 f.first (w.extractLsb 15 12).toNat) f.second (w.extractLsb 11 8).toNat)
    f.third (w.extractLsb 7 4).toNat) f.fourth (w.extractLsb 3 0).toNat

/-- The operands that the letters of the form spell in a word. -/
def Form.operands (f : Form) (w : BitVec 16) : Operands where
  a := lastAddress (f.spelled .a w)
  b := UInt8.ofNat (f.spelled .b w)
  x := lastDigit (f.spelled .x w)
  y := lastDigit (f.spelled .y w)
  n := lastDigit (f.spelled .n w)

/-- The operands by the bits of a word that they are in. -/
def Operands.ofBits (w : BitVec 16) : Operands where
  a := (w.extractLsb 11 0).toFin
  b := ⟨w.extractLsb 7 0⟩
  x := (w.extractLsb 11 8).toFin
  y := (w.extractLsb 7 4).toFin
  n := (w.extractLsb 3 0).toFin

section Digits

variable (w : BitVec 16)

theorem toNat_first : (w.extractLsb 15 12).toNat = w.toNat / 4096 := by
  have hlt := w.isLt
  simp only [BitVec.extractLsb_toNat, Nat.shiftRight_eq_div_pow]
  omega

theorem toNat_second : (w.extractLsb 11 8).toNat = w.toNat / 256 % 16 := by
  simp [BitVec.extractLsb_toNat, Nat.shiftRight_eq_div_pow]

theorem toNat_third : (w.extractLsb 7 4).toNat = w.toNat / 16 % 16 := by
  simp [BitVec.extractLsb_toNat, Nat.shiftRight_eq_div_pow]

theorem toNat_fourth : (w.extractLsb 3 0).toNat = w.toNat % 16 := by
  simp [BitVec.extractLsb_toNat]

theorem Form.matches_iff (f : Form) :
    f.Matches w ↔ f.first.Fits (w.toNat / 4096) ∧ f.second.Fits (w.toNat / 256 % 16) ∧
      f.third.Fits (w.toNat / 16 % 16) ∧ f.fourth.Fits (w.toNat % 16) := by
  rw [Matches, toNat_first, toNat_second, toNat_third, toNat_fourth]

namespace Operands

@[simp] theorem ofBits_a : ((ofBits w).a : Nat) = w.toNat % 4096 := by
  simp [ofBits]

@[simp] theorem ofBits_b : (ofBits w).b.toNat = w.toNat % 256 := by
  simp [ofBits, BitVec.extractLsb_toNat, UInt8.toNat]

@[simp] theorem ofBits_x : ((ofBits w).x : Nat) = w.toNat / 256 % 16 := toNat_second w

@[simp] theorem ofBits_y : ((ofBits w).y : Nat) = w.toNat / 16 % 16 := toNat_third w

@[simp] theorem ofBits_n : ((ofBits w).n : Nat) = w.toNat % 16 := toNat_fourth w

end Operands

end Digits

/-! ## No word has two forms -/

/-- The places ask for different digits. -/
def Place.differs : Place → Place → Bool
  | .digit d, .digit e => d != e
  | _, _ => false

theorem Place.not_fits_of_differs {p q : Place} (h : p.differs q = true) {d : Nat} (hp : p.Fits d) :
    ¬ q.Fits d := by
  cases p <;> cases q <;> simp_all [differs, Fits]

/-- The forms ask for different digits at one of their places. -/
def Form.excludes (f g : Form) : Bool :=
  f.first.differs g.first || f.second.differs g.second || f.third.differs g.third ||
    f.fourth.differs g.fourth

theorem Form.not_matches_of_excludes {f g : Form} (h : f.excludes g = true) {w : BitVec 16}
    (hf : f.Matches w) : ¬ g.Matches w := by
  intro hg
  simp only [excludes, Bool.or_eq_true] at h
  rcases h with ((h | h) | h) | h
  · exact Place.not_fits_of_differs h hf.1 hg.1
  · exact Place.not_fits_of_differs h hf.2.1 hg.2.1
  · exact Place.not_fits_of_differs h hf.2.2.1 hg.2.2.1
  · exact Place.not_fits_of_differs h hf.2.2.2 hg.2.2.2

theorem forms_exclude : forms.Pairwise fun f g => f.excludes g = true := by decide

theorem eq_of_matches {f g : Form} (hf : f ∈ forms) (hg : g ∈ forms) {w : BitVec 16}
    (hfw : f.Matches w) (hgw : g.Matches w) : g = f := by
  by_contra hne
  have hone : forms.Pairwise fun f g => ¬ (f.Matches w ∧ g.Matches w) := by
    refine forms_exclude.imp ?_
    rintro f g h ⟨hf, hg⟩
    exact Form.not_matches_of_excludes h hf hg
  have : Std.Symm fun f g : Form => ¬ (f.Matches w ∧ g.Matches w) :=
    ⟨fun _ _ h hboth => h hboth.symm⟩
  exact hone.forall hg hf hne ⟨hgw, hfw⟩

/-! ## Reading a word of a form -/

/-- A word by its digits, with the address and the byte that end it. -/
theorem toNat_eq_digits (w : BitVec 16) :
    w.toNat = w.toNat / 4096 * 4096 + w.toNat % 4096 ∧
      w.toNat % 4096 = w.toNat / 256 % 16 * 256 + w.toNat % 256 ∧
      w.toNat % 256 = w.toNat / 16 % 16 * 16 + w.toNat % 16 := by
  omega

/-- With the operands in its bits, the instruction of a form is written as the word it
was read off. -/
theorem toWord_of_matches {f : Form} (hf : f ∈ forms) {word : UInt16} (h : f.Matches word.toBitVec) :
    (f.instruction (.ofBits word.toBitVec)).toWord = word := by
  have hlt := word.toNat_lt
  obtain ⟨hword, haddress, hbyte⟩ := toNat_eq_digits word.toBitVec
  rw [Form.matches_iff] at h
  rw [← UInt16.toNat_inj]
  revert f
  simp only [forms, List.forall_mem_cons, List.not_mem_nil, false_imp_iff, implies_true, and_true,
    Place.Fits, true_and, toWord, AluOp.digit, UInt16.toNat_ofNat', UInt16.toNat_toBitVec,
    Operands.ofBits_a, Operands.ofBits_b, Operands.ofBits_x, Operands.ofBits_y,
    Operands.ofBits_n] at hword haddress hbyte ⊢
  -- The digits are numbers like any others from here on: the cases divide nothing.
  generalize word.toNat / 4096 = first, word.toNat / 256 % 16 = second, word.toNat / 16 % 16 = third,
    word.toNat % 16 = fourth, word.toNat % 256 = byte, word.toNat % 4096 = address,
    word.toNat = n at *
  and_intros <;> intro h <;> omega

/-- The operands of an instruction. -/
def operands : Instruction → Operands
  | .clearScreen | .ret => {}
  | .jump a | .call a | .setIndex a | .jumpIndexed a => { a }
  | .skipIfByte x b | .skipUnlessByte x b | .setByte x b | .addByte x b | .random x b => { x, b }
  | .skipIfEqual x y | .compute _ x y | .skipUnlessEqual x y => { x, y }
  | .draw x y n => { x, y, n }
  | .skipIfKey x | .skipUnlessKey x | .getDelay x | .awaitKey x | .setDelay x | .setSound x | .addIndex x
  | .glyph x | .decimal x | .store x | .load x => { x }

/-- Every instruction is that of a form, with its operands. -/
theorem exists_form (i : Instruction) : ∃ f ∈ forms, f.instruction i.operands = i := by
  simp only [forms, List.mem_cons, exists_eq_or_imp]
  -- Down the table to the one row that has the same constructor.
  cases i with
  | compute op x y => cases op <;> repeat first | exact .inl rfl | apply Or.inr
  | _ => repeat first | exact .inl rfl | apply Or.inr

/-- The instruction of a form is written in that form. -/
theorem matches_toWord {f : Form} (hf : f ∈ forms) (o : Operands) :
    f.Matches (f.instruction o).toWord.toBitVec := by
  have ha := o.a.isLt
  have hb := o.b.toNat_lt
  have hx := o.x.isLt
  have hy := o.y.isLt
  have hn := o.n.isLt
  rw [Form.matches_iff, UInt16.toNat_toBitVec]
  revert f
  simp only [forms, List.forall_mem_cons, List.not_mem_nil, false_imp_iff, implies_true, and_true,
    Place.Fits, true_and, toWord, AluOp.digit, UInt16.toNat_ofNat']
  and_intros <;> omega

theorem Place.ofNat_eq (d : Nat) : (no_index (OfNat.ofNat d) : Place) = .digit d := rfl

/-- The operands that the letters spell are in the bits of the word that go by the same
letters, as far as the instruction of the form asks for them. -/
theorem instruction_operands {f : Form} (hf : f ∈ forms) (w : BitVec 16) :
    f.instruction (f.operands w) = f.instruction (.ofBits w) := by
  have ha : lastAddress (16 * (16 * (w.toNat / 256 % 16) + w.toNat / 16 % 16) + w.toNat % 16) =
      (Operands.ofBits w).a := by
    refine Fin.ext ?_
    simp only [lastAddress, Operands.ofBits_a]
    omega
  have hb : UInt8.ofNat (16 * (w.toNat / 16 % 16) + w.toNat % 16) = (Operands.ofBits w).b := by
    rw [← UInt8.toNat_inj]
    simp only [UInt8.toNat_ofNat', Operands.ofBits_b]
    omega
  have hx : lastDigit (w.toNat / 256 % 16) = (Operands.ofBits w).x := Fin.ext (by simp [lastDigit])
  have hy : lastDigit (w.toNat / 16 % 16) = (Operands.ofBits w).y := Fin.ext (by simp [lastDigit])
  have hn : lastDigit (w.toNat % 16) = (Operands.ofBits w).n := Fin.ext (by simp [lastDigit])
  revert f
  simp only [forms, List.forall_mem_cons, List.not_mem_nil, false_imp_iff, implies_true, and_true,
    Form.operands, Form.spelled, Place.ofNat_eq, reduceCtorEq, if_true, if_false, toNat_second,
    toNat_third, toNat_fourth, Nat.mul_zero, Nat.zero_add, ha, hb, hx, hy, hn]

/-- A word of a form stands for the instruction of that form. -/
theorem ofWord?_of_matches {f : Form} (hf : f ∈ forms) {word : UInt16} (h : f.Matches word.toBitVec) :
    ofWord? word = some (f.instruction (.ofBits word.toBitVec)) := by
  have hread := ofWord?_toWord (f.instruction (.ofBits word.toBitVec))
  rwa [toWord_of_matches hf h] at hread

/-- A word that stands for an instruction has a form. -/
theorem exists_matches_of_ofWord? {word : UInt16} {i : Instruction} (h : ofWord? word = some i) :
    ∃ f ∈ forms, f.Matches word.toBitVec := by
  obtain ⟨f, hf, hi⟩ := exists_form i
  have hform := matches_toWord hf i.operands
  rw [hi, toWord_of_ofWord? h] at hform
  exact ⟨f, hf, hform⟩

/-! ## Bytes -/

section Bytes

variable (high low : UInt8)

theorem toBitVec_wordOfBytes : (wordOfBytes high low).toBitVec = high.toBitVec ++ low.toBitVec := by
  have hhigh := high.toNat_lt
  have hlow := low.toNat_lt
  refine BitVec.eq_of_toNat_eq ?_
  rw [BitVec.toNat_append, UInt8.toNat_toBitVec, UInt8.toNat_toBitVec, UInt16.toNat_toBitVec,
    ← Nat.shiftLeft_add_eq_or_of_lt hlow, Nat.shiftLeft_eq, wordOfBytes, UInt16.toNat_ofNat']
  omega

theorem highByte_wordOfBytes : highByte (wordOfBytes high low) = high := by
  have hhigh := high.toNat_lt
  have hlow := low.toNat_lt
  rw [← UInt8.toNat_inj]
  simp only [highByte, wordOfBytes, UInt8.toNat_ofNat', UInt16.toNat_ofNat']
  omega

theorem lowByte_wordOfBytes : lowByte (wordOfBytes high low) = low := by
  have hhigh := high.toNat_lt
  have hlow := low.toNat_lt
  rw [← UInt8.toNat_inj]
  simp only [lowByte, wordOfBytes, UInt8.toNat_ofNat', UInt16.toNat_ofNat']
  omega

theorem wordOfBytes_highByte_lowByte (word : UInt16) : wordOfBytes (highByte word) (lowByte word) = word := by
  have hlt := word.toNat_lt
  rw [← UInt16.toNat_inj]
  simp only [highByte, lowByte, wordOfBytes, UInt8.toNat_ofNat', UInt16.toNat_ofNat']
  omega

end Bytes

variable {high low : UInt8} {rest : List UInt8}

theorem decode_of_matches {f : Form} (hf : f ∈ forms) (h : f.Matches (high.toBitVec ++ low.toBitVec)) :
    decode (high :: low :: rest) =
      .ok (f.instruction (.ofBits (high.toBitVec ++ low.toBitVec)), rest) := by
  rw [← toBitVec_wordOfBytes] at h ⊢
  simp only [decode, ofWord?_of_matches hf h]

theorem decode_of_not_matches (h : ∀ f ∈ forms, ¬ f.Matches (high.toBitVec ++ low.toBitVec)) :
    decode (high :: low :: rest) = .error .unknownWord := by
  rw [← toBitVec_wordOfBytes] at h
  cases hword : ofWord? (wordOfBytes high low) with
  | none => simp only [decode, hword]
  | some i =>
    obtain ⟨f, hf, hform⟩ := exists_matches_of_ofWord? hword
    exact absurd hform (h f hf)

/-- What is read is written as the bytes it was read off. -/
theorem toWord_of_decode {i : Instruction} {tail : List UInt8}
    (h : decode (high :: low :: rest) = .ok (i, tail)) : i.toWord = wordOfBytes high low := by
  cases hword : ofWord? (wordOfBytes high low) with
  | none => simp [decode, hword] at h
  | some j =>
    simp only [decode, hword, Except.ok.injEq, Prod.mk.injEq] at h
    rw [← h.1]
    exact toWord_of_ofWord? hword

theorem encode_eq (i : Instruction) (buffer : List UInt8) :
    i.encode buffer =
      if 2 ≤ buffer.length then .ok (2, highByte i.toWord :: lowByte i.toWord :: buffer.drop 2)
      else .error .unexpectedEnd := by
  match buffer with
  | [] | [_] => rfl
  | _ :: _ :: _ => simp [encode]

/-- Bytes are an instruction exactly if their word has one of the 34 forms. The form is
the only one that it has, the instruction is that of the form, with the operands that are
in the bits of the word, and the bytes after the word are left as they are. Written into
a buffer, the instruction is the two bytes again. And every instruction is read back from
what it is written as. -/
theorem decode_keeps_to_forms :
    forms.length = 34 ∧
    (∀ (high low : UInt8) (rest : List UInt8), let word := high.toBitVec ++ low.toBitVec
      ((∃ read, decode (high :: low :: rest) = .ok read) ↔ ∃ f ∈ forms, f.Matches word) ∧
      ((∀ f ∈ forms, ¬ f.Matches word) → decode (high :: low :: rest) = .error .unknownWord) ∧
      (∀ f ∈ forms, f.Matches word →
        (∀ g ∈ forms, g.Matches word → g = f) ∧
        f.instruction (f.operands word) = f.instruction (.ofBits word) ∧
        decode (high :: low :: rest) = .ok (f.instruction (.ofBits word), rest)) ∧
      (∀ i tail, decode (high :: low :: rest) = .ok (i, tail) → ∀ buffer,
        i.encode buffer =
          if 2 ≤ buffer.length then .ok (2, high :: low :: buffer.drop 2) else .error .unexpectedEnd)) ∧
    (∀ (i : Instruction) (buffer : List UInt8), 2 ≤ buffer.length →
      ∃ written, i.encode buffer = .ok (2, written) ∧ decode written = .ok (i, buffer.drop 2)) := by
  refine ⟨rfl, ?_, ?_⟩
  · intro high low rest word
    refine ⟨⟨?_, ?_⟩, decode_of_not_matches, ?_, ?_⟩
    · rintro ⟨read, hread⟩
      by_contra hnone
      have hrefused : decode (high :: low :: rest) = .error .unknownWord :=
        decode_of_not_matches fun f hf h => hnone ⟨f, hf, h⟩
      rw [hrefused] at hread
      cases hread
    · rintro ⟨f, hf, h⟩
      exact ⟨_, decode_of_matches hf h⟩
    · intro f hf h
      exact ⟨fun g hg => eq_of_matches hf hg h, instruction_operands hf word, decode_of_matches hf h⟩
    · intro i tail hread buffer
      rw [encode_eq, toWord_of_decode hread, highByte_wordOfBytes, lowByte_wordOfBytes]
  · intro i buffer hlen
    refine ⟨highByte i.toWord :: lowByte i.toWord :: buffer.drop 2, ?_, ?_⟩
    · rw [encode_eq, if_pos hlen]
    · simp only [decode, wordOfBytes_highByte_lowByte, ofWord?_toWord]

/-- `D125` draws five rows at (v1, v2), and is written over the front of a buffer. -/
theorem decode_keeps_to_forms_draw :
    decode [0xD1, 0x25, 0xFF] = .ok (.draw 1 2 5, [0xFF]) ∧
      (draw 1 2 5).encode [0, 0, 7] = .ok (2, [0xD1, 0x25, 7]) := by
  have hword := decode_keeps_to_forms.2.1 0xD1 0x25 [0xFF]
  obtain ⟨-, -, hread⟩ :=
    hword.2.2.1 ⟨0xD, .x, .y, .n, fun o => .draw o.x o.y o.n⟩ (by simp [forms]) (by decide)
  exact ⟨hread, hword.2.2.2 _ _ hread [0, 0, 7]⟩

end Instruction

end Chip8
