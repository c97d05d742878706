/-
How a step comes out, decided from what is at the program counter. There are
five outcomes and each has its condition: no whole word there, a native
routine, a jump to itself that ends the program, an awaited key that nobody
holds, and everything else. The conditions exclude one another and leave
nothing out (`step_decided`).

A jump to itself is recognized after the program counter has moved on, by
arithmetic that wraps; below the end of memory that is the same as comparing
the target with the instruction's own address (`isSelf_iff`).
-/
import Chip8.Proofs.InstructionFacts
import Chip8.Proofs.StepFacts
import Mathlib.Tactic.SplitIfs

namespace Chip8

/-! ## The word at an address -/

theorem Memory.readWord_of_le (m : Memory) {a : UInt16} (h : a.toNat ≤ 0xFFE) :
    m.readWord a = some (wordOfBytes (m.read a) (m.read (a + 1))) := by
  have ha : a.toNat % memorySize = a.toNat := Nat.mod_eq_of_lt (by show a.toNat < 4096; omega)
  have hb : (a + 1).toNat % memorySize = a.toNat + 1 := by
    rw [UInt16.toNat_add]
    show (a.toNat + 1) % 65536 % 4096 = a.toNat + 1
    omega
  have hlt : a.toNat + 1 < memorySize := by show a.toNat + 1 < 4096; omega
  simp only [readWord, dif_pos hlt, read, cell, Fin.getElem_fin, ha, hb]

theorem Memory.readWord_of_lt (m : Memory) {a : UInt16} (h : 0xFFE < a.toNat) : m.readWord a = none := by
  have hlt : ¬ a.toNat + 1 < memorySize := by show ¬ a.toNat + 1 < 4096; omega
  rw [readWord, dif_neg hlt]

theorem Memory.le_of_readWord {m : Memory} {a word : UInt16} (h : m.readWord a = some word) : a.toNat ≤ 0xFFE := by
  refine Nat.le_of_not_lt fun hlt => ?_
  rw [m.readWord_of_lt hlt] at h
  cases h

/-! ## No key held -/

theorem SharedState.lowestKey?_eq_none_iff (s : SharedState) : s.lowestKey? = none ↔ s.keys = 0 := by
  unfold lowestKey?
  rw [Option.map_eq_none_iff, List.find?_eq_none]
  constructor
  · intro h
    have hbits : s.keys.toNat = 0 := by
      refine Nat.eq_of_testBit_eq fun k => ?_
      rw [Nat.zero_testBit]
      by_cases hk : k < 16
      · simpa using h k (List.mem_range.mpr hk)
      · refine Nat.testBit_lt_two_pow (Nat.lt_of_lt_of_le s.keys.toNat_lt ?_)
        exact Nat.pow_le_pow_right (by decide) (by omega)
    exact UInt16.toNat_inj.mp hbits
  · intro h k _
    simp [h]

namespace Machine

open Instruction (IsNative IsAwaitKey)

/-! ## Jumps to themselves -/

theorem add_two_eq_iff {a : UInt16} (ha : a.toNat ≤ 0xFFE) (target : Address) :
    UInt16.ofNat target.val + 2 = a + 2 ↔ target.val = a.toNat := by
  have ht := target.isLt
  rw [← UInt16.toNat_inj, UInt16.toNat_add, UInt16.toNat_add, UInt16.toNat_ofNat']
  show (target.val % 65536 + 2) % 65536 = (a.toNat + 2) % 65536 ↔ _
  omega

theorem toNat_selfJump {a : UInt16} (ha : a.toNat ≤ 0xFFE) : (selfJump a).toNat = 0x1000 + a.toNat := by
  have hor : (0x1000 ||| a.toNat) = 2 ^ 12 * 1 + a.toNat := by
    rw [Nat.two_pow_add_eq_or_of_lt (i := 12) (by omega)]
  rw [selfJump, UInt16.toNat_or]
  show (0x1000 ||| a.toNat) = _
  omega

theorem ofWord?_selfJump {a : UInt16} (ha : a.toNat ≤ 0xFFE) :
    Instruction.ofWord? (selfJump a) = some (.jump ⟨a.toNat, by omega⟩) := by
  have hclass : (selfJump a).toNat / 4096 = 1 := by
    rw [toNat_selfJump ha]
    omega
  rw [Instruction.ofWord?_of_class_one hclass, lastAddress]
  simp only [toNat_selfJump ha, Option.some.injEq, Instruction.jump.injEq, Fin.mk.injEq]
  omega

/-- A jump to its own address is the word that says so. -/
theorem eq_selfJump_iff {a word : UInt16} {target : Address} (ha : a.toNat ≤ 0xFFE)
    (h : Instruction.ofWord? word = some (.jump target)) : word = selfJump a ↔ target.val = a.toNat := by
  constructor
  · rintro rfl
    rw [ofWord?_selfJump ha] at h
    simp only [Option.some.injEq, Instruction.jump.injEq] at h
    rw [← h]
  · intro ht
    have hword := Instruction.toWord_of_ofWord? h
    rw [← hword, ← UInt16.toNat_inj, toNat_selfJump ha]
    simp only [Instruction.toWord, UInt16.toNat_ofNat']
    omega

/-- The comparison that a jump makes, the program counter being past it, tells
whether the jump is to itself. -/
theorem isSelf_iff {a word : UInt16} {target : Address} (ha : a.toNat ≤ 0xFFE)
    (h : Instruction.ofWord? word = some (.jump target)) :
    UInt16.ofNat target.val + 2 = a + 2 ↔ word = selfJump a := by
  rw [add_two_eq_iff ha, eq_selfJump_iff ha h]

theorem jump_outcome (m : Machine) (target : Address) :
    (m.jump target).2 =
      if UInt16.ofNat target.val + 2 = m.cpu.pc ∧ m.cpu.settings.endOnLoop = true then .halted
      else .continued := by
  unfold jump
  dsimp only
  split
  · next hne => rw [if_neg fun h => hne h.1]
  · next hself =>
    have hself := Decidable.not_not.mp hself
    split
    · next hend => rw [if_pos ⟨hself, hend⟩]
    · next hend =>
      have hgoes : ¬ (UInt16.ofNat target.val + 2 = m.cpu.pc ∧ m.cpu.settings.endOnLoop = true) :=
        fun h => hend h.2
      rw [if_neg hgoes]
      split <;> rfl

theorem jump_cycle (m : Machine) (target : Address) :
    (m.jump target).1.cpu.cycle =
      if UInt16.ofNat target.val + 2 = m.cpu.pc ∧ m.cpu.settings.endOnLoop = false ∧
        m.cpu.settings.restartOnLoop = true then 0
      else m.cpu.cycle := by
  unfold jump
  dsimp only
  split
  · next hne =>
    rw [if_neg fun h => hne h.1]
    exact (m.cpu.kept_jump target).cycle
  · next hself =>
    have hself := Decidable.not_not.mp hself
    split
    · next hend => rw [if_neg fun h => by simp [hend] at h]; rfl
    · next hend =>
      split
      · next hrestart =>
        rw [if_pos ⟨hself, by simpa using hend, hrestart⟩, restart_cpu]
        exact Processor.reset_cycle _
      · next hrestart =>
        rw [if_neg fun h => hrestart h.2.2]
        exact (m.cpu.kept_jump target).cycle

/-! ## What an instruction comes to -/

theorem awaitKey_outcome (m : Machine) (x : Register) :
    (m.awaitKey x).2 = if m.channel.shared.keys = 0 then .waiting else .continued := by
  unfold awaitKey
  split
  · next key hkey =>
    rw [if_neg]
    intro h0
    rw [(SharedState.lowestKey?_eq_none_iff _).mpr h0] at hkey
    cases hkey
  · next hnone => rw [if_pos ((SharedState.lowestKey?_eq_none_iff _).mp hnone)]

/-- Only jumps and awaited keys come out other than by going on. -/
theorem execute_continues (m : Machine) (random : UInt8) {i : Instruction} (hw : 1 ≤ m.screen.width)
    (hh : 1 ≤ m.screen.height) (hjump : ∀ target, i ≠ .jump target) (hkey : ∀ x, i ≠ .awaitKey x) :
    (m.execute random i).2 = .ok .continued := by
  cases i with
  | jump target => exact absurd rfl (hjump target)
  | awaitKey x => exact absurd rfl (hkey x)
  | draw x y rows =>
    have hsize : ¬ (m.screen.width = 0 ∨ m.screen.height = 0) := by omega
    show (m.draw x y rows).2 = _
    rw [draw_eq hsize]
  | _ => rfl

theorem execute_cycle (m : Machine) (random : UInt8) {i : Instruction} (hjump : ∀ target, i ≠ .jump target) :
    (m.execute random i).1.cpu.cycle = m.cpu.cycle := by
  by_cases h : i.leavesCalls = true
  · exact (m.execute_kept random h).cycle
  · cases i with
    | ret =>
      show m.returnToCaller.cpu.cycle = m.cpu.cycle
      unfold returnToCaller
      split <;> rfl
    | call target =>
      show (m.call target).cpu.cycle = m.cpu.cycle
      unfold call
      split <;> rfl
    | jump target => exact absurd rfl (hjump target)
    | _ => exact absurd rfl h

/-! ## What a word comes to -/

/-- How a step comes out that found the word at the program counter. -/
def verdict (m : Machine) (word : UInt16) : Except Fault Outcome :=
  if IsNative word then .error (.machineCode word m.cpu.pc)
  else if word = selfJump m.cpu.pc ∧ m.cpu.settings.endOnLoop = true then .ok .halted
  else if IsAwaitKey word ∧ m.channel.shared.keys = 0 then .ok .waiting
  else .ok .continued

/-- A word that stands for no jump does not jump to itself. -/
theorem ne_selfJump {a word : UInt16} (ha : a.toNat ≤ 0xFFE)
    (h : ∀ target, Instruction.ofWord? word ≠ some (.jump target)) : word ≠ selfJump a := by
  rintro rfl
  exact h _ (ofWord?_selfJump ha)

theorem ne_selfJump_of_instruction {a word : UInt16} {i : Instruction} (ha : a.toNat ≤ 0xFFE)
    (hi : Instruction.ofWord? word = some i) (hjump : ¬ ∃ target, i = .jump target) : word ≠ selfJump a := by
  refine ne_selfJump ha fun target htarget => hjump ⟨target, ?_⟩
  exact Option.some.inj (hi.symm.trans htarget)

theorem execute_result {m : Machine} {word : UInt16} {i : Instruction} (random : UInt8)
    (hw : 1 ≤ m.screen.width) (hh : 1 ≤ m.screen.height) (ha : m.cpu.pc.toNat ≤ 0xFFE)
    (hnative : ¬ IsNative word) (hi : Instruction.ofWord? word = some i) :
    ((m.fetched word).execute random i).2 = m.verdict word := by
  unfold verdict
  rw [if_neg hnative]
  -- A jump is no awaited key, an awaited key no jump, and nothing else decides.
  by_cases hjump : ∃ target, i = .jump target
  · obtain ⟨target, rfl⟩ := hjump
    have hkey : ¬ IsAwaitKey word := by
      rw [Instruction.isAwaitKey_iff]
      simp [hi]
    have hself := isSelf_iff ha hi
    show Except.ok ((m.fetched word).jump target).2 = _
    rw [jump_outcome, fetched_cpu]
    simp only [hself, hkey, false_and, if_false]
    split <;> rfl
  have hne : word ≠ selfJump m.cpu.pc := ne_selfJump_of_instruction ha hi hjump
  rw [if_neg fun h => hne h.1]
  by_cases hkey : ∃ x, i = .awaitKey x
  · obtain ⟨x, rfl⟩ := hkey
    have hform : IsAwaitKey word := Instruction.isAwaitKey_iff.mpr ⟨x, hi⟩
    show Except.ok ((m.fetched word).awaitKey x).2 = _
    rw [awaitKey_outcome, fetched_shared]
    simp only [hform, true_and]
    split <;> rfl
  · have hform : ¬ IsAwaitKey word := by
      rw [Instruction.isAwaitKey_iff, hi]
      simpa using hkey
    rw [if_neg fun h => hform h.1]
    refine execute_continues _ random (by simpa using hw) (by simpa using hh) ?_ ?_
    · exact fun target h => hjump ⟨target, h⟩
    · exact fun x h => hkey ⟨x, h⟩

theorem step_result {m : Machine} {word : UInt16} (random : UInt8) (hw : 1 ≤ m.screen.width)
    (hh : 1 ≤ m.screen.height) (ha : m.cpu.pc.toNat ≤ 0xFFE)
    (hword : m.cpu.memory.readWord m.cpu.pc = some word) : (m.step random).2 = m.verdict word := by
  cases hi : Instruction.ofWord? word with
  | some i =>
    have hnative : ¬ IsNative word := fun h => by
      rw [(Instruction.ofWord?_eq_none_iff h.1).mpr h] at hi
      cases hi
    rw [step_of_instruction random hword hi]
    exact execute_result random hw hh ha hnative hi
  | none =>
    by_cases hclass : word.toNat < 0x1000
    · have hnative : IsNative word := (Instruction.ofWord?_eq_none_iff hclass).mp hi
      rw [step_of_machineCode random hword hi hclass, verdict, if_pos hnative]
    · have hself : word ≠ selfJump m.cpu.pc := ne_selfJump ha (by simp [hi])
      have hkey : ¬ IsAwaitKey word := by
        rw [Instruction.isAwaitKey_iff]
        simp [hi]
      rw [step_of_ignored random hword hi hclass, verdict, if_neg fun h => hclass h.1,
        if_neg fun h => hself h.1, if_neg fun h => hkey h.1]

/-- A step counts itself, unless it starts the program over. -/
theorem step_cycle {m : Machine} {word : UInt16} (random : UInt8) (ha : m.cpu.pc.toNat ≤ 0xFFE)
    (hword : m.cpu.memory.readWord m.cpu.pc = some word) :
    (m.step random).1.cpu.cycle =
      if word = selfJump m.cpu.pc ∧ m.cpu.settings.endOnLoop = false ∧
        m.cpu.settings.restartOnLoop = true then 0
      else m.cpu.cycle + 1 := by
  have hcount : (m.fetched word).cpu.cycle = m.cpu.cycle + 1 := by rw [fetched_cpu]
  cases hi : Instruction.ofWord? word with
  | some i =>
    rw [step_of_instruction random hword hi]
    by_cases hjump : ∃ target, i = .jump target
    · obtain ⟨target, rfl⟩ := hjump
      have hself := isSelf_iff ha hi
      show ((m.fetched word).jump target).1.cpu.cycle = _
      rw [jump_cycle, fetched_cpu]
      simp only [hself]
    · have hself : word ≠ selfJump m.cpu.pc := ne_selfJump_of_instruction ha hi hjump
      rw [if_neg fun h => hself h.1, ← hcount]
      exact execute_cycle _ random fun target h => hjump ⟨target, h⟩
  | none =>
    rw [if_neg fun h => ne_selfJump ha (by simp [hi]) h.1, ← hcount]
    by_cases hclass : word.toNat < 0x1000
    · rw [step_of_machineCode random hword hi hclass]
    · rw [step_of_ignored random hword hi hclass]
      rfl

/-! ## The five outcomes -/

/-- The forms that decide an outcome exclude one another: they are of classes
0, 1 and 15. -/
theorem not_isNative_selfJump {a : UInt16} (ha : a.toNat ≤ 0xFFE) : ¬ IsNative (selfJump a) := by
  intro h
  have hclass := h.1
  rw [toNat_selfJump ha] at hclass
  omega

theorem not_isNative_awaitKey {word : UInt16} (h : IsAwaitKey word) : ¬ IsNative word := by
  intro hnative
  obtain ⟨x, hx⟩ := Instruction.isAwaitKey_iff.mp h
  rw [(Instruction.ofWord?_eq_none_iff hnative.1).mpr hnative] at hx
  cases hx

theorem ne_selfJump_awaitKey {a word : UInt16} (ha : a.toNat ≤ 0xFFE) (h : IsAwaitKey word) :
    word ≠ selfJump a := by
  obtain ⟨x, hx⟩ := Instruction.isAwaitKey_iff.mp h
  exact ne_selfJump ha (by simp [hx])

theorem verdict_eq_machineCode_iff (m : Machine) (word : UInt16) :
    m.verdict word = .error (.machineCode word m.cpu.pc) ↔ IsNative word := by
  unfold verdict
  split_ifs with hnative <;> simp_all

theorem verdict_eq_halted_iff {m : Machine} (word : UInt16) (ha : m.cpu.pc.toNat ≤ 0xFFE) :
    m.verdict word = .ok .halted ↔ word = selfJump m.cpu.pc ∧ m.cpu.settings.endOnLoop = true := by
  have hexcl : IsNative word → word ≠ selfJump m.cpu.pc := by
    rintro hnative rfl
    exact not_isNative_selfJump ha hnative
  unfold verdict
  split_ifs with hnative hself hkey
  · simp [hexcl hnative]
  · simp [hself]
  · simp [hself]
  · simp [hself]

theorem verdict_eq_waiting_iff {m : Machine} (word : UInt16) (ha : m.cpu.pc.toNat ≤ 0xFFE) :
    m.verdict word = .ok .waiting ↔ IsAwaitKey word ∧ m.channel.shared.keys = 0 := by
  unfold verdict
  split_ifs with hnative hself hkey
  · have hform : ¬ IsAwaitKey word := fun h => not_isNative_awaitKey h hnative
    simp [hform]
  · have hform : ¬ IsAwaitKey word := fun h => ne_selfJump_awaitKey ha h hself.1
    simp [hform]
  · simp [hkey]
  · simp [hkey]

theorem verdict_eq_continued_iff (m : Machine) (word : UInt16) :
    m.verdict word = .ok .continued ↔
      ¬ IsNative word ∧ ¬ (word = selfJump m.cpu.pc ∧ m.cpu.settings.endOnLoop = true) ∧
        ¬ (IsAwaitKey word ∧ m.channel.shared.keys = 0) := by
  unfold verdict
  split_ifs with hnative hself hkey
  · simp [hnative]
  · simp [hself]
  · simp [hkey]
  · exact ⟨fun _ => ⟨hnative, hself, hkey⟩, fun _ => rfl⟩

theorem step_of_isNative {m : Machine} {word : UInt16} (random : UInt8)
    (hword : m.cpu.memory.readWord m.cpu.pc = some word) (h : IsNative word) :
    (m.step random).1 = m.fetched word := by
  have hi : Instruction.ofWord? word = none := (Instruction.ofWord?_eq_none_iff h.1).mpr h
  rw [step_of_machineCode random hword hi h.1]

/-- **The outcome of a step, decided completely.** Above `0xFFE` there is no
whole word to fetch, and nothing happens. Below, the word at the program counter
and the keys decide between a fault, a halt, a wait and going on. -/
theorem step_decided (m : Machine) (random : UInt8) (hw : 1 ≤ m.screen.width) (hh : 1 ≤ m.screen.height) :
    let address := m.cpu.pc
    let word := wordOfBytes (m.cpu.memory.read address) (m.cpu.memory.read (address + 1))
    let after := (m.step random).1
    let result := (m.step random).2
    (result = .error (.fetchOutOfBounds address) ↔ 0xFFE < address.toNat) ∧
    (0xFFE < address.toNat → after = m) ∧
    (address.toNat ≤ 0xFFE →
      (result = .error (.machineCode word address) ↔ IsNative word) ∧
      (IsNative word → ∃ lines fromV0,
        (m.cpu.settings.debug = false → lines = #[] ∧ fromV0 = m.cpu.tracer.jumpsFromV0) ∧
        after = { m with
          cpu := { m.cpu with
            pc := address + 2, cycle := m.cpu.cycle + 1
            tracer := { m.cpu.tracer with jumpsFromV0 := fromV0 } }
          channel := { m.channel with
            journal := { m.channel.journal with printed := m.channel.journal.printed ++ lines } } }) ∧
      (result = .ok .halted ↔ word = selfJump address ∧ m.cpu.settings.endOnLoop = true) ∧
      (result = .ok .waiting ↔ IsAwaitKey word ∧ m.channel.shared.keys = 0) ∧
      (result = .ok .continued ↔
        ¬ IsNative word ∧ ¬ (word = selfJump address ∧ m.cpu.settings.endOnLoop = true) ∧
          ¬ (IsAwaitKey word ∧ m.channel.shared.keys = 0)) ∧
      after.cpu.cycle =
        if word = selfJump address ∧ m.cpu.settings.endOnLoop = false ∧
          m.cpu.settings.restartOnLoop = true then 0
        else m.cpu.cycle + 1) := by
  intro address word after result
  by_cases ha : address.toNat ≤ 0xFFE
  · have hword : m.cpu.memory.readWord address = some word := Memory.readWord_of_le _ ha
    have hresult : result = m.verdict word := step_result random hw hh ha hword
    have hfetch : result ≠ .error (.fetchOutOfBounds address) := by
      rw [hresult]
      unfold verdict
      split_ifs <;> simp
    refine ⟨⟨fun h => absurd h hfetch, fun h => absurd ha (by omega)⟩, fun h => absurd ha (by omega),
      fun _ => ?_⟩
    rw [hresult]
    refine ⟨m.verdict_eq_machineCode_iff word, fun hnative => ?_, verdict_eq_halted_iff word ha,
      verdict_eq_waiting_iff word ha, m.verdict_eq_continued_iff word, step_cycle random ha hword⟩
    refine ⟨m.traceLines word, m.listsFromV0 word, fun hquiet => ?_, ?_⟩
    · simp [traceLines, listsFromV0, traces, hquiet]
    · exact (step_of_isNative random hword hnative).trans (m.fetched_eq word)
  · have hstep := step_of_no_word random (m.cpu.memory.readWord_of_lt (Nat.lt_of_not_le ha))
    refine ⟨⟨fun _ => Nat.lt_of_not_le ha, fun _ => by rw [show result = _ from congrArg Prod.snd hstep]⟩,
      fun _ => congrArg Prod.fst hstep, fun h => absurd h ha⟩

/-- A machine whose memory is `12` throughout halts at `212`. -/
theorem step_decided_halts :
    let m : Machine :=
      { cpu := {
          memory := { Memory.new 0x50 0x200 with cells := Vector.replicate memorySize 0x12 }
          pc := 0x212 } }
    1 ≤ m.screen.width ∧ 1 ≤ m.screen.height ∧ (m.step 0).2 = .ok .halted := by
  intro m
  have hw : 1 ≤ m.screen.width := by decide
  have hh : 1 ≤ m.screen.height := by decide
  obtain ⟨-, -, hbelow⟩ := step_decided m 0 hw hh
  obtain ⟨-, -, hhalts, -⟩ := hbelow (by decide)
  refine ⟨hw, hh, hhalts.mpr ⟨?_, rfl⟩⟩
  simp only [m, Memory.read, Fin.getElem_fin, Vector.getElem_replicate]
  decide

end Machine

end Chip8
