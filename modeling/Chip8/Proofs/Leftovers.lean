/-
What a processor carries along without ever showing it: the slots above the
cursor of its call stack, and which offset its tracer last named for indexed
jumps. A machine in which these are swapped for others takes the same step, and
ends up differing in them at most (`step_alike`).

Most instructions look at neither, so swapping them before or after is the same
thing. Returns and calls see the live addresses alone, starting over forgets
them all, and the tracer is set up anew before each line it prints.
-/
import Chip8.Proofs.StepFacts

namespace Chip8

namespace CallStack

theorem top_eq_of_live_eq {s t : CallStack} (h : s.live = t.live) : s.top = t.top := by
  rw [← length_live s, ← length_live t, h]

theorem pop_eq_error_iff (s : CallStack) {fault : Fault} :
    s.pop.2 = .error fault ↔ s.top = 0 ∧ fault = .stackUnderflow := by
  unfold pop
  split
  · next h => simp [h, eq_comm]
  · next h => simp [h]

theorem push_eq_error_iff (s : CallStack) (a : UInt16) {fault : Fault} :
    (s.push a).2 = .error fault ↔ ¬ s.top < stackDepth ∧ fault = .stackOverflow a stackDepth := by
  unfold push
  split
  · next h => simp [h]
  · next h => simp [h, eq_comm]

/-- Stacks with the same live addresses return to the same one, and have the same left. -/
theorem pop_of_live_eq {s t : CallStack} (h : s.live = t.live) :
    s.pop.2 = t.pop.2 ∧ s.pop.1.live = t.pop.1.live := by
  have htop := top_eq_of_live_eq h
  cases ht : t.top with
  | zero =>
    rw [pop_of_top_zero ht, pop_of_top_zero (htop.trans ht)]
    exact ⟨rfl, h⟩
  | succ n =>
    have hn : n < stackDepth := by have := t.top_le; omega
    have hs := pop_of_top_succ (htop.trans ht) hn
    have ht := pop_of_top_succ ht hn
    have hlive := (live_pop hs).symm.trans (h.trans (live_pop ht))
    obtain ⟨hrest, hlast⟩ := List.append_inj' hlive rfl
    injection hlast with hlast
    rw [hs, ht]
    exact ⟨congrArg Except.ok hlast, hrest⟩

/-- Stacks with the same live addresses take the same one more, or refuse it alike. -/
theorem push_of_live_eq {s t : CallStack} (h : s.live = t.live) (a : UInt16) :
    (s.push a).2 = (t.push a).2 ∧ (s.push a).1.live = (t.push a).1.live := by
  have htop := top_eq_of_live_eq h
  by_cases ht : t.top < stackDepth
  · have hs := push_of_room (htop ▸ ht) a
    have ht := push_of_room ht a
    have hlive : s.live ++ [a] = t.live ++ [a] := by rw [h]
    rw [← live_push hs, ← live_push ht] at hlive
    rw [hs, ht]
    exact ⟨rfl, hlive⟩
  · rw [push_of_full ht, push_of_full (htop ▸ ht)]
    exact ⟨rfl, h⟩

end CallStack

/-! ## Swapping the leftovers -/

/-- The processor with another call stack, and another offset named by its tracer. -/
def Processor.withLeftovers (c : Processor) (stack : CallStack) (fromV0 : Bool) : Processor :=
  { c with stack, tracer := { c.tracer with jumpsFromV0 := fromV0 } }

namespace Machine

/-- The machine with another call stack, and another offset named by its tracer. -/
def withLeftovers (m : Machine) (stack : CallStack) (fromV0 : Bool) : Machine :=
  m.updateProcessor (·.withLeftovers stack fromV0)

/-- An operation on the processor that neither looks at the leftovers nor touches them. -/
def IgnoresLeftovers (f : Processor → Processor) : Prop :=
  ∀ (c : Processor) (stack : CallStack) (fromV0 : Bool),
    f (c.withLeftovers stack fromV0) = (f c).withLeftovers stack fromV0

theorem IgnoresLeftovers.skipIf {p : Processor → Bool}
    (hp : ∀ (c : Processor) (stack : CallStack) (fromV0 : Bool), p (c.withLeftovers stack fromV0) = p c) :
    IgnoresLeftovers fun c => c.skipIf (p c) := by
  intro c stack fromV0
  simp only [Processor.skipIf, hp]
  split <;> rfl

theorem ignoresLeftovers_compute (op : AluOp) (x y : Register) : IgnoresLeftovers (·.compute op x y) := by
  intro c stack fromV0
  have hsettings : (c.withLeftovers stack fromV0).settings = c.settings := rfl
  have hget : ∀ r, (c.withLeftovers stack fromV0).get r = c.get r := fun _ => rfl
  simp only [Processor.compute, hsettings, hget]
  rcases Processor.aluResult c.settings.dialect op (c.get x) (c.get y) with ⟨value, _ | carry⟩
  · rfl
  · rfl

theorem ignoresLeftovers_addIndex (x : Register) : IgnoresLeftovers (·.addIndex x) := by
  intro c stack fromV0
  show (c.withLeftovers stack fromV0).addIndex x = (c.addIndex x).withLeftovers stack fromV0
  unfold Processor.addIndex
  dsimp only
  show (if c.settings.dialect.flagsIndexOverflow then _ else _) = _
  split <;> rfl

theorem ignoresLeftovers_passIndex (x : Register) : IgnoresLeftovers (·.passIndex x) := by
  intro c stack fromV0
  show (c.withLeftovers stack fromV0).passIndex x = (c.passIndex x).withLeftovers stack fromV0
  unfold Processor.passIndex
  show (if c.settings.dialect.advancesIndex then _ else _) = _
  split <;> rfl

theorem ignoresLeftovers_storeRegisters (x : Register) : IgnoresLeftovers (·.storeRegisters x) := by
  intro c stack fromV0
  exact ignoresLeftovers_passIndex x
    { c with memory := c.memory.writeAll c.index (c.v.toList.take (x.val + 1)) } stack fromV0

theorem ignoresLeftovers_loadRegisters (x : Register) : IgnoresLeftovers (·.loadRegisters x) := by
  intro c stack fromV0
  exact ignoresLeftovers_passIndex x
    { c with v := Vector.ofFn fun r =>
        if r ≤ x then c.memory.read (c.index + UInt16.ofNat r.val) else c.get r } stack fromV0

theorem withLeftovers_updateProcessor {f : Processor → Processor} (h : IgnoresLeftovers f) (m : Machine)
    (stack : CallStack) (fromV0 : Bool) :
    (m.withLeftovers stack fromV0).updateProcessor f = (m.updateProcessor f).withLeftovers stack fromV0 := by
  simp only [withLeftovers, updateProcessor, h m.cpu stack fromV0]

theorem withLeftovers_draw (m : Machine) (stack : CallStack) (fromV0 : Bool) (x y : Register) (rows : Nibble) :
    (m.withLeftovers stack fromV0).draw x y rows =
      ((m.draw x y rows).1.withLeftovers stack fromV0, (m.draw x y rows).2) := by
  unfold draw
  show (if m.screen.width = 0 ∨ m.screen.height = 0 then _ else _) = _
  split <;> rfl

theorem withLeftovers_awaitKey (m : Machine) (stack : CallStack) (fromV0 : Bool) (x : Register) :
    (m.withLeftovers stack fromV0).awaitKey x =
      ((m.awaitKey x).1.withLeftovers stack fromV0, (m.awaitKey x).2) := by
  have hchannel : (m.withLeftovers stack fromV0).channel = m.channel := rfl
  simp only [awaitKey, hchannel]
  cases m.channel.shared.lowestKey? with
  | some key => rfl
  | none => rfl

/-- Swapping the leftovers before an instruction that has nothing to do with calls
is swapping them afterwards. -/
theorem withLeftovers_execute (m : Machine) (stack : CallStack) (fromV0 : Bool) (random : UInt8)
    {i : Instruction} (h : i.leavesCalls = true) :
    (m.withLeftovers stack fromV0).execute random i =
      ((m.execute random i).1.withLeftovers stack fromV0, (m.execute random i).2) := by
  have onProcessor : ∀ f : Processor → Processor, IgnoresLeftovers f →
      ((m.withLeftovers stack fromV0).updateProcessor f, (.ok .continued : Except Fault Outcome)) =
        ((m.updateProcessor f).withLeftovers stack fromV0, .ok .continued) := by
    intro f hf
    rw [withLeftovers_updateProcessor hf]
  cases i with
  | ret | call | jump => cases h
  | draw x y rows => exact m.withLeftovers_draw stack fromV0 x y rows
  | awaitKey x =>
    have hkey := m.withLeftovers_awaitKey stack fromV0 x
    simp only [execute, hkey]
  | skipIfByte | skipUnlessByte | skipIfEqual | skipUnlessEqual | skipIfKey | skipUnlessKey =>
    exact onProcessor _ (.skipIf fun _ _ _ => rfl)
  | compute op x y => exact onProcessor _ (ignoresLeftovers_compute op x y)
  | addIndex x => exact onProcessor _ (ignoresLeftovers_addIndex x)
  | store x => exact onProcessor _ (ignoresLeftovers_storeRegisters x)
  | load x => exact onProcessor _ (ignoresLeftovers_loadRegisters x)
  | _ => rfl

/-! ## Instructions that use the stack -/

/-- The second machine is the first one, stale slots and the tracer's offset apart. -/
def Alike (m n : Machine) : Prop :=
  ∃ stack fromV0, n = m.withLeftovers stack fromV0 ∧ stack.live = m.cpu.stack.live

theorem returnToCaller_alike {m n : Machine} (h : Alike m n) :
    Alike m.returnToCaller n.returnToCaller := by
  obtain ⟨stack, fromV0, rfl, hlive⟩ := h
  have hstack : (m.withLeftovers stack fromV0).cpu.stack = stack := rfl
  obtain ⟨hanswer, hleft⟩ := CallStack.pop_of_live_eq hlive
  rcases hm : m.cpu.stack.pop with ⟨rest, answer⟩
  rcases hn : stack.pop with ⟨rest', answer'⟩
  rw [hm, hn] at hanswer hleft
  cases hanswer
  simp only [returnToCaller, hstack, hm, hn]
  cases answer with
  | ok address => exact ⟨rest', fromV0, rfl, hleft⟩
  | error fault => exact ⟨rest', fromV0, rfl, hleft⟩

theorem call_alike {m n : Machine} (h : Alike m n) (target : Address) :
    Alike (m.call target) (n.call target) := by
  obtain ⟨stack, fromV0, rfl, hlive⟩ := h
  have hstack : (m.withLeftovers stack fromV0).cpu.stack = stack := rfl
  have hpc : (m.withLeftovers stack fromV0).cpu.pc = m.cpu.pc := rfl
  obtain ⟨hanswer, hleft⟩ := CallStack.push_of_live_eq hlive m.cpu.pc
  rcases hm : m.cpu.stack.push m.cpu.pc with ⟨pushed, answer⟩
  rcases hn : stack.push m.cpu.pc with ⟨pushed', answer'⟩
  rw [hm, hn] at hanswer hleft
  cases hanswer
  simp only [call, hstack, hpc, hm, hn]
  cases answer with
  | ok _ => exact ⟨pushed', fromV0, rfl, hleft⟩
  | error fault => exact ⟨pushed', fromV0, rfl, hleft⟩

theorem withLeftovers_restarted (c : Processor) (stack : CallStack) (fromV0 : Bool) (memory : Memory) :
    (c.withLeftovers stack fromV0).restarted memory =
      (c.restarted memory).withLeftovers stack.clear fromV0 := rfl

theorem withLeftovers_resetProcessor (c : Processor) (stack : CallStack) (fromV0 : Bool) :
    (c.withLeftovers stack fromV0).reset = (c.reset.1.withLeftovers stack.clear fromV0, c.reset.2) := by
  cases h : (c.memory.clearRegion .program).loadRegion .program c.rom with
  | ok memory =>
    rw [Processor.reset_of_loaded h, Processor.reset_of_loaded (c := c.withLeftovers stack fromV0) h,
      withLeftovers_restarted]
  | error fault =>
    rw [Processor.reset_of_refused h, Processor.reset_of_refused (c := c.withLeftovers stack fromV0) h,
      withLeftovers_restarted]
    rfl

theorem withLeftovers_reset (m : Machine) (stack : CallStack) (fromV0 : Bool) :
    (m.withLeftovers stack fromV0).reset = m.reset.withLeftovers stack.clear fromV0 := by
  have hcpu := withLeftovers_resetProcessor m.cpu stack fromV0
  simp only [reset, withLeftovers, updateProcessor, hcpu]
  rcases m.cpu.reset with ⟨cpu, _ | fault⟩
  · rfl
  · rfl

theorem live_reset (m : Machine) : m.reset.cpu.stack.live = [] := by
  rw [reset_cpu, Processor.reset_eq]
  split
  · exact CallStack.live_clear _
  · exact CallStack.live_clear _

theorem restart_alike {m n : Machine} (h : Alike m n) : Alike m.restart n.restart := by
  obtain ⟨stack, fromV0, rfl, hlive⟩ := h
  refine ⟨stack.clear, fromV0, ?_, ?_⟩
  · simp only [restart, withLeftovers_reset]
    -- What comes after the reset never looks at the processor.
    generalize m.reset = fresh
    rfl
  · rw [CallStack.live_clear, restart_cpu, ← reset_cpu, live_reset]

theorem jump_alike {m n : Machine} (h : Alike m n) (target : Address) :
    (n.jump target).2 = (m.jump target).2 ∧ Alike (m.jump target).1 (n.jump target).1 := by
  obtain ⟨stack, fromV0, rfl, hlive⟩ := h
  have hnoted : ∀ text, Alike (m.note .info .instruction text)
      ((m.withLeftovers stack fromV0).note .info .instruction text) := fun text => ⟨stack, fromV0, rfl, hlive⟩
  have hpc : (m.withLeftovers stack fromV0).cpu.pc = m.cpu.pc := rfl
  have hsettings : (m.withLeftovers stack fromV0).cpu.settings = m.cpu.settings := rfl
  simp only [jump, hpc, hsettings]
  split
  · exact ⟨rfl, stack, fromV0, rfl, hlive⟩
  split
  · exact ⟨rfl, stack, fromV0, rfl, hlive⟩
  split
  · exact ⟨rfl, restart_alike (hnoted _)⟩
  · exact ⟨rfl, stack, fromV0, rfl, hlive⟩

/-! ## Steps -/

theorem execute_alike {m n : Machine} (h : Alike m n) (random : UInt8) (i : Instruction) :
    (n.execute random i).2 = (m.execute random i).2 ∧
      Alike (m.execute random i).1 (n.execute random i).1 := by
  by_cases hcalls : i.leavesCalls = true
  · obtain ⟨stack, fromV0, rfl, hlive⟩ := h
    rw [withLeftovers_execute m stack fromV0 random hcalls]
    refine ⟨rfl, stack, fromV0, rfl, ?_⟩
    rw [(m.execute_kept random hcalls).stack]
    exact hlive
  · cases i with
    | ret => exact ⟨rfl, returnToCaller_alike h⟩
    | call target => exact ⟨rfl, call_alike h target⟩
    | jump target =>
      obtain ⟨houtcome, hmachine⟩ := jump_alike h target
      exact ⟨congrArg Except.ok houtcome, hmachine⟩
    | _ => exact absurd rfl hcalls

theorem fetched_alike {m n : Machine} (h : Alike m n) (word : UInt16) :
    Alike (m.fetched word) (n.fetched word) := by
  obtain ⟨stack, fromV0, rfl, hlive⟩ := h
  -- The offset is either set up anew on both sides or kept on both.
  have htraces : (m.withLeftovers stack fromV0).traces word = m.traces word := rfl
  refine ⟨stack, (m.withLeftovers stack fromV0).listsFromV0 word, ?_, by rw [fetched_cpu]; exact hlive⟩
  have hlines : (m.withLeftovers stack fromV0).traceLines word = m.traceLines word := by
    simp only [traceLines, htraces]
    rfl
  rw [fetched_eq, fetched_eq, hlines]
  rfl

/-- **The leftovers never show.** Machines that differ in them at most take the
same step, and then differ in them at most. -/
theorem step_alike {m n : Machine} (h : Alike m n) (random : UInt8) :
    (n.step random).2 = (m.step random).2 ∧ Alike (m.step random).1 (n.step random).1 := by
  have hmemory : n.cpu.memory = m.cpu.memory := by
    obtain ⟨stack, fromV0, rfl, -⟩ := h
    rfl
  have hpc : n.cpu.pc = m.cpu.pc := by
    obtain ⟨stack, fromV0, rfl, -⟩ := h
    rfl
  have hnword : n.cpu.memory.readWord n.cpu.pc = m.cpu.memory.readWord m.cpu.pc := by rw [hmemory, hpc]
  rcases step_cases m random with ⟨hword, hs⟩ | ⟨word, i, hword, hi, hs⟩ | ⟨word, hword, hi, hclass, hs⟩ |
    ⟨word, hword, hi, hclass, hs⟩
  · rw [hs, step_of_no_word random (hnword.trans hword), hpc]
    exact ⟨rfl, h⟩
  · rw [hs, step_of_instruction random (hnword.trans hword) hi]
    exact execute_alike (fetched_alike h word) random i
  · rw [hs, step_of_machineCode random (hnword.trans hword) hi hclass, hpc]
    exact ⟨rfl, fetched_alike h word⟩
  · rw [hs, step_of_ignored random (hnword.trans hword) hi hclass, hpc]
    obtain ⟨stack, fromV0, hn, hlive⟩ := fetched_alike h word
    rw [hn]
    exact ⟨rfl, stack, fromV0, rfl, hlive⟩

end Machine

end Chip8
