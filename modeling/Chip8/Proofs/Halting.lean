/-
A machine that halts is done with its peripheral (`halt_final`).

Only a jump to itself halts, and all it does is to shut the peripheral down: one
last message, no key held, the buzzer off, and the helpers told to end. A sound
timer may still be running then. It runs out like any other, but a buzzer that is
off already is not sent again, so the peripheral hears nothing more
(`ticks_of_silent`).
-/
import Chip8.Keypad
import Chip8.Proofs.ChannelFacts
import Chip8.Proofs.StepOutcome

namespace Chip8

/-- The message that takes leave: no key held, the buzzer off, no screen. -/
def Message.farewell : Message :=
  { sound := false, keys := 0, screen := none
    width := UInt8.ofNat standardWidth, height := UInt8.ofNat standardHeight }

namespace Channel

theorem shutdown_shared (c : Channel) :
    c.shutdown.shared = { c.shared with keys := 0, sound := false, running := false } := by
  show ((c.update fun s => ((s.setKeys 0).swapSound false).2).push _).shared.stop = _
  rw [push_shared]
  rfl

theorem AcceptsAll.shutdown_journal {c : Channel} (h : c.AcceptsAll) :
    c.shutdown.journal = c.journal.send .farewell true := by
  have hcleared : (c.update fun s => ((s.setKeys 0).swapSound false).2).AcceptsAll := h.congr rfl
  exact hcleared.push_journal _

end Channel

/-! ## The helpers of a machine that has stopped -/

namespace Timer

/-- While the buzzer is off, a tick counts and does nothing else. -/
theorem tick_of_silent {c : Channel} (h : c.shared.sound = false) :
    tick c = c.update fun s => s.countDelay.countSound.2 := by
  have hoff : (c.update fun s => s.countDelay.countSound.2).shared.sound = false := h
  have hsame := (c.update fun s => s.countDelay.countSound.2).updateSound_same
  rw [hoff] at hsame
  by_cases hlast : c.shared.soundTimer = 1
  · rw [tick_of_last hlast, hsame]
  · exact tick_of_going hlast

/-- Once the buzzer is off, ticks send nothing and leave it off. -/
theorem ticks_of_silent {c : Channel} (h : c.shared.sound = false) (n : Nat) :
    (ticks n c).journal = c.journal ∧ (ticks n c).shared.sound = false ∧
      (ticks n c).shared.running = c.shared.running := by
  induction n generalizing c with
  | zero => exact ⟨rfl, h, rfl⟩
  | succ n ih =>
    show (ticks n (tick c)).journal = _ ∧ (ticks n (tick c)).shared.sound = false ∧
      (ticks n (tick c)).shared.running = _
    rw [tick_of_silent h]
    exact ih (c := c.update fun s => s.countDelay.countSound.2) h

theorem run_of_stopped {c : Channel} (h : c.shared.running = false) (frames : Nat) :
    run frames c = noteStop (noteStart c) := by
  cases frames with
  | zero => rfl
  | succ frames =>
    have hstopped : (noteStart c).shared.running = false := h
    simp only [run, tickWhileRunning, hstopped, Bool.false_eq_true, if_false]

end Timer

theorem Keypad.listen_of_stopped {s : SharedState} (h : s.running = false) (datagrams : List (List UInt8)) :
    listen s datagrams = (s, .stopped) := by
  cases datagrams with
  | nil => simp only [listen, h, Bool.false_eq_true, if_false]
  | cons datagram rest => simp only [listen, h, Bool.false_eq_true, if_false]

namespace Machine

/-! ## What halts -/

theorem execute_halted {m : Machine} {random : UInt8} {i : Instruction}
    (h : (m.execute random i).2 = .ok .halted) :
    ∃ target, i = .jump target ∧ UInt16.ofNat target.val + 2 = m.cpu.pc ∧ m.cpu.settings.endOnLoop = true := by
  cases i with
  | jump target =>
    have hhalted : (m.jump target).2 = .halted := Except.ok.inj h
    rw [jump_outcome] at hhalted
    split at hhalted
    · next hself => exact ⟨target, rfl, hself.1, hself.2⟩
    · cases hhalted
  | awaitKey x =>
    have hhalted : (m.awaitKey x).2 = .halted := Except.ok.inj h
    rw [awaitKey_outcome] at hhalted
    split at hhalted <;> cases hhalted
  | draw x y rows =>
    have hhalted : (m.draw x y rows).2 = .ok .halted := h
    unfold draw at hhalted
    split at hhalted <;> cases hhalted
  | _ => cases h

/-- A jump to itself is not traced. -/
theorem fetched_selfJump (m : Machine) :
    m.fetched (selfJump m.cpu.pc) =
      { m with cpu := { m.cpu with pc := m.cpu.pc + 2, cycle := m.cpu.cycle + 1 } } := by
  have hquiet : m.traces (selfJump m.cpu.pc) = false := by simp [traces]
  rw [fetched_eq]
  simp [listsFromV0, traceLines, hquiet]

theorem jump_halts {m : Machine} {target : Address} (hself : UInt16.ofNat target.val + 2 = m.cpu.pc)
    (hend : m.cpu.settings.endOnLoop = true) :
    m.jump target =
      ((m.note .info .instruction ("infinite loop at " ++ Text.hex 3 target.val ++ ", halting")).updateChannel
        Channel.shutdown, .halted) := by
  unfold jump
  dsimp only
  rw [if_neg (not_not_intro hself), if_pos hend]

/-- A step that halts counts and passes its instruction, logs that, and shuts the
peripheral down. -/
theorem step_halted {m : Machine} {random : UInt8} (h : (m.step random).2 = .ok .halted) :
    ∃ text, (m.step random).1 =
      { m with
        cpu := { m.cpu with pc := m.cpu.pc + 2, cycle := m.cpu.cycle + 1 }
        channel := (m.channel.note .info .instruction text).shutdown } := by
  rcases step_cases m random with ⟨-, hs⟩ | ⟨word, i, hword, hi, hs⟩ | ⟨word, -, -, -, hs⟩ | ⟨word, -, -, -, hs⟩
  · rw [hs] at h; cases h
  · rw [hs] at h ⊢
    obtain ⟨target, rfl, hpc, hend⟩ := execute_halted h
    have hself : word = selfJump m.cpu.pc := by
      rw [← isSelf_iff (Memory.le_of_readWord hword) hi, hpc, fetched_cpu]
    subst hself
    refine ⟨"infinite loop at " ++ Text.hex 3 target.val ++ ", halting", ?_⟩
    show ((m.fetched (selfJump m.cpu.pc)).jump target).1 = _
    rw [jump_halts hpc hend, fetched_selfJump]
    rfl
  · rw [hs] at h; cases h
  · rw [hs] at h; cases h

end Machine

end Chip8
