/-
A step and a tick of the timer may come in either order, unless the step reads
or sets a timer (`step_tick_commute`).

The processor and the screen see of the shared state only the keys, which no tick
changes, so the step goes the same way on both sides (`step_over`). The shared
state goes through what the instruction's job makes of it and through what a tick
makes of it (`Job.apply`). The jobs that matter are to halt and to start over,
which silence the buzzer and leave the timers alone or at zero: a tick before them
may silence the buzzer as well, and a tick after them finds nothing left to
silence.
-/
import Chip8.Proofs.Halting
import Chip8.Proofs.SoundProtocol
import Chip8.Proofs.Twins

namespace Chip8

/-- The instruction reads the delay timer or sets one of the timers. -/
def Instruction.usesTimers : Instruction → Bool
  | .getDelay _ | .setDelay _ | .setSound _ => true
  | _ => false

/-- Under this relation channels agree on the keys, and perhaps on nothing else. -/
def Channel.SameKeys (c d : Channel) : Prop := d.shared.keys = c.shared.keys

namespace Channel

theorem updateScreen_shared (c : Channel) (s : Screen) : (c.updateScreen s).shared = c.shared := by
  unfold updateScreen
  split
  · exact push_shared _ _
  · rfl

theorem sameKeys_bond : Bond SameKeys where
  keys h := h
  note h _ _ _ _ := h
  updateScreen {c d} h s := by
    unfold SameKeys
    rw [updateScreen_shared, updateScreen_shared]
    exact h
  updateSound {c d} h on := by
    unfold SameKeys
    rw [updateSound_shared, updateSound_shared]
    exact h
  setDelay h _ := h
  setSoundTimer h _ := h
  shutdown {c d} _ := by
    unfold SameKeys
    rw [shutdown_shared, shutdown_shared]

end Channel

/-! ## What jobs make of the shared state -/

namespace Job

/-- What a job that nothing disturbs makes of the shared state. -/
def apply : Job → SharedState → SharedState
  | .showScreen _, s => s
  | .setDelay ticks, s => { s with delay := ticks }
  | .beep ticks, s => { s with sound := 0 < ticks, soundTimer := Buzzer.stretch ticks }
  | .restart _, s => { s with delay := 0, soundTimer := 0, sound := false }
  | .shutdown, s => { s with keys := 0, sound := false, running := false }
  | .tick, s =>
    { s with
      delay := SharedState.countDown s.delay, soundTimer := SharedState.countDown s.soundTimer
      sound := s.sound && s.soundTimer != 1 }

theorem finish_shared (job : Job) (c : Channel) : (job.task.finish c).shared = job.apply c.shared := by
  cases job with
  | showScreen s => exact c.finish_sendScreen_shared s
  | setDelay ticks => rfl
  | beep ticks =>
    simp only [task, Task.finish_updateSound]
    show (c.updateSound (0 < ticks)).shared.setSoundTimer _ = _
    rw [Channel.updateSound_shared]
    rfl
  | restart s =>
    simp only [task, Task.finish, Task.finish_updateSound, Channel.finish_sendScreen_shared,
      Channel.updateSound_shared]
    rfl
  | shutdown =>
    rw [Machine.finish_shutdown, Channel.shutdown_shared]
    rfl
  | tick =>
    by_cases hlast : c.shared.soundTimer = 1
    · rw [finish_tick, Threads.tick_of_last hlast]
      simp [apply, hlast, SharedState.countDelay, SharedState.countDown]
    · rw [finish_tick]
      simp [Timer.tick, Channel.update, SharedState.countSound, SharedState.countDelay, apply, hlast]

/-- The job sets a timer to a number of ticks. -/
def setsTimer : Job → Bool
  | .setDelay _ | .beep _ => true
  | _ => false

/-- A job that sets no timer may come before a tick or after it. -/
theorem apply_tick {job : Job} (h : job.setsTimer = false) (s : SharedState) :
    job.apply (tick.apply s) = tick.apply (job.apply s) := by
  cases job with
  | showScreen | restart | shutdown | tick => rfl
  | setDelay | beep => cases h

end Job

namespace Machine

theorem job?_of_no_timers {m : Machine} {i : Instruction} {job : Job} (h : m.job? i = some job)
    (htimers : i.usesTimers = false) : job.setsTimer = false := by
  cases i with
  | clearScreen => cases h; rfl
  | draw x y rows =>
    simp only [job?] at h
    split at h
    · cases h
    · cases h; rfl
  | jump target =>
    simp only [job?] at h
    split at h
    · cases h
    split at h
    · cases h; rfl
    split at h
    · cases h; rfl
    · cases h
  | setDelay | setSound => cases htimers
  | _ => cases h

/-- The job of an instruction does not depend on the channel. -/
theorem job?_over (m : Machine) (channel : Channel) (i : Instruction) :
    ({ m with channel } : Machine).job? i = m.job? i := by
  cases i <;> rfl

/-- What an instruction makes of the shared state. -/
theorem execute_shared (m : Machine) (random : UInt8) (i : Instruction) :
    (m.execute random i).1.channel.shared = ((m.job? i).elim id Job.apply) m.channel.shared := by
  rw [(m.execute_traffic random i).shared]
  cases m.job? i with
  | none => rfl
  | some job => exact job.finish_shared m.channel

theorem execute_ticked {m n : Machine} (hcpu : n.cpu = m.cpu) (hscreen : n.screen = m.screen)
    (hshared : n.channel.shared = Job.tick.apply m.channel.shared) (random : UInt8) {i : Instruction}
    (htimers : i.usesTimers = false) :
    (n.execute random i).1.channel.shared = Job.tick.apply (m.execute random i).1.channel.shared := by
  have hjob : n.job? i = m.job? i := by
    obtain ⟨cpu, screen, channel⟩ := n
    subst hcpu hscreen
    exact m.job?_over channel i
  rw [execute_shared, execute_shared, hjob, hshared]
  cases hm : m.job? i with
  | none => rfl
  | some job => exact Job.apply_tick (job?_of_no_timers hm htimers) _

theorem tick_shared (c : Channel) : (Timer.tick c).shared = Job.tick.apply c.shared := by
  rw [← finish_tick, Job.finish_shared]

theorem step_ticked {m n : Machine} (hn : n = m.perform .tickTimer) (random : UInt8)
    (htimers : ∀ i : Instruction, m.cpu.memory.readWord m.cpu.pc = some i.toWord → i.usesTimers = false) :
    (n.step random).1.channel.shared = Job.tick.apply (m.step random).1.channel.shared := by
  subst hn
  have hshared : (m.perform .tickTimer).channel.shared = Job.tick.apply m.channel.shared := tick_shared _
  have hfetched : ∀ word, ((m.perform .tickTimer).fetched word).channel.shared =
      Job.tick.apply (m.fetched word).channel.shared := fun word => by
    rw [fetched_shared, fetched_shared, hshared]
  rcases step_cases m random with ⟨hword, hs⟩ | ⟨word, i, hword, hi, hs⟩ | ⟨word, hword, hi, hclass, hs⟩ |
    ⟨word, hword, hi, hclass, hs⟩
  · rw [hs, step_of_no_word (m := m.perform .tickTimer) random hword]
    exact hshared
  · rw [hs, step_of_instruction (m := m.perform .tickTimer) random hword hi]
    refine execute_ticked ?_ ?_ (hfetched word) random (htimers i ?_)
    · rw [fetched_cpu, fetched_cpu]
      rfl
    · rw [fetched_screen, fetched_screen]
      rfl
    · rw [Instruction.toWord_of_ofWord? hi]
      exact hword
  · rw [hs, step_of_machineCode (m := m.perform .tickTimer) random hword hi hclass]
    exact hfetched word
  · rw [hs, step_of_ignored (m := m.perform .tickTimer) random hword hi hclass]
    exact hfetched word

/-- **A step and a tick commute**, unless the word at the program counter reads or
sets a timer: in either order the step comes out the same, and the processor, the
screen and the shared state are the same in the end. -/
theorem step_tick_commute (m : Machine) (random : UInt8)
    (htimers : ∀ i : Instruction, m.cpu.memory.readWord m.cpu.pc = some i.toWord → i.usesTimers = false) :
    let stepped := m.step random
    let ticked := m.perform .tickTimer
    (ticked.step random).2 = stepped.2 ∧
      (ticked.step random).1.cpu = (stepped.1.perform .tickTimer).cpu ∧
      (ticked.step random).1.screen = (stepped.1.perform .tickTimer).screen ∧
      (ticked.step random).1.channel.shared = (stepped.1.perform .tickTimer).channel.shared := by
  intro stepped ticked
  have hkeys : ticked.channel.shared.keys = m.channel.shared.keys := by
    rw [show ticked.channel.shared = Job.tick.apply m.channel.shared from tick_shared _]
    rfl
  have hfetched : ∀ word, Channel.SameKeys (m.fetched word).channel (ticked.fetched word).channel := fun word => by
    unfold Channel.SameKeys
    rw [fetched_shared, fetched_shared]
    exact hkeys
  have hdelay : ∀ x, m.cpu.memory.readWord m.cpu.pc = some (Instruction.getDelay x).toWord →
      ticked.channel.shared.delay = m.channel.shared.delay := fun x hx => by cases htimers _ hx
  obtain ⟨hresult, channel, hmachine, -⟩ :=
    step_over Channel.sameKeys_bond ⟨Timer.tick m.channel, rfl, hkeys⟩ random hfetched hdelay
  have hcpu := congrArg Machine.cpu hmachine
  have hscreen := congrArg Machine.screen hmachine
  refine ⟨hresult, hcpu, hscreen, ?_⟩
  rw [step_ticked rfl random htimers]
  exact (tick_shared _).symm

/-- Memory that is `12` throughout halts at `212`, here with one tick of a beep
left: the tick may silence the buzzer before the step or find it silent after. -/
theorem step_tick_commute_beeping :
    let m : Machine :=
      { cpu := {
          memory := { Memory.new 0x50 0x200 with cells := Vector.replicate memorySize 0x12 }
          pc := 0x212 }
        channel := { shared := { keys := 8, sound := true, delay := 3, soundTimer := 1 } } }
    (∀ i : Instruction, m.cpu.memory.readWord m.cpu.pc = some i.toWord → i.usesTimers = false) ∧
      ((m.perform .tickTimer).step 0).2 = .ok .halted ∧
      ((m.perform .tickTimer).step 0).1.channel.shared = { delay := 2, running := false } ∧
      ((m.step 0).1.perform .tickTimer).channel.shared = { delay := 2, running := false } := by
  intro m
  have hword : m.cpu.memory.readWord m.cpu.pc = some 0x1212 := by
    simp only [m, Memory.readWord, Vector.getElem_replicate]
    decide
  have htimers : ∀ i : Instruction, m.cpu.memory.readWord m.cpu.pc = some i.toWord → i.usesTimers = false := by
    intro i hi
    have hjump : i = .jump ⟨0x212, by decide⟩ := by
      have hread := i.ofWord?_toWord
      rw [← Option.some.inj (hword.symm.trans hi)] at hread
      exact (Option.some.inj hread).symm
    rw [hjump]
    rfl
  have hhalted : (m.step 0).2 = .ok .halted := by
    rw [step_result 0 (by decide) (by decide) (Memory.le_of_readWord hword) hword,
      verdict_eq_halted_iff _ (Memory.le_of_readWord hword)]
    decide
  obtain ⟨text, hstep⟩ := step_halted hhalted
  have hafter : ((m.step 0).1.perform .tickTimer).channel.shared = { delay := 2, running := false } := by
    rw [hstep]
    show (Timer.tick (Channel.shutdown _)).shared = _
    rw [tick_shared, Channel.shutdown_shared]
    show Job.tick.apply { delay := 3, soundTimer := 1, running := false } = _
    decide
  obtain ⟨hresult, -, -, hshared⟩ := step_tick_commute m 0 htimers
  exact ⟨htimers, hresult.trans hhalted, hshared.trans hafter, hafter⟩

end Machine

end Chip8
