/-
A machine that waits lets time pass and does nothing else (`waiting_lets_time_pass`).

There are two ways to wait. A program may ask for a key while none is held, and then the
machine steps back over the instruction that it has passed. Or a program may jump to
itself, and then the machine goes back to where it is, unless its settings say otherwise.
Either way a step counts itself, traces itself if asked to, and that is all: the machine
still waits after it. Ticks of the timer come in between at any time, and they do not see
the steps, nor the steps them.

`Idles` says that a machine waits, and how its steps come out. `Idled` is what becomes of
it in some steps and ticks. It composes, so a run of any length is put together from single
steps and ticks.
-/
import Chip8.Proofs.Countdown
import Chip8.Proofs.HeldKeys
import Chip8.Proofs.Loading
import Chip8.Proofs.Tracing

namespace Chip8

namespace Action

/-- The action is an instruction. -/
def isStep : Action → Bool
  | .step _ => true
  | _ => false

/-- The action is an instruction or a tick of the timer. -/
def passesTime : Action → Bool
  | .step _ | .tickTimer => true
  | _ => false

end Action

/-! ## Ticks of channels that printed different lines -/

namespace Channel

theorem Unprinted.refl (c : Channel) : Unprinted c c := ⟨c.journal.printed, rfl⟩

theorem Unprinted.trans {c d e : Channel} (h : Unprinted c d) (k : Unprinted d e) : Unprinted c e := by
  obtain ⟨_, rfl⟩ := h
  obtain ⟨printed, rfl⟩ := k
  exact ⟨printed, rfl⟩

theorem Unprinted.ticks {c d : Channel} (h : Unprinted c d) (n : Nat) :
    Unprinted (Timer.ticks n c) (Timer.ticks n d) := by
  induction n generalizing c d with
  | zero => exact h
  | succ n ih => exact ih (unprinted_congruence.tick h)

end Channel

namespace Machine

open Channel (Unprinted unprinted_congruence)

/-- The machine is at an instruction that waits for a key, and no key is held. -/
structure AwaitsKey (m : Machine) (x : Register) : Prop where
  word : m.cpu.memory.readWord m.cpu.pc = some (Instruction.awaitKey x).toWord
  keys : m.channel.shared.keys = 0

/-- The machine is at a jump to itself, and neither ends nor restarts on one. -/
structure Spins (m : Machine) : Prop where
  word : m.cpu.memory.readWord m.cpu.pc = some (selfJump m.cpu.pc)
  endOnLoop : m.cpu.settings.endOnLoop = false
  restartOnLoop : m.cpu.settings.restartOnLoop = false

/-- The machine waits, and this is how its steps come out. -/
inductive Idles (m : Machine) : Outcome → Prop
  | key {x : Register} : m.AwaitsKey x → Idles m .waiting
  | loop : m.Spins → Idles m .continued

/-- The second machine is the first one after so many steps and ticks, if all that they do
is to let time pass: the cycles are counted, the timers count down, and what is traced is
printed. -/
structure Idled (m : Machine) (steps ticks : Nat) (n : Machine) : Prop where
  cpu : n.cpu =
    { m.cpu with
      cycle := m.cpu.cycle + steps
      tracer := { m.cpu.tracer with jumpsFromV0 := n.cpu.tracer.jumpsFromV0 } }
  screen : n.screen = m.screen
  channel : Unprinted (Timer.ticks ticks m.channel) n.channel

namespace Idled

theorem refl (m : Machine) : m.Idled 0 0 m := ⟨rfl, rfl, .refl _⟩

theorem trans {m n o : Machine} {steps ticks steps' ticks' : Nat} (h : m.Idled steps ticks n)
    (k : n.Idled steps' ticks' o) : m.Idled (steps + steps') (ticks + ticks') o where
  cpu := by
    have hcpu := k.cpu
    rw [h.cpu] at hcpu
    rw [hcpu, Nat.add_assoc]
  screen := k.screen.trans h.screen
  channel := by
    rw [Timer.ticks_add]
    exact (h.channel.ticks ticks').trans k.channel

theorem keys {m n : Machine} {steps ticks : Nat} (h : m.Idled steps ticks n) :
    n.channel.shared.keys = m.channel.shared.keys := by
  rw [unprinted_congruence.shared h.channel, Timer.ticks_shared]
  rfl

/-- Fetching a word, and then going back to where the machine is, is a step that does nothing. -/
theorem of_fetched (m : Machine) (word : UInt16) :
    m.Idled 1 0 ((m.fetched word).updateProcessor fun c => { c with pc := m.cpu.pc }) where
  cpu := by
    rw [fetched_eq]
    rfl
  screen := by
    rw [fetched_eq]
    rfl
  channel := by
    rw [fetched_eq]
    exact ⟨_, rfl⟩

theorem tick (m : Machine) : m.Idled 0 1 (m.perform .tickTimer) := ⟨rfl, rfl, .refl _⟩

end Idled

/-! ## Steps of a machine that waits -/

theorem AwaitsKey.step {m : Machine} {x : Register} (h : m.AwaitsKey x) (random : UInt8) :
    m.step random =
      ((m.fetched (Instruction.awaitKey x).toWord).updateProcessor fun c => { c with pc := m.cpu.pc },
       .ok .waiting) := by
  have hnone : (m.fetched (Instruction.awaitKey x).toWord).channel.shared.lowestKey? = none := by
    rw [fetched_shared, SharedState.lowestKey?_eq_none_iff]
    exact h.keys
  have hback : (m.fetched (Instruction.awaitKey x).toWord).cpu.rewind =
      { (m.fetched (Instruction.awaitKey x).toWord).cpu with pc := m.cpu.pc } := by
    rw [Processor.rewind, fetched_cpu]
    simp only [UInt16.add_sub_cancel]
  rw [step_of_instruction random h.word (Instruction.ofWord?_toWord _)]
  show (((m.fetched _).awaitKey x).1, Except.ok ((m.fetched _).awaitKey x).2) = _
  simp only [awaitKey, hnone, updateProcessor, hback]

theorem jump_spins {m : Machine} {target : Address} (hself : UInt16.ofNat target.val + 2 = m.cpu.pc)
    (hend : m.cpu.settings.endOnLoop = false) (hrestart : m.cpu.settings.restartOnLoop = false) :
    m.jump target = (m.updateProcessor (·.jump target), .continued) := by
  unfold jump
  dsimp only
  rw [if_neg (not_not_intro hself), if_neg (Bool.eq_false_iff.mp hend), if_neg (Bool.eq_false_iff.mp hrestart)]

theorem Spins.step {m : Machine} (h : m.Spins) (random : UInt8) :
    m.step random =
      ((m.fetched (selfJump m.cpu.pc)).updateProcessor fun c => { c with pc := m.cpu.pc }, .ok .continued) := by
  have ha := Memory.le_of_readWord h.word
  let target : Address := ⟨m.cpu.pc.toNat, by omega⟩
  have htarget : UInt16.ofNat target.val = m.cpu.pc := UInt16.ofNat_toNat
  have hself : UInt16.ofNat target.val + 2 = (m.fetched (selfJump m.cpu.pc)).cpu.pc := by
    rw [htarget, fetched_cpu]
  have hjump := jump_spins hself (by rw [fetched_cpu]; exact h.endOnLoop) (by rw [fetched_cpu]; exact h.restartOnLoop)
  rw [step_of_instruction random h.word (ofWord?_selfJump ha)]
  show (((m.fetched (selfJump m.cpu.pc)).jump target).1, Except.ok ((m.fetched (selfJump m.cpu.pc)).jump target).2) = _
  rw [hjump]
  simp only [updateProcessor, Processor.jump, htarget]

theorem Idles.step {m : Machine} {outcome : Outcome} (h : m.Idles outcome) (random : UInt8) :
    (m.step random).2 = .ok outcome ∧ m.Idled 1 0 (m.step random).1 := by
  cases h with
  | key hkey =>
    rw [hkey.step random]
    exact ⟨rfl, .of_fetched m _⟩
  | loop hspins =>
    rw [hspins.step random]
    exact ⟨rfl, .of_fetched m _⟩

theorem AwaitsKey.idled {m n : Machine} {x : Register} {steps ticks : Nat} (h : m.AwaitsKey x)
    (k : m.Idled steps ticks n) : n.AwaitsKey x where
  word := by rw [k.cpu]; exact h.word
  keys := k.keys.trans h.keys

/-- A machine that has idled still waits. -/
theorem Idles.idled {m n : Machine} {outcome : Outcome} {steps ticks : Nat} (h : m.Idles outcome)
    (k : m.Idled steps ticks n) : n.Idles outcome := by
  cases h with
  | key hkey => exact .key (hkey.idled k)
  | loop hspins =>
    refine .loop ⟨?_, ?_, ?_⟩
    · rw [k.cpu]; exact hspins.word
    · rw [k.cpu]; exact hspins.endOnLoop
    · rw [k.cpu]; exact hspins.restartOnLoop

/-! ## Runs -/

/-- The action, if it is a step, comes out so and sends nothing. -/
def StepsQuietly (outcome : Outcome) (m : Machine) (a : Action) : Prop :=
  ∀ random, a = .step random →
    (m.step random).2 = .ok outcome ∧ (m.step random).1.channel.journal.sends = m.channel.journal.sends

/-- A machine that waits idles through a step or a tick. -/
theorem Idles.perform {m : Machine} {outcome : Outcome} (h : m.Idles outcome) {a : Action}
    (htime : a.passesTime = true) :
    m.StepsQuietly outcome a ∧ m.Idled ([a].countP Action.isStep) ([a].count .tickTimer) (m.perform a) := by
  cases a with
  | step random =>
    obtain ⟨hresult, hidled⟩ := h.step random
    refine ⟨?_, hidled⟩
    rintro _ ⟨⟩
    obtain ⟨printed, hchannel⟩ := hidled.channel
    exact ⟨hresult, by rw [hchannel]; rfl⟩
  | tickTimer => exact ⟨nofun, .tick m⟩
  | _ => cases htime

/-- ... and so through any number of them. -/
theorem Idles.performAll {m : Machine} {outcome : Outcome} (h : m.Idles outcome) {actions : List Action}
    (htime : ∀ a ∈ actions, a.passesTime = true) :
    m.Throughout (StepsQuietly outcome) actions ∧
      m.Idled (actions.countP Action.isStep) (actions.count .tickTimer) (m.performAll actions) := by
  induction actions generalizing m with
  | nil => exact ⟨trivial, .refl m⟩
  | cons a actions ih =>
    obtain ⟨hquiet, hfirst⟩ := h.perform (htime a List.mem_cons_self)
    obtain ⟨hrest, hidled⟩ := ih (h.idled hfirst) fun b hb => htime b (List.mem_cons_of_mem _ hb)
    refine ⟨⟨hquiet, hrest⟩, ?_⟩
    have hall := hfirst.trans hidled
    rw [← List.countP_append, ← List.count_append] at hall
    exact hall

/-! ## The end of a wait -/

/-- With a key held, the machine goes on with the least one. -/
theorem step_of_keyHeld {m : Machine} {x : Register} {key : UInt8} (random : UInt8)
    (hword : m.cpu.memory.readWord m.cpu.pc = some (Instruction.awaitKey x).toWord)
    (hkey : m.channel.shared.lowestKey? = some key) :
    m.step random =
      ((m.fetched (Instruction.awaitKey x).toWord).updateProcessor (·.set x key), .ok .continued) := by
  rw [step_of_instruction random hword (Instruction.ofWord?_toWord _)]
  show (((m.fetched _).awaitKey x).1, Except.ok ((m.fetched _).awaitKey x).2) = _
  rw [awaitKey, fetched_shared, hkey]

/-- Changes of the keys that leave one held end a wait. -/
theorem AwaitsKey.step_of_changed {m : Machine} {x : Register} (h : m.AwaitsKey x) {changes : List KeyChange}
    (hheld : (KeyChange.replay ∅ changes).Nonempty) (random : UInt8) :
    let next := (m.updateShared (·.changeAll changes)).step random
    next.2 = .ok .continued ∧
      ∃ key : UInt8, IsLeast (KeyChange.replay ∅ changes : Set Nat) key.toNat ∧
        next.1.cpu =
          { m.cpu.set x key with
            pc := m.cpu.pc + 2
            cycle := m.cpu.cycle + 1
            tracer := { m.cpu.tracer with jumpsFromV0 := next.1.cpu.tracer.jumpsFromV0 } } := by
  obtain ⟨keys, hchanged, hkeys⟩ := m.channel.shared.changeAll_eq changes
  have hset : keySet (m.channel.shared.changeAll changes).keys = KeyChange.replay ∅ changes := by
    rw [hchanged, hkeys, keySet_eq_empty_iff.mpr h.keys]
  cases hlowest : (m.channel.shared.changeAll changes).lowestKey? with
  | none =>
    rw [SharedState.lowestKey?_eq_none_iff_keySet, hset] at hlowest
    exact absurd hlowest hheld.ne_empty
  | some key =>
    have hleast := (SharedState.lowestKey?_eq_some_iff _ key).mp hlowest
    rw [hset] at hleast
    rw [step_of_keyHeld random (m := m.updateShared (·.changeAll changes)) h.word hlowest]
    refine ⟨rfl, key, hleast, ?_⟩
    simp only [updateProcessor, fetched_cpu]
    rfl

/-- **A machine that waits only lets time pass,** be it for a key while none is held, or at
a jump to itself that its settings let be. Whatever steps and ticks of the timer follow, in
whatever order, every step comes out the same and sends nothing. In the end the cycles have
been counted, the screen is as it was, and the channel is as the ticks alone would leave it,
but for lines that were traced. If keys change then so that some are held, the next step of
a machine that waits for a key puts the least of them into its register and goes on. -/
theorem waiting_lets_time_pass (m : Machine) (outcome : Outcome) (hidles : m.Idles outcome)
    (actions : List Action) (htime : ∀ a ∈ actions, a.passesTime = true) :
    let after := m.performAll actions
    let steps := actions.countP Action.isStep
    let ticked := Timer.ticks (actions.count .tickTimer) m.channel
    m.Throughout (StepsQuietly outcome) actions ∧
    after.cpu =
      { m.cpu with
        cycle := m.cpu.cycle + steps
        tracer := { m.cpu.tracer with jumpsFromV0 := after.cpu.tracer.jumpsFromV0 } } ∧
    after.screen = m.screen ∧
    after.channel =
      { ticked with journal := { ticked.journal with printed := after.channel.journal.printed } } ∧
    ∀ x, m.AwaitsKey x → ∀ changes : List KeyChange, (KeyChange.replay ∅ changes).Nonempty → ∀ random,
      let next := (after.updateShared (·.changeAll changes)).step random
      next.2 = .ok .continued ∧
        ∃ key : UInt8, IsLeast (KeyChange.replay ∅ changes : Set Nat) key.toNat ∧
          next.1.cpu =
            { m.cpu.set x key with
              pc := m.cpu.pc + 2
              cycle := m.cpu.cycle + steps + 1
              tracer := { m.cpu.tracer with jumpsFromV0 := next.1.cpu.tracer.jumpsFromV0 } } := by
  intro after steps ticked
  obtain ⟨hquiet, hidled⟩ := hidles.performAll htime
  refine ⟨hquiet, hidled.cpu, hidled.screen, ?_, fun x hkey changes hheld random => ?_⟩
  · obtain ⟨printed, hchannel⟩ := hidled.channel
    have hafter : after.channel = _ := hchannel
    rw [hafter]
  · obtain ⟨hresult, key, hleast, hcpu⟩ := (hkey.idled hidled).step_of_changed hheld random
    refine ⟨hresult, key, hleast, ?_⟩
    refine hcpu.trans ?_
    rw [hidled.cpu]
    rfl

/-- A program that waits for a key while the buzzer runs out. The three ticks send one
message, and the three steps none. Then 9 and 5 are pressed, and v3 gets the 5. -/
theorem waiting_lets_time_pass_key :
    let m : Machine :=
      { cpu := { memory := (Memory.new 0x50 0x200).withProgram [0xF3, 0x0A], settings := { debug := true } }
        channel := { shared := { sound := true, soundTimer := 2, delay := 9 } } }
    let actions : List Action := [.step 0, .tickTimer, .step 1, .tickTimer, .tickTimer, .step 2]
    let pressed := (m.performAll actions).updateShared (·.changeAll [.press 9, .press 5])
    m.AwaitsKey 3 ∧ (∀ a ∈ actions, a.passesTime = true) ∧ m.Throughout (StepsQuietly .waiting) actions ∧
      (m.performAll actions).cpu.pc = 0x200 ∧ (m.performAll actions).cpu.cycle = 3 ∧
      (m.performAll actions).channel.shared = { delay := 6 } ∧
      (m.performAll actions).channel.journal.sends.size = 1 ∧ (pressed.step 0).2 = .ok .continued ∧
      (pressed.step 0).1.cpu.get 3 = 5 ∧ (pressed.step 0).1.cpu.pc = 0x202 ∧
      (pressed.step 0).1.cpu.cycle = 4 := by
  intro m actions pressed
  have hkey : m.AwaitsKey 3 := ⟨Memory.readWord_withProgram _ rfl 0xF3 0x0A [] (by decide), rfl⟩
  have htime : ∀ a ∈ actions, a.passesTime = true := by decide
  obtain ⟨hquiet, hcpu, -, hchannel, hpressed⟩ := waiting_lets_time_pass m .waiting (.key hkey) actions htime
  obtain ⟨hresult, key, hleast, hnext⟩ := hpressed 3 hkey [.press 9, .press 5] (by decide) 0
  have hset : KeyChange.replay ∅ [.press 9, .press 5] = {5, 9} := by decide
  have hfive : key = 5 := by
    rw [hset] at hleast
    have hle : key.toNat ≤ 5 := hleast.2 (by decide)
    have hmem : key.toNat = 5 ∨ key.toNat = 9 := by simpa using hleast.1
    exact UInt8.toNat_inj.mp (hmem.resolve_right (by omega))
  subst hfive
  refine ⟨hkey, htime, hquiet, ?_, ?_, ?_, ?_, hresult, ?_, ?_, ?_⟩
  · rw [hcpu]
  · rw [hcpu]
    rfl
  · rw [hchannel]
    decide
  · rw [hchannel]
    decide
  · rw [hnext]
    exact m.cpu.get_set 3 5
  · rw [hnext]
    rfl
  · rw [hnext]
    rfl

end Machine

end Chip8
