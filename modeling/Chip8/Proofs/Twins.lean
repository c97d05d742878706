/-
Two machines side by side. The second runs under settings of its own, its tracer
may have named another offset last, and its channel is another one; the rest is
the same. If the settings differ in nothing that an instruction asks for, and
the channels are bound by a relation that survives what instructions do to both,
the two machines take the same step and stay side by side (`step_twins`).

The relation is a parameter, so the dialect, the link, the trace and the timers
are each hidden from a run by naming the relation that hides them. `Bond` lists
what instructions do to a channel. `Congruence` asks for more, the shared state
to be the same and every single access to keep the relation, and is then kept by
every operation on the machine (`operate_twins`).
-/
import Chip8.Proofs.Actions
import Chip8.Proofs.ChannelFacts
import Chip8.Proofs.InstructionFacts

namespace Chip8

/-! ## What instructions ask of the settings -/

/-- The instruction may come out differently under another dialect: a shift from
one register into another, an indexed jump that names a register other than v0,
and whatever moves the index by a register or past a transfer. -/
def Instruction.asksDialect : Instruction → Bool
  | .compute .shiftRight x y | .compute .shiftLeft x y => x != y
  | .jumpIndexed target => 256 ≤ target.val
  | .addIndex _ | .store _ | .load _ => true
  | _ => false

/-- The settings differ in nothing that the instruction asks for. No instruction
asks whether it is printed. -/
structure Settings.AgreeOn (s t : Settings) (i : Instruction) : Prop where
  endOnLoop : t.endOnLoop = s.endOnLoop
  restartOnLoop : t.restartOnLoop = s.restartOnLoop
  dialect : t.dialect = s.dialect ∨ i.asksDialect = false

theorem Settings.AgreeOn.refl (s : Settings) (i : Instruction) : s.AgreeOn s i := ⟨rfl, rfl, .inl rfl⟩

namespace Processor

theorem aluResult_of_dialect {d e : Dialect} {op : AluOp} {x y : Register}
    (h : e = d ∨ (Instruction.compute op x y).asksDialect = false) (c : Processor) :
    aluResult e op (c.get x) (c.get y) = aluResult d op (c.get x) (c.get y) := by
  rcases h with rfl | h
  · rfl
  · cases op with
    | shiftRight | shiftLeft =>
      -- From a register into itself, it does not matter which of the two is shifted.
      have hxy : x = y := by simpa [Instruction.asksDialect] using h
      subst hxy
      simp only [aluResult, ite_self]
    | _ => rfl

theorem jumpRegister_of_dialect {d e : Dialect} {target : Address}
    (h : e = d ∨ (Instruction.jumpIndexed target).asksDialect = false) :
    jumpRegister e target = jumpRegister d target := by
  rcases h with rfl | h
  · rfl
  · have hlow : target.val / 256 = 0 := by
      have : ¬ 256 ≤ target.val := by simpa [Instruction.asksDialect] using h
      omega
    simp only [jumpRegister, hlow, ite_self]

/-! ## Other settings -/

/-- The processor under other settings, and with another offset named by its tracer. -/
def withSettings (c : Processor) (settings : Settings) (fromV0 : Bool) : Processor :=
  { c with settings, tracer := { c.tracer with jumpsFromV0 := fromV0 } }

theorem withSettings_skipIf (c : Processor) (settings : Settings) (fromV0 condition : Bool) :
    (c.withSettings settings fromV0).skipIf condition = (c.skipIf condition).withSettings settings fromV0 := by
  cases condition <;> rfl

theorem withSettings_compute (c : Processor) {settings : Settings} (fromV0 : Bool) {op : AluOp} {x y : Register}
    (h : settings.dialect = c.settings.dialect ∨ (Instruction.compute op x y).asksDialect = false) :
    (c.withSettings settings fromV0).compute op x y = (c.compute op x y).withSettings settings fromV0 := by
  have hresult : aluResult (c.withSettings settings fromV0).settings.dialect op
      ((c.withSettings settings fromV0).get x) ((c.withSettings settings fromV0).get y) =
      aluResult c.settings.dialect op (c.get x) (c.get y) := aluResult_of_dialect h c
  simp only [compute, hresult]
  rcases aluResult c.settings.dialect op (c.get x) (c.get y) with ⟨value, _ | carry⟩
  · rfl
  · rfl

theorem withSettings_jumpIndexed (c : Processor) {settings : Settings} (fromV0 : Bool) {target : Address}
    (h : settings.dialect = c.settings.dialect ∨ (Instruction.jumpIndexed target).asksDialect = false) :
    (c.withSettings settings fromV0).jumpIndexed target =
      (c.jumpIndexed target).withSettings settings fromV0 := by
  have hregister : jumpRegister (c.withSettings settings fromV0).settings.dialect target =
      jumpRegister c.settings.dialect target := jumpRegister_of_dialect h
  simp only [jumpIndexed, hregister]
  rfl

theorem withSettings_addIndex (c : Processor) {settings : Settings} (fromV0 : Bool) (x : Register)
    (h : settings.dialect = c.settings.dialect) :
    (c.withSettings settings fromV0).addIndex x = (c.addIndex x).withSettings settings fromV0 := by
  have hdialect : (c.withSettings settings fromV0).settings.dialect = c.settings.dialect := h
  simp only [addIndex, hdialect]
  split <;> rfl

theorem withSettings_passIndex (c : Processor) {settings : Settings} (fromV0 : Bool) (x : Register)
    (h : settings.dialect = c.settings.dialect) :
    (c.withSettings settings fromV0).passIndex x = (c.passIndex x).withSettings settings fromV0 := by
  have hdialect : (c.withSettings settings fromV0).settings.dialect = c.settings.dialect := h
  simp only [passIndex, hdialect]
  split <;> rfl

theorem withSettings_storeRegisters (c : Processor) {settings : Settings} (fromV0 : Bool) (x : Register)
    (h : settings.dialect = c.settings.dialect) :
    (c.withSettings settings fromV0).storeRegisters x = (c.storeRegisters x).withSettings settings fromV0 :=
  withSettings_passIndex { c with memory := c.memory.writeAll c.index (c.v.toList.take (x.val + 1)) } fromV0 x h

theorem withSettings_loadRegisters (c : Processor) {settings : Settings} (fromV0 : Bool) (x : Register)
    (h : settings.dialect = c.settings.dialect) :
    (c.withSettings settings fromV0).loadRegisters x = (c.loadRegisters x).withSettings settings fromV0 :=
  withSettings_passIndex
    { c with v := Vector.ofFn fun r =>
        if r ≤ x then c.memory.read (c.index + UInt16.ofNat r.val) else c.get r } fromV0 x h

theorem withSettings_loaded (c : Processor) (settings : Settings) (fromV0 : Bool) (memory : Memory)
    (rom : List UInt8) :
    { c.withSettings settings fromV0 with memory, rom } =
      ({ c with memory, rom } : Processor).withSettings settings fromV0 := rfl

theorem withSettings_load (c : Processor) (settings : Settings) (fromV0 : Bool) (rom : List UInt8) :
    (c.withSettings settings fromV0).load rom =
      ((c.load rom).1.withSettings settings fromV0, (c.load rom).2) := by
  have hmemory : (c.withSettings settings fromV0).memory = c.memory := rfl
  rw [load_eq, load_eq, hmemory]
  -- The memory of either case is left closed: opened, it is 4096 cells.
  split
  · exact congrArg (·, Except.ok ()) (c.withSettings_loaded settings fromV0 _ rom)
  · exact congrArg (·, Except.error _) (c.withSettings_loaded settings fromV0 _ c.rom)

theorem withSettings_restarted (c : Processor) (settings : Settings) (fromV0 : Bool) (memory : Memory) :
    (c.withSettings settings fromV0).restarted memory = (c.restarted memory).withSettings settings fromV0 := rfl

theorem withSettings_reset (c : Processor) (settings : Settings) (fromV0 : Bool) :
    (c.withSettings settings fromV0).reset = (c.reset.1.withSettings settings fromV0, c.reset.2) := by
  cases h : (c.memory.clearRegion .program).loadRegion .program c.rom with
  | ok memory =>
    rw [reset_of_loaded h, reset_of_loaded (c := c.withSettings settings fromV0) h, withSettings_restarted]
  | error fault =>
    rw [reset_of_refused h, reset_of_refused (c := c.withSettings settings fromV0) h,
      withSettings_restarted]
    rfl

end Processor

/-! ## Relations between channels -/

namespace Channel

/-- Under the relation the keys are the same, and what an instruction does to a
channel, done to both, keeps it. -/
structure Bond (R : Channel → Channel → Prop) : Prop where
  keys {c d : Channel} : R c d → d.shared.keys = c.shared.keys
  note {c d : Channel} : R c d → ∀ (level : Level) (origin : Origin) (text : String), origin ≠ .channel →
    R (c.note level origin text) (d.note level origin text)
  updateScreen {c d : Channel} : R c d → ∀ s, R (c.updateScreen s) (d.updateScreen s)
  updateSound {c d : Channel} : R c d → ∀ on, R (c.updateSound on) (d.updateSound on)
  setDelay {c d : Channel} : R c d → ∀ ticks, R (c.update (·.setDelay ticks)) (d.update (·.setDelay ticks))
  setSoundTimer {c d : Channel} : R c d → ∀ ticks,
    R (c.update (·.setSoundTimer ticks)) (d.update (·.setSoundTimer ticks))
  shutdown {c d : Channel} : R c d → R c.shutdown d.shutdown

/-- What is logged of a message that the link refused. Nothing else is logged so. -/
def refusal : LogEntry := ⟨.warn, .channel, Fault.sendRefused.message⟩

/-- A screen that is too large to send is logged in other words. -/
theorem tooLarge_ne_refusal (width height : Nat) :
    (⟨.warn, .channel, "screen of " ++ toString width ++ "x" ++ toString height ++ " is too large to send"⟩ :
      LogEntry) ≠ refusal := by
  intro heq
  have htext := congrArg (fun e => e.text.toList.head?) heq
  have hscreen : ("screen of " ++ toString width ++ "x" ++ toString height ++
      " is too large to send").toList.head? = some 's' := by
    simp only [String.toList_append]
    rfl
  have hrefused : refusal.text.toList.head? = some 'c' := rfl
  cases hscreen.symm.trans (htext.trans hrefused)

/-- Under the relation the shared state is the same, and every single access,
done to both channels, keeps it. -/
structure Congruence (R : Channel → Channel → Prop) : Prop where
  shared {c d : Channel} : R c d → d.shared = c.shared
  update {c d : Channel} : R c d → ∀ f, R (c.update f) (d.update f)
  note {c d : Channel} : R c d → ∀ (level : Level) (origin : Origin) (text : String),
    (⟨level, origin, text⟩ : LogEntry) ≠ refusal → R (c.note level origin text) (d.note level origin text)
  push {c d : Channel} : R c d → ∀ m, R (c.push m) (d.push m)

namespace Congruence

variable {R : Channel → Channel → Prop} {c d : Channel}

theorem updateSoundAndKeys (hR : Congruence R) (h : R c d) : R c.updateSoundAndKeys d.updateSoundAndKeys := by
  have hsnapshot : d.snapshot = c.snapshot := by simp only [snapshot, hR.shared h]
  unfold Channel.updateSoundAndKeys
  rw [hsnapshot]
  exact hR.push h _

theorem updateScreen (hR : Congruence R) (h : R c d) (s : Screen) : R (c.updateScreen s) (d.updateScreen s) := by
  have hsnapshot : d.snapshot = c.snapshot := by simp only [snapshot, hR.shared h]
  unfold Channel.updateScreen
  rw [hsnapshot]
  split
  · exact hR.push h _
  · exact hR.note h _ _ _ (tooLarge_ne_refusal _ _)

theorem updateSound (hR : Congruence R) (h : R c d) (on : Bool) : R (c.updateSound on) (d.updateSound on) := by
  have hshared := hR.shared h
  by_cases hon : c.shared.sound = on
  · have hsame : d.updateSound on = d := by
      rw [← hon, ← hshared]
      exact d.updateSound_same
    rw [hsame, ← hon, updateSound_same]
    exact h
  · have hon' : d.shared.sound ≠ on := by rwa [hshared]
    rw [updateSound_changed hon, updateSound_changed hon']
    exact hR.updateSoundAndKeys (hR.update h _)

theorem shutdown (hR : Congruence R) (h : R c d) : R c.shutdown d.shutdown :=
  hR.update (hR.updateSoundAndKeys (hR.update h _)) _

theorem tick (hR : Congruence R) (h : R c d) : R (Timer.tick c) (Timer.tick d) := by
  have hcounted : R (c.update fun s => s.countDelay.countSound.2) (d.update fun s => s.countDelay.countSound.2) :=
    hR.update h _
  by_cases hlast : c.shared.soundTimer = 1
  · have hlast' : d.shared.soundTimer = 1 := by rwa [hR.shared h]
    rw [Timer.tick_of_last hlast, Timer.tick_of_last hlast']
    exact hR.updateSound hcounted false
  · have hgoing' : d.shared.soundTimer ≠ 1 := by rwa [hR.shared h]
    rw [Timer.tick_of_going hlast, Timer.tick_of_going hgoing']
    exact hcounted

/-- Equal channels stay equal. -/
theorem eq : Congruence Eq where
  shared h := by rw [h]
  update h _ := by rw [h]
  note h _ _ _ _ := by rw [h]
  push h _ := by rw [h]

theorem bond (hR : Congruence R) : Bond R where
  keys h := by rw [hR.shared h]
  note h level origin text horigin :=
    hR.note h level origin text fun hrefusal => horigin (congrArg LogEntry.origin hrefusal)
  updateScreen h s := hR.updateScreen h s
  updateSound h on := hR.updateSound h on
  setDelay h _ := hR.update h _
  setSoundTimer h _ := hR.update h _
  shutdown h := hR.shutdown h

end Congruence

end Channel

open Channel (Bond Congruence)

namespace Machine

/-- The second machine is the first one under the given settings, with the given
offset named by its tracer, and over a channel bound to the first one's. -/
def Twins (R : Channel → Channel → Prop) (settings : Settings) (fromV0 : Bool) (m n : Machine) : Prop :=
  ∃ channel, n = ⟨m.cpu.withSettings settings fromV0, m.screen, channel⟩ ∧ R m.channel channel

/-- The results are the same, and the machines that they come with are twins. -/
def TwinResults {α : Type} (R : Channel → Channel → Prop) (settings : Settings) (fromV0 : Bool)
    (p q : Machine × α) : Prop :=
  q.2 = p.2 ∧ Twins R settings fromV0 p.1 q.1

section

variable {R : Channel → Channel → Prop} {settings : Settings} {fromV0 : Bool} {m n : Machine}

theorem Twins.updateProcessor (h : Twins R settings fromV0 m n) {f g : Processor → Processor}
    (hfg : g (m.cpu.withSettings settings fromV0) = (f m.cpu).withSettings settings fromV0) :
    Twins R settings fromV0 (m.updateProcessor f) (n.updateProcessor g) := by
  obtain ⟨d, rfl, hd⟩ := h
  refine ⟨d, ?_, hd⟩
  simp only [Machine.updateProcessor, hfg]

theorem Twins.updateChannel (h : Twins R settings fromV0 m n) {f g : Channel → Channel}
    (hfg : R m.channel n.channel → R (f m.channel) (g n.channel)) :
    Twins R settings fromV0 (m.updateChannel f) (n.updateChannel g) := by
  obtain ⟨d, rfl, hd⟩ := h
  exact ⟨g d, rfl, hfg hd⟩

theorem Twins.keys (hR : Bond R) (h : Twins R settings fromV0 m n) :
    n.channel.shared.keys = m.channel.shared.keys := by
  obtain ⟨d, rfl, hd⟩ := h
  exact hR.keys hd

theorem Twins.shared (hR : Congruence R) (h : Twins R settings fromV0 m n) :
    n.channel.shared = m.channel.shared := by
  obtain ⟨d, rfl, hd⟩ := h
  exact hR.shared hd

/-! ## Instructions -/

theorem Twins.note (hR : Bond R) (h : Twins R settings fromV0 m n) (level : Level) {origin : Origin}
    (text : String) (horigin : origin ≠ .channel) :
    Twins R settings fromV0 (m.note level origin text) (n.note level origin text) :=
  h.updateChannel fun hd => hR.note hd level origin text horigin

theorem Twins.clearScreen (hR : Bond R) (h : Twins R settings fromV0 m n) :
    Twins R settings fromV0 m.clearScreen n.clearScreen := by
  obtain ⟨d, rfl, hd⟩ := h
  exact ⟨_, rfl, hR.updateScreen hd _⟩

theorem Twins.reset (hR : Bond R) (h : Twins R settings fromV0 m n) : Twins R settings fromV0 m.reset n.reset := by
  obtain ⟨d, rfl, hd⟩ := h
  have hcpu := m.cpu.withSettings_reset settings fromV0
  simp only [Machine.reset, hcpu]
  rcases m.cpu.reset with ⟨cpu, _ | fault⟩
  · exact ⟨d, rfl, hd⟩
  · exact ⟨_, rfl, hR.note hd _ _ _ nofun⟩

theorem Twins.returnToCaller (hR : Bond R) (h : Twins R settings fromV0 m n) :
    Twins R settings fromV0 m.returnToCaller n.returnToCaller := by
  obtain ⟨d, rfl, hd⟩ := h
  have hstack : (m.cpu.withSettings settings fromV0).stack = m.cpu.stack := rfl
  simp only [Machine.returnToCaller, hstack]
  rcases m.cpu.stack.pop with ⟨stack, fault | address⟩
  · exact ⟨_, rfl, hR.note hd _ _ _ nofun⟩
  · exact ⟨d, rfl, hd⟩

theorem Twins.call (hR : Bond R) (h : Twins R settings fromV0 m n) (target : Address) :
    Twins R settings fromV0 (m.call target) (n.call target) := by
  obtain ⟨d, rfl, hd⟩ := h
  have hpush : (m.cpu.withSettings settings fromV0).stack.push (m.cpu.withSettings settings fromV0).pc =
      m.cpu.stack.push m.cpu.pc := rfl
  simp only [Machine.call, hpush]
  rcases m.cpu.stack.push m.cpu.pc with ⟨stack, fault | pushed⟩
  · exact ⟨_, rfl, hR.note hd _ _ _ nofun⟩
  · exact ⟨d, rfl, hd⟩

theorem Twins.restart (hR : Bond R) (h : Twins R settings fromV0 m n) :
    Twins R settings fromV0 m.restart n.restart := by
  have htimers : Twins R settings fromV0
      (m.reset.updateChannel fun c => c.update fun s => (s.setDelay 0).setSoundTimer 0)
      (n.reset.updateChannel fun c => c.update fun s => (s.setDelay 0).setSoundTimer 0) :=
    (h.reset hR).updateChannel fun hd => hR.setSoundTimer (hR.setDelay hd 0) 0
  have hsilent := htimers.updateChannel (f := (·.updateSound false)) (g := (·.updateSound false))
    fun hd => hR.updateSound hd false
  exact hsilent.clearScreen hR

theorem jump_twins (hR : Bond R) (h : Twins R settings fromV0 m n) (target : Address)
    (hend : settings.endOnLoop = m.cpu.settings.endOnLoop)
    (hrestart : settings.restartOnLoop = m.cpu.settings.restartOnLoop) :
    TwinResults R settings fromV0 (m.jump target) (n.jump target) := by
  have hgoes : Twins R settings fromV0 (m.updateProcessor (·.jump target)) (n.updateProcessor (·.jump target)) :=
    h.updateProcessor rfl
  have hnoted : ∀ text, Twins R settings fromV0 (m.note .info .instruction text) (n.note .info .instruction text) :=
    fun text => h.note hR _ text nofun
  have hpc : n.cpu.pc = m.cpu.pc := by
    obtain ⟨d, rfl, -⟩ := h
    rfl
  have hsettings : n.cpu.settings = settings := by
    obtain ⟨d, rfl, -⟩ := h
    rfl
  simp only [jump, hpc, hsettings, hend, hrestart]
  split
  · exact ⟨rfl, hgoes⟩
  split
  · exact ⟨rfl, (hnoted _).updateChannel hR.shutdown⟩
  split
  · exact ⟨rfl, (hnoted _).restart hR⟩
  · exact ⟨rfl, hgoes⟩

theorem draw_twins (hR : Bond R) (h : Twins R settings fromV0 m n) (x y : Register) (rows : Nibble) :
    TwinResults R settings fromV0 (m.draw x y rows) (n.draw x y rows) := by
  obtain ⟨d, rfl, hd⟩ := h
  by_cases hempty : m.screen.width = 0 ∨ m.screen.height = 0
  · simp only [draw, if_pos hempty]
    exact ⟨rfl, d, rfl, hd⟩
  · rw [draw_eq hempty, draw_eq (m := ⟨m.cpu.withSettings settings fromV0, m.screen, d⟩) hempty]
    exact ⟨rfl, _, rfl, hR.updateScreen hd _⟩

theorem awaitKey_twins (hR : Bond R) (h : Twins R settings fromV0 m n) (x : Register) :
    TwinResults R settings fromV0 (m.awaitKey x) (n.awaitKey x) := by
  have hkey : n.channel.shared.lowestKey? = m.channel.shared.lowestKey? := by
    simp only [SharedState.lowestKey?, h.keys hR]
  have hset : ∀ key, Twins R settings fromV0 (m.updateProcessor (·.set x key)) (n.updateProcessor (·.set x key)) :=
    fun key => h.updateProcessor rfl
  have hback : Twins R settings fromV0 (m.updateProcessor Processor.rewind) (n.updateProcessor Processor.rewind) :=
    h.updateProcessor rfl
  unfold awaitKey
  rw [hkey]
  cases m.channel.shared.lowestKey? with
  | some key => exact ⟨rfl, hset key⟩
  | none => exact ⟨rfl, hback⟩

theorem Twins.setSound (hR : Bond R) (h : Twins R settings fromV0 m n) (x : Register) :
    Twins R settings fromV0 (m.setSound x) (n.setSound x) := by
  obtain ⟨d, rfl, hd⟩ := h
  exact ⟨_, rfl, hR.setSoundTimer (hR.updateSound hd _) _⟩

/-- **Twins execute alike** an instruction for which their settings agree, and
their delay timers too if it reads that. -/
theorem execute_twins (hR : Bond R) (h : Twins R settings fromV0 m n) (random : UInt8) {i : Instruction}
    (hasks : m.cpu.settings.AgreeOn settings i)
    (hdelay : ∀ x, i = .getDelay x → n.channel.shared.delay = m.channel.shared.delay) :
    TwinResults R settings fromV0 (m.execute random i) (n.execute random i) := by
  have plain : ∀ {m' n' : Machine}, Twins R settings fromV0 m' n' →
      TwinResults R settings fromV0 (m', (.ok .continued : Except Fault Outcome)) (n', .ok .continued) :=
    fun htwins => ⟨rfl, htwins⟩
  have onProcessor : ∀ {f g : Processor → Processor},
      g (m.cpu.withSettings settings fromV0) = (f m.cpu).withSettings settings fromV0 →
      TwinResults R settings fromV0 (m.updateProcessor f, (.ok .continued : Except Fault Outcome))
        (n.updateProcessor g, .ok .continued) :=
    fun hfg => plain (h.updateProcessor hfg)
  have hheld : n.channel.shared.isHeld = m.channel.shared.isHeld := by
    funext key
    simp only [SharedState.isHeld, h.keys hR]
  have hdialect := hasks.dialect
  cases i with
  | clearScreen => exact plain (h.clearScreen hR)
  | ret => exact plain (h.returnToCaller hR)
  | jump target =>
    obtain ⟨houtcome, hmachine⟩ := jump_twins hR h target hasks.endOnLoop hasks.restartOnLoop
    exact ⟨congrArg Except.ok houtcome, hmachine⟩
  | call target => exact plain (h.call hR target)
  | skipIfByte x b => exact onProcessor (m.cpu.withSettings_skipIf _ _ (m.cpu.get x == b))
  | skipUnlessByte x b => exact onProcessor (m.cpu.withSettings_skipIf _ _ (m.cpu.get x != b))
  | skipIfEqual x y => exact onProcessor (m.cpu.withSettings_skipIf _ _ (m.cpu.get x == m.cpu.get y))
  | skipUnlessEqual x y => exact onProcessor (m.cpu.withSettings_skipIf _ _ (m.cpu.get x != m.cpu.get y))
  | skipIfKey x =>
    simp only [execute, hheld]
    exact onProcessor (m.cpu.withSettings_skipIf _ _ (m.channel.shared.isHeld (m.cpu.get x)))
  | skipUnlessKey x =>
    simp only [execute, hheld]
    exact onProcessor (m.cpu.withSettings_skipIf _ _ (!m.channel.shared.isHeld (m.cpu.get x)))
  | setByte | addByte | random | setIndex | glyph | decimal => exact onProcessor rfl
  | compute op x y => exact onProcessor (m.cpu.withSettings_compute fromV0 hdialect)
  | jumpIndexed target => exact onProcessor (m.cpu.withSettings_jumpIndexed fromV0 hdialect)
  | draw x y rows => exact draw_twins hR h x y rows
  | getDelay x =>
    simp only [execute, hdelay x rfl]
    exact onProcessor rfl
  | awaitKey x =>
    obtain ⟨houtcome, hmachine⟩ := awaitKey_twins hR h x
    exact ⟨congrArg Except.ok houtcome, hmachine⟩
  | setDelay x =>
    obtain ⟨d, rfl, hd⟩ := h
    exact ⟨rfl, _, rfl, hR.setDelay hd _⟩
  | setSound x => exact plain (h.setSound hR x)
  | addIndex x =>
    exact onProcessor (m.cpu.withSettings_addIndex fromV0 x (hdialect.resolve_right nofun))
  | store x =>
    exact onProcessor (m.cpu.withSettings_storeRegisters fromV0 x (hdialect.resolve_right nofun))
  | load x =>
    exact onProcessor (m.cpu.withSettings_loadRegisters fromV0 x (hdialect.resolve_right nofun))

/-! ## Steps -/

/-- What the listing names as the offset of indexed jumps after a step. -/
def listsNext (m : Machine) : Bool :=
  match m.cpu.memory.readWord m.cpu.pc with
  | some word => m.listsFromV0 word
  | none => m.cpu.tracer.jumpsFromV0

theorem fetched_twins (h : Twins R settings fromV0 m n) {word : UInt16}
    (hfetched : R (m.fetched word).channel (n.fetched word).channel) :
    Twins R settings (n.listsFromV0 word) (m.fetched word) (n.fetched word) := by
  refine ⟨(n.fetched word).channel, ?_, hfetched⟩
  obtain ⟨d, rfl, -⟩ := h
  simp only [fetched_eq]
  rfl

/-- **Twins take the same step**, if the settings agree on the instruction that
is next and the channels are still bound once it is fetched. -/
theorem step_twins (hR : Bond R) (h : Twins R settings fromV0 m n) (random : UInt8)
    (hfetched : ∀ word, m.cpu.memory.readWord m.cpu.pc = some word →
      R (m.fetched word).channel (n.fetched word).channel)
    (hasks : ∀ i : Instruction, m.cpu.memory.readWord m.cpu.pc = some i.toWord →
      m.cpu.settings.AgreeOn settings i)
    (hdelay : ∀ x, m.cpu.memory.readWord m.cpu.pc = some (Instruction.getDelay x).toWord →
      n.channel.shared.delay = m.channel.shared.delay) :
    TwinResults R settings n.listsNext (m.step random) (n.step random) := by
  have hpc : n.cpu.pc = m.cpu.pc := by
    obtain ⟨d, rfl, -⟩ := h
    rfl
  have hnword : n.cpu.memory.readWord n.cpu.pc = m.cpu.memory.readWord m.cpu.pc := by
    obtain ⟨d, rfl, -⟩ := h
    rfl
  rcases step_cases m random with ⟨hword, hs⟩ | ⟨word, i, hword, hi, hs⟩ | ⟨word, hword, hi, hclass, hs⟩ |
    ⟨word, hword, hi, hclass, hs⟩
  · have hlists : n.listsNext = fromV0 := by
      simp only [listsNext, hnword, hword]
      obtain ⟨d, rfl, -⟩ := h
      rfl
    rw [hs, step_of_no_word random (hnword.trans hword), hpc, hlists]
    exact ⟨rfl, h⟩
  all_goals
    have hlists : n.listsNext = n.listsFromV0 word := by simp only [listsNext, hnword, hword]
    have htwins := fetched_twins h (hfetched word hword)
    rw [hlists]
  · rw [hs, step_of_instruction random (hnword.trans hword) hi]
    have hform := hword
    rw [← Instruction.toWord_of_ofWord? hi] at hform
    refine execute_twins hR htwins random ?_ ?_
    · rw [fetched_cpu]
      exact hasks i hform
    · rintro x rfl
      rw [fetched_shared, fetched_shared]
      exact hdelay x hform
  · rw [hs, step_of_machineCode random (hnword.trans hword) hi hclass, hpc]
    exact ⟨rfl, htwins⟩
  · rw [hs, step_of_ignored random (hnword.trans hword) hi hclass, hpc]
    exact ⟨rfl, htwins.note hR _ _ nofun⟩

/-! ## Operations -/

/-- What the listing names as the offset of indexed jumps after an operation. -/
def listsAfter (m : Machine) : Operation → Bool
  | .act (.step _) => m.listsNext
  | _ => m.cpu.tracer.jumpsFromV0

theorem Twins.replaceSettings (h : Twins R settings fromV0 m n) (s t : Settings) :
    Twins R t fromV0 (m.operate (.replaceSettings s)) (n.operate (.replaceSettings t)) := by
  obtain ⟨d, rfl, hd⟩ := h
  exact ⟨d, rfl, hd⟩

theorem Twins.load (h : Twins R settings fromV0 m n) (rom : List UInt8) :
    Twins R settings fromV0 (m.operate (.load rom)) (n.operate (.load rom)) :=
  h.updateProcessor (f := fun c => (c.load rom).1) (g := fun c => (c.load rom).1)
    (congrArg Prod.fst (m.cpu.withSettings_load settings fromV0 rom))

theorem Twins.setRegister (h : Twins R settings fromV0 m n) (register : Nat) (value : UInt8) :
    Twins R settings fromV0 (m.operate (.setRegister register value)) (n.operate (.setRegister register value)) := by
  obtain ⟨d, rfl, hd⟩ := h
  simp only [operate, Machine.updateProcessor, Processor.setRegister]
  split
  · exact ⟨d, rfl, hd⟩
  · exact ⟨d, rfl, hd⟩

theorem Twins.flip (h : Twins R settings fromV0 m n) (x y : Nat) :
    Twins R settings fromV0 (m.operate (.flip x y)) (n.operate (.flip x y)) := by
  obtain ⟨d, rfl, hd⟩ := h
  simp only [operate]
  cases m.screen.flip? x y with
  | some flipped => exact ⟨d, rfl, hd⟩
  | none => exact ⟨d, rfl, hd⟩

/-- **What happens to both of two twins leaves them twins**, if their settings
differ in whether they print at most and fetching, in a step, keeps their channels
bound. -/
theorem operate_twins (hR : Congruence R) (h : Twins R settings fromV0 m n)
    (hasks : ∀ i, m.cpu.settings.AgreeOn settings i) {o : Operation} (ho : ∀ t, o ≠ .replaceSettings t)
    (hfetched : ∀ random, o = .act (.step random) →
      ∀ word, R (m.fetched word).channel (n.fetched word).channel) :
    Twins R settings (n.listsAfter o) (m.operate o) (n.operate o) := by
  -- Only a step sets up the tracer.
  have quiet : ∀ {o : Operation} {m' n' : Machine}, n.listsAfter o = n.cpu.tracer.jumpsFromV0 →
      Twins R settings fromV0 m' n' → Twins R settings (n.listsAfter o) m' n' := by
    intro o m' n' hlists htwins
    obtain ⟨d, rfl, -⟩ := h
    rw [hlists]
    exact htwins
  have onShared : ∀ f : SharedState → SharedState, Twins R settings fromV0 (m.updateShared f) (n.updateShared f) :=
    fun f => h.updateChannel (f := (·.update f)) (g := (·.update f)) fun hd => hR.update hd f
  cases o with
  | act a =>
    cases a with
    | step random =>
      exact (step_twins hR.bond h random (fun word _ => hfetched random rfl word) (fun i _ => hasks i)
        fun _ _ => by rw [h.shared hR]).2
    | tickTimer => exact quiet rfl (h.updateChannel (f := Timer.tick) (g := Timer.tick) hR.tick)
    | setKeys | press | release | receive => exact quiet rfl (onShared _)
    | showScreen =>
      obtain ⟨d, rfl, hd⟩ := h
      exact ⟨_, rfl, hR.updateScreen hd _⟩
    | updateSound on =>
      exact quiet rfl (h.updateChannel (f := (·.updateSound on)) (g := (·.updateSound on)) (hR.updateSound · on))
    | updateSoundAndKeys =>
      exact quiet rfl (h.updateChannel (f := Channel.updateSoundAndKeys) (g := Channel.updateSoundAndKeys)
        hR.updateSoundAndKeys)
    | shutdown => exact quiet rfl (h.updateChannel (f := Channel.shutdown) (g := Channel.shutdown) hR.shutdown)
  | load rom => exact quiet rfl (h.load rom)
  | reset => exact quiet rfl (h.reset hR.bond)
  | setRegister register value => exact quiet rfl (h.setRegister register value)
  | replaceSettings t => exact absurd rfl (ho t)
  | flip x y => exact quiet rfl (h.flip x y)
  | darken =>
    obtain ⟨d, rfl, hd⟩ := h
    exact ⟨d, rfl, hd⟩
  | setDelay | setSoundTimer | stop => exact quiet rfl (onShared _)

/-! ## The same machine over another channel -/

/-- The second machine is the first one over a channel bound to its own. -/
def Over (R : Channel → Channel → Prop) (m n : Machine) : Prop :=
  ∃ channel, n = { m with channel } ∧ R m.channel channel

theorem Over.twins (h : Over R m n) : Twins R m.cpu.settings m.cpu.tracer.jumpsFromV0 m n := by
  obtain ⟨d, rfl, hd⟩ := h
  exact ⟨d, rfl, hd⟩

/-- Twins of a machine that is its own twin in the same way have its processor. -/
theorem Twins.over (h : Twins R settings fromV0 m n) (hself : Twins Eq settings fromV0 m m) : Over R m n := by
  obtain ⟨d, rfl, hd⟩ := h
  obtain ⟨_, hm, -⟩ := hself
  have hcpu : m.cpu.withSettings settings fromV0 = m.cpu := (congrArg Machine.cpu hm).symm
  exact ⟨d, by rw [hcpu], hd⟩

theorem step_over (hR : Bond R) (h : Over R m n) (random : UInt8)
    (hfetched : ∀ word, R (m.fetched word).channel (n.fetched word).channel)
    (hdelay : ∀ x, m.cpu.memory.readWord m.cpu.pc = some (Instruction.getDelay x).toWord →
      n.channel.shared.delay = m.channel.shared.delay) :
    (n.step random).2 = (m.step random).2 ∧ Over R (m.step random).1 (n.step random).1 := by
  have hasks := fun (i : Instruction) (_ : m.cpu.memory.readWord m.cpu.pc = some i.toWord) =>
    Settings.AgreeOn.refl m.cpu.settings i
  obtain ⟨hresult, htwins⟩ := step_twins hR h.twins random (fun word _ => hfetched word) hasks hdelay
  have hself := step_twins Congruence.eq.bond (n := m) ⟨m.channel, rfl, rfl⟩ random (fun _ _ => rfl) hasks
    fun _ _ => rfl
  have hlists : n.listsNext = m.listsNext := by
    obtain ⟨d, rfl, -⟩ := h
    rfl
  rw [hlists] at htwins
  exact ⟨hresult, htwins.over hself.2⟩

theorem operate_over (hR : Congruence R) (h : Over R m n) {o : Operation}
    (hfetched : ∀ random, o = .act (.step random) →
      ∀ word, R (m.fetched word).channel (n.fetched word).channel) :
    Over R (m.operate o) (n.operate o) := by
  by_cases ho : ∃ t, o = .replaceSettings t
  · obtain ⟨t, rfl⟩ := ho
    obtain ⟨d, rfl, hd⟩ := h
    exact ⟨d, rfl, hd⟩
  · have ho : ∀ t, o ≠ .replaceSettings t := fun t ht => ho ⟨t, ht⟩
    have hasks := fun i => Settings.AgreeOn.refl m.cpu.settings i
    have htwins := operate_twins hR h.twins hasks ho hfetched
    have hself := operate_twins Congruence.eq (n := m) ⟨m.channel, rfl, rfl⟩ hasks ho fun _ _ _ => rfl
    have hlists : n.listsAfter o = m.listsAfter o := by
      obtain ⟨d, rfl, -⟩ := h
      rfl
    rw [hlists] at htwins
    exact htwins.over hself

end

end Machine

end Chip8
