/-
What a step may change. `Machine.footprint` is a table: for each instruction the
cells, the registers and the other parts of the machine that it may touch, some
of them under a condition on the machine that it finds. `Within f m n` says that
`n` differs from `m` in nothing but what the footprint `f` allows.

A step stays within the footprint of its instruction, and a word that stands for
no instruction touches nothing (`step_footprint`). No footprint speaks of what
every instruction may change: the program counter, the cycle count, and what is
sent, logged and printed.

Processor, channel and machine each have their own `Within`. It composes, so an
operation made of smaller ones is within a footprint if each of them is, and an
instruction is one operation or two.
-/
import Chip8.Proofs.ChannelFacts
import Chip8.Proofs.StepOutcome

namespace Chip8

/-- The computation sets the flag register. -/
def AluOp.setsFlag : AluOp → Bool
  | .add | .sub | .shiftRight | .reverseSub | .shiftLeft => true
  | .copy | .or | .and | .xor => false

/-- What may be changed. Nothing may that is not named. -/
structure Footprint where
  /-- Cells of memory, by their address. -/
  cell : Nat → Prop := fun _ => False
  register : Register → Prop := fun _ => False
  index : Prop := False
  /-- The return addresses on the call stack. -/
  calls : Prop := False
  screen : Prop := False
  delay : Prop := False
  sound : Prop := False
  soundTimer : Prop := False
  /-- The keys, and whether the machine runs. -/
  keys : Prop := False

/-- What the instruction at an address may change. -/
def Machine.footprint (m : Machine) (address : UInt16) : Instruction → Footprint
  | .clearScreen => { screen := True }
  | .ret | .call _ => { calls := True }
  | .jump target =>
    -- Only a jump to itself does more than to go on elsewhere.
    if target.val ≠ address.toNat then {}
    else if m.cpu.settings.endOnLoop then { sound := True, keys := True }
    else if m.cpu.settings.restartOnLoop then
      { cell := fun a => ∃ s, m.cpu.memory.span? .program = some s ∧ s.start ≤ a ∧ a < s.stop
        register := fun _ => True
        index := True, calls := True, screen := True, delay := True, sound := True, soundTimer := True }
    else {}
  | .setByte x _ | .addByte x _ | .random x _ | .getDelay x => { register := fun r => r = x }
  | .awaitKey x => { register := fun r => r = x ∧ m.channel.shared.keys ≠ 0 }
  | .compute op x _ => { register := fun r => r = x ∨ r = Processor.flag ∧ op.setsFlag = true }
  | .draw _ _ _ => { screen := True, register := fun r => r = Processor.flag }
  | .setIndex _ | .glyph _ => { index := True }
  | .addIndex _ =>
    { index := True
      register := fun r => r = Processor.flag ∧ m.cpu.settings.dialect.strictCosmac = false }
  | .decimal _ => { cell := fun a => ∃ k < 3, a = (m.cpu.index.toNat + k) % memorySize }
  | .store x =>
    { cell := fun a => ∃ k ≤ x.val, a = (m.cpu.index.toNat + k) % memorySize
      index := m.cpu.settings.dialect.advancesIndex = true }
  | .load x =>
    { register := fun r => r ≤ x
      index := m.cpu.settings.dialect.advancesIndex = true }
  | .setDelay _ => { delay := True }
  | .setSound _ => { sound := True, soundTimer := True }
  | .skipIfByte _ _ | .skipUnlessByte _ _ | .skipIfEqual _ _ | .skipUnlessEqual _ _ | .skipIfKey _
  | .skipUnlessKey _ | .jumpIndexed _ => {}

/-! ## The processor -/

namespace Memory

/-- Writing leaves every cell alone that is not one of those written to. -/
theorem getElem_writeAll_of_ne (m : Memory) (address : UInt16) (data : List UInt8) {a : Nat}
    (ha : a < memorySize) (h : ∀ k < data.length, a ≠ (address.toNat + k) % memorySize) :
    (m.writeAll address data).cells[a] = m.cells[a] := by
  induction data generalizing m address with
  | nil => rfl
  | cons b bs ih =>
    -- An address wraps at a multiple of the size of memory, so it does no harm if it wraps first.
    have hrest : ∀ k < bs.length, a ≠ ((address + 1).toNat + k) % memorySize := by
      intro k hk
      have hnext := h (k + 1) (Nat.succ_lt_succ hk)
      have hadd : (address + 1).toNat = (address.toNat + 1) % 65536 := UInt16.toNat_add _ _
      simp only [memorySize] at hnext ⊢
      omega
    have hfirst : (cell address).val ≠ a := (h 0 (Nat.succ_pos _)).symm
    rw [writeAll, ih (m.write address b) (address + 1) hrest]
    exact Vector.getElem_set_ne (cell address).isLt ha hfirst

end Memory

namespace Processor

/-- Starting afresh leaves every cell alone that is before the program. -/
theorem getElem_reset_of_lt (c : Processor) {a : Nat} (ha : a < memorySize)
    (hbelow : a < c.memory.programBase.val) : c.reset.1.memory.cells[a] = c.memory.cells[a] := by
  have hout : ¬ c.memory.programBase.val ≤ a := Nat.not_le_of_lt hbelow
  by_cases hfits : c.rom.length ≤ memorySize - c.memory.programBase.val
  · rw [reset_of_fits hfits]
    exact (c.memory.getElem_withProgram c.rom ha).trans (if_neg hout)
  · have hrefused := (c.memory.clearRegion .program).loadRegion_program c.rom
    rw [Memory.clearRegion_programBase, if_neg hfits] at hrefused
    rw [reset_of_refused hrefused]
    exact (c.memory.getElem_clearRegion .program ha).trans (if_neg fun h => hout h.1)

theorem restarted_tracer (c : Processor) (memory : Memory) : (c.restarted memory).tracer = c.tracer := rfl

theorem reset_tracer (c : Processor) : c.reset.1.tracer = c.tracer := by
  -- The memory of either case is left closed: opened, it is 4096 cells.
  rw [reset_eq]
  split <;> exact c.restarted_tracer _

/-- The second processor differs from the first only where the footprint allows,
the program counter and the cycle count apart. -/
structure Within (f : Footprint) (c d : Processor) : Prop extends SameSetup c d where
  cells : ∀ (a : Nat) (ha : a < memorySize), ¬ f.cell a → d.memory.cells[a] = c.memory.cells[a]
  registers : ∀ r, ¬ f.register r → d.get r = c.get r
  index : ¬ f.index → d.index = c.index
  calls : ¬ f.calls → d.stack.live = c.stack.live
  /-- Only tracing sets up the tracer. -/
  tracer : c.settings.debug = false → d.tracer = c.tracer

namespace Within

variable {f : Footprint}

theorem refl (c : Processor) : Within f c c :=
  ⟨.refl c, fun _ _ _ => rfl, fun _ _ => rfl, fun _ => rfl, fun _ => rfl, fun _ => rfl⟩

theorem trans {c d e : Processor} (h : Within f c d) (k : Within f d e) : Within f c e where
  toSameSetup := h.toSameSetup.trans k.toSameSetup
  cells a ha hcell := (k.cells a ha hcell).trans (h.cells a ha hcell)
  registers r hr := (k.registers r hr).trans (h.registers r hr)
  index hindex := (k.index hindex).trans (h.index hindex)
  calls hcalls := (k.calls hcalls).trans (h.calls hcalls)
  tracer hdebug := (k.tracer (h.settings ▸ hdebug)).trans (h.tracer hdebug)

/-- An operation that writes registers, the index, the program counter or cells. -/
theorem of_parts (c : Processor) {v : Registers} {index pc : UInt16} {memory : Memory}
    (hbases : memory.charsetBase = c.memory.charsetBase ∧ memory.programBase = c.memory.programBase)
    (hcells : ∀ (a : Nat) (ha : a < memorySize), ¬ f.cell a → memory.cells[a] = c.memory.cells[a])
    (hv : ∀ r : Register, ¬ f.register r → v[r] = c.v[r]) (hindex : ¬ f.index → index = c.index) :
    Within f c { c with v, index, pc, memory } :=
  ⟨(Kept.of_parts c v index pc memory hbases.1 hbases.2).toSameSetup, hcells, hv, hindex, fun _ => rfl,
    fun _ => rfl⟩

theorem set_pc (c : Processor) (pc : UInt16) : Within f c { c with pc } :=
  of_parts c ⟨rfl, rfl⟩ (fun _ _ _ => rfl) (fun _ _ => rfl) (fun _ => rfl)

theorem set_index (c : Processor) (index : UInt16) (h : f.index) : Within f c { c with index } :=
  of_parts c ⟨rfl, rfl⟩ (fun _ _ _ => rfl) (fun _ _ => rfl) (fun hindex => absurd h hindex)

theorem set_stack (c : Processor) (stack : CallStack) (pc : UInt16) (h : f.calls) :
    Within f c { c with stack, pc } :=
  ⟨⟨rfl, rfl, rfl, rfl, rfl, rfl, rfl, rfl⟩, fun _ _ _ => rfl, fun _ _ => rfl, fun _ => rfl,
    fun hcalls => absurd h hcalls, fun _ => rfl⟩

theorem set (c : Processor) (x : Register) (value : UInt8) (h : f.register x) :
    Within f c (c.set x value) := by
  refine of_parts c ⟨rfl, rfl⟩ (fun _ _ _ => rfl) (fun r hr => ?_) (fun _ => rfl)
  have hne : r ≠ x := fun heq => hr (heq ▸ h)
  exact c.get_set_of_ne value hne

theorem skipIf (c : Processor) (condition : Bool) : Within f c (c.skipIf condition) := by
  unfold Processor.skipIf
  split
  · exact set_pc c _
  · exact refl c

theorem compute (c : Processor) (op : AluOp) (x y : Register) (hx : f.register x)
    (hflag : op.setsFlag = true → f.register flag) : Within f c (c.compute op x y) := by
  cases op with
  | copy | or | and | xor => exact set c x _ hx
  | add | sub | shiftRight | reverseSub | shiftLeft => exact (set c x _ hx).trans (set _ flag _ (hflag rfl))

theorem addIndex (c : Processor) (x : Register) (hindex : f.index)
    (hflag : c.settings.dialect.strictCosmac = false → f.register flag) : Within f c (c.addIndex x) := by
  unfold Processor.addIndex
  dsimp only
  split
  · next hflags =>
    have hstrict : c.settings.dialect.strictCosmac = false := by
      simpa [Dialect.flagsIndexOverflow] using hflags
    exact (set_index c _ hindex).trans (set _ flag _ (hflag hstrict))
  · exact set_index c _ hindex

/-- Writing data to memory from the index on. -/
theorem writeAll (c : Processor) (data : List UInt8)
    (h : ∀ k < data.length, f.cell ((c.index.toNat + k) % memorySize)) :
    Within f c { c with memory := c.memory.writeAll c.index data } := by
  have hbases := c.memory.writeAll_bases c.index data
  refine of_parts c hbases (fun a ha hcell => ?_) (fun _ _ => rfl) (fun _ => rfl)
  refine c.memory.getElem_writeAll_of_ne c.index data ha fun k hk heq => hcell ?_
  rw [heq]
  exact h k hk

theorem passIndex (c : Processor) (x : Register) (h : c.settings.dialect.advancesIndex = true → f.index) :
    Within f c (c.passIndex x) := by
  unfold Processor.passIndex
  split
  · next hadvances => exact set_index c _ (h hadvances)
  · exact refl c

theorem storeRegisters (c : Processor) (x : Register)
    (hcells : ∀ k ≤ x.val, f.cell ((c.index.toNat + k) % memorySize))
    (hindex : c.settings.dialect.advancesIndex = true → f.index) : Within f c (c.storeRegisters x) := by
  refine (writeAll c (c.v.toList.take (x.val + 1)) fun k hk => ?_).trans (passIndex _ x hindex)
  rw [List.length_take] at hk
  exact hcells k (by omega)

theorem loadRegisters (c : Processor) (x : Register) (hregisters : ∀ r ≤ x, f.register r)
    (hindex : c.settings.dialect.advancesIndex = true → f.index) : Within f c (c.loadRegisters x) := by
  refine Within.trans (of_parts c ⟨rfl, rfl⟩ (fun _ _ _ => rfl) (fun r hr => ?_) (fun _ => rfl))
    (passIndex _ x hindex)
  have hgt : ¬ r ≤ x := fun hle => hr (hregisters r hle)
  simp [hgt, get]

theorem reset (c : Processor)
    (hcells : ∀ a s, c.memory.span? .program = some s → s.start ≤ a → a < s.stop → f.cell a)
    (hregisters : ∀ r, f.register r) (hindex : f.index) (hcalls : f.calls) : Within f c c.reset.1 where
  toSameSetup := c.sameSetup_reset
  cells a ha hcell := by
    have hbelow : a < c.memory.programBase.val :=
      Nat.lt_of_not_le fun hle => hcell (hcells a ⟨c.memory.programBase, memorySize⟩ rfl hle ha)
    exact c.getElem_reset_of_lt ha hbelow
  registers r hr := absurd (hregisters r) hr
  index h := absurd hindex h
  calls h := absurd hcalls h
  tracer _ := c.reset_tracer

end Within

end Processor

/-! ## The channel -/

/-- The second channel differs from the first only where the footprint allows,
apart from what was sent, logged and printed. -/
structure Channel.Within (f : Footprint) (c d : Channel) : Prop where
  delay : ¬ f.delay → d.shared.delay = c.shared.delay
  sound : ¬ f.sound → d.shared.sound = c.shared.sound
  soundTimer : ¬ f.soundTimer → d.shared.soundTimer = c.shared.soundTimer
  keys : ¬ f.keys → d.shared.keys = c.shared.keys ∧ d.shared.running = c.shared.running
  link : d.link = c.link

namespace Channel.Within

variable {f : Footprint}

theorem refl (c : Channel) : Within f c c :=
  ⟨fun _ => rfl, fun _ => rfl, fun _ => rfl, fun _ => ⟨rfl, rfl⟩, rfl⟩

theorem trans {c d e : Channel} (h : Within f c d) (k : Within f d e) : Within f c e where
  delay hdelay := (k.delay hdelay).trans (h.delay hdelay)
  sound hsound := (k.sound hsound).trans (h.sound hsound)
  soundTimer htimer := (k.soundTimer htimer).trans (h.soundTimer htimer)
  keys hkeys := ⟨(k.keys hkeys).1.trans (h.keys hkeys).1, (k.keys hkeys).2.trans (h.keys hkeys).2⟩
  link := k.link.trans h.link

/-- An operation that only sends or logs. -/
theorem of_shared {c d : Channel} (hshared : d.shared = c.shared) (hlink : d.link = c.link) : Within f c d :=
  ⟨fun _ => by rw [hshared], fun _ => by rw [hshared], fun _ => by rw [hshared],
    fun _ => by rw [hshared]; exact ⟨rfl, rfl⟩, hlink⟩

theorem push (c : Channel) (m : Message) : Within f c (c.push m) :=
  of_shared (c.push_shared m) (c.push_link m)

theorem updateScreen (c : Channel) (s : Screen) : Within f c (c.updateScreen s) := by
  unfold Channel.updateScreen
  split
  · exact push c _
  · exact of_shared rfl rfl

theorem updateSound (c : Channel) (on : Bool) (h : f.sound) : Within f c (c.updateSound on) := by
  have hset : Within f c (c.update fun s => { s with sound := on }) :=
    ⟨fun _ => rfl, fun hsound => absurd h hsound, fun _ => rfl, fun _ => ⟨rfl, rfl⟩, rfl⟩
  exact hset.trans (of_shared (updateSound_shared c on) (updateSound_link c on))

theorem setDelay (c : Channel) (ticks : UInt8) (h : f.delay) : Within f c (c.update (·.setDelay ticks)) :=
  ⟨fun hdelay => absurd h hdelay, fun _ => rfl, fun _ => rfl, fun _ => ⟨rfl, rfl⟩, rfl⟩

theorem setSoundTimer (c : Channel) (ticks : UInt8) (h : f.soundTimer) :
    Within f c (c.update (·.setSoundTimer ticks)) :=
  ⟨fun _ => rfl, fun _ => rfl, fun htimer => absurd h htimer, fun _ => ⟨rfl, rfl⟩, rfl⟩

theorem shutdown (c : Channel) (hsound : f.sound) (hkeys : f.keys) : Within f c c.shutdown := by
  have hreleased : Within f c (c.update fun s => ((s.setKeys 0).swapSound false).2) :=
    ⟨fun _ => rfl, fun h => absurd hsound h, fun _ => rfl, fun h => absurd hkeys h, rfl⟩
  have hstopped : ∀ d : Channel, Within f d (d.update SharedState.stop) := fun _ =>
    ⟨fun _ => rfl, fun _ => rfl, fun _ => rfl, fun h => absurd hkeys h, rfl⟩
  exact (hreleased.trans (push _ _)).trans (hstopped _)

end Channel.Within

/-! ## The machine -/

namespace Machine

/-- The second machine differs from the first only where the footprint allows,
apart from the program counter, the cycle count, and what was sent, logged and
printed. -/
structure Within (f : Footprint) (m n : Machine) : Prop where
  cpu : m.cpu.Within f n.cpu
  screen : ¬ f.screen → n.screen = m.screen
  channel : m.channel.Within f n.channel

namespace Within

variable {f : Footprint}

theorem refl (m : Machine) : Within f m m := ⟨.refl _, fun _ => rfl, .refl _⟩

theorem trans {m n o : Machine} (h : Within f m n) (k : Within f n o) : Within f m o :=
  ⟨h.cpu.trans k.cpu, fun hscreen => (k.screen hscreen).trans (h.screen hscreen), h.channel.trans k.channel⟩

theorem of_cpu {m : Machine} {cpu : Processor} (h : m.cpu.Within f cpu) : Within f m { m with cpu } :=
  ⟨h, fun _ => rfl, .refl _⟩

theorem of_channel {m : Machine} {channel : Channel} (h : m.channel.Within f channel) :
    Within f m { m with channel } :=
  ⟨.refl _, fun _ => rfl, h⟩

theorem note (m : Machine) (level : Level) (origin : Origin) (text : String) :
    Within f m (m.note level origin text) :=
  of_channel (.of_shared rfl rfl)

/-- Another screen is shown. -/
theorem show_screen {m : Machine} (screen : Screen) (h : f.screen) :
    Within f m { m with screen }.showScreen :=
  ⟨.refl _, fun hscreen => absurd h hscreen, .updateScreen _ _⟩

theorem fetched (m : Machine) (word : UInt16) : Within f m (m.fetched word) where
  cpu := {
    toSameSetup := m.fetched_sameSetup word
    cells := fun _ _ _ => by rw [fetched_cpu]
    registers := fun _ _ => by rw [fetched_cpu]; rfl
    index := fun _ => by rw [fetched_cpu]
    calls := fun _ => by rw [fetched_cpu]
    tracer := fun hdebug => by
      rw [fetched_cpu]
      simp [listsFromV0, traces, hdebug] }
  screen _ := m.fetched_screen word
  channel := .of_shared (m.fetched_shared word) (m.fetched_link word)

/-! ## Instructions that reach beyond the processor -/

theorem returnToCaller (m : Machine) (h : f.calls) : Within f m m.returnToCaller := by
  unfold Machine.returnToCaller
  split
  · exact of_cpu (.set_stack _ _ _ h)
  · exact (of_cpu (.set_stack _ _ _ h)).trans (note _ _ _ _)

theorem call (m : Machine) (target : Address) (h : f.calls) : Within f m (m.call target) := by
  unfold Machine.call
  split
  · exact of_cpu (.set_stack _ _ _ h)
  · exact (note m _ _ _).trans (of_cpu (.set_stack _ _ _ h))

theorem draw (m : Machine) (x y : Register) (rows : Nibble) (hscreen : f.screen)
    (hflag : f.register Processor.flag) : Within f m (m.draw x y rows).1 := by
  by_cases hempty : m.screen.width = 0 ∨ m.screen.height = 0
  · rw [Machine.draw, if_pos hempty]
    exact refl m
  · rw [draw_eq hempty]
    exact (of_cpu (.set _ _ _ hflag)).trans (show_screen _ hscreen)

theorem awaitKey (m : Machine) (x : Register) (h : m.channel.shared.keys ≠ 0 → f.register x) :
    Within f m (m.awaitKey x).1 := by
  unfold Machine.awaitKey
  split
  · next key hkey =>
    have hheld : m.channel.shared.keys ≠ 0 := fun hzero => by
      rw [(SharedState.lowestKey?_eq_none_iff _).mpr hzero] at hkey
      cases hkey
    exact of_cpu (.set m.cpu x key (h hheld))
  · exact of_cpu (.set_pc _ _)

theorem setSound (m : Machine) (x : Register) (hsound : f.sound) (htimer : f.soundTimer) :
    Within f m (m.setSound x) := by
  have hset : Within f m { m with channel := m.channel.updateSound (0 < m.cpu.get x) } :=
    of_channel (.updateSound _ _ hsound)
  exact hset.trans (of_channel (.setSoundTimer _ _ htimer))

theorem reset (m : Machine) (h : m.cpu.Within f m.cpu.reset.1) : Within f m m.reset where
  cpu := by rw [reset_cpu]; exact h
  screen _ := m.reset_screen
  channel := by
    rcases m.reset_channel with hc | ⟨text, hc⟩
    · rw [hc]; exact .refl _
    · rw [hc]; exact .of_shared rfl rfl

theorem restart (m : Machine) (hcpu : m.cpu.Within f m.cpu.reset.1) (hscreen : f.screen) (hdelay : f.delay)
    (hsound : f.sound) (htimer : f.soundTimer) : Within f m m.restart := by
  have hreset : Within f m m.reset := reset m hcpu
  have hdelayed := hreset.trans (of_channel (.setDelay _ 0 hdelay))
  have htimers := hdelayed.trans (of_channel (.setSoundTimer _ 0 htimer))
  have hsilent := htimers.trans (of_channel (.updateSound _ false hsound))
  exact hsilent.trans (show_screen _ hscreen)

end Within

theorem jump_within (m : Machine) {address : UInt16} (ha : address.toNat ≤ 0xFFE)
    (hpc : m.cpu.pc = address + 2) (target : Address) :
    Within (m.footprint address (.jump target)) m (m.jump target).1 := by
  -- The jump compares addresses that are moved on, the table compares the addresses themselves.
  have hself : UInt16.ofNat target.val + 2 = m.cpu.pc ↔ target.val = address.toNat := by
    rw [hpc, add_two_eq_iff ha]
  unfold jump footprint
  dsimp only
  simp only [ne_eq, hself]
  split
  · exact .of_cpu (.set_pc _ _)
  split
  · exact (Within.note m _ _ _).trans (.of_channel (.shutdown _ trivial trivial))
  split
  · refine (Within.note m _ _ _).trans (.restart _ (.reset _ ?_ ?_ ?_ ?_) ?_ ?_ ?_ ?_)
    · exact fun a s hs hstart hstop => ⟨s, hs, hstart, hstop⟩
    · exact fun _ => trivial
    all_goals trivial
  · exact .of_cpu (.set_pc _ _)

/-- An instruction stays within its footprint, the program counter being past it. -/
theorem execute_within (m : Machine) (random : UInt8) {address : UInt16} (ha : address.toNat ≤ 0xFFE)
    (hpc : m.cpu.pc = address + 2) (i : Instruction) :
    Within (m.footprint address i) m (m.execute random i).1 := by
  cases i with
  | clearScreen => exact .show_screen _ trivial
  | ret => exact .returnToCaller m trivial
  | jump target => exact m.jump_within ha hpc target
  | call target => exact .call m target trivial
  | skipIfByte | skipUnlessByte | skipIfEqual | skipUnlessEqual | skipIfKey | skipUnlessKey =>
    exact .of_cpu (.skipIf _ _)
  | setByte x | addByte x | random x | getDelay x => exact .of_cpu (.set _ x _ rfl)
  | compute op x y => exact .of_cpu (.compute _ op x y (Or.inl rfl) fun hflag => Or.inr ⟨rfl, hflag⟩)
  | setIndex | glyph => exact .of_cpu (.set_index _ _ trivial)
  | jumpIndexed => exact .of_cpu (.set_pc _ _)
  | draw x y rows => exact .draw m x y rows trivial rfl
  | awaitKey x => exact .awaitKey m x fun hheld => ⟨rfl, hheld⟩
  | setDelay x => exact .of_channel (.setDelay _ _ trivial)
  | setSound x => exact .setSound m x trivial trivial
  | addIndex x => exact .of_cpu (.addIndex _ x trivial fun hstrict => ⟨rfl, hstrict⟩)
  | decimal x => exact .of_cpu (.writeAll _ _ fun k hk => ⟨k, hk, rfl⟩)
  | store x => exact .of_cpu (.storeRegisters _ x (fun k hk => ⟨k, hk, rfl⟩) id)
  | load x => exact .of_cpu (.loadRegisters _ x (fun _ hle => hle) id)

theorem fetched_footprint (m : Machine) (word address : UInt16) :
    (m.fetched word).footprint address = m.footprint address := by
  rw [fetched_eq]
  rfl

/-- **What a step may change.** Whatever is fetched, a step stays within the
footprint of the instruction that the word stands for. A word that stands for
none is counted, passed, and traced or logged. -/
theorem step_footprint (m : Machine) (random : UInt8) (word : UInt16)
    (hword : m.cpu.memory.readWord m.cpu.pc = some word) :
    let after := (m.step random).1
    (∀ i : Instruction, word = i.toWord → Within (m.footprint m.cpu.pc i) m after) ∧
    ((∀ i : Instruction, word ≠ i.toWord) →
      ∃ fromV0 lines entries,
        (m.cpu.settings.debug = false → fromV0 = m.cpu.tracer.jumpsFromV0 ∧ lines = #[]) ∧
        after = { m with
          cpu := { m.cpu with
            pc := m.cpu.pc + 2, cycle := m.cpu.cycle + 1
            tracer := { m.cpu.tracer with jumpsFromV0 := fromV0 } }
          channel := { m.channel with journal := { m.channel.journal with
            printed := m.channel.journal.printed ++ lines
            log := m.channel.journal.log ++ entries } } }) := by
  intro after
  refine ⟨?_, fun hnone => ?_⟩
  · rintro i rfl
    have hpc : (m.fetched i.toWord).cpu.pc = m.cpu.pc + 2 := by rw [fetched_cpu]
    have hexecuted := execute_within (m.fetched i.toWord) random (Memory.le_of_readWord hword) hpc i
    rw [fetched_footprint, ← step_of_instruction random hword i.ofWord?_toWord] at hexecuted
    exact (Within.fetched m i.toWord).trans hexecuted
  · have hi : Instruction.ofWord? word = none :=
      Option.eq_none_iff_forall_ne_some.mpr fun i hi => hnone i (Instruction.toWord_of_ofWord? hi).symm
    have hquiet : m.cpu.settings.debug = false →
        m.listsFromV0 word = m.cpu.tracer.jumpsFromV0 ∧ m.traceLines word = #[] := fun hdebug => by
      simp [listsFromV0, traceLines, traces, hdebug]
    by_cases hclass : word.toNat < 0x1000
    · refine ⟨m.listsFromV0 word, m.traceLines word, #[], hquiet, ?_⟩
      simp only [after, step_of_machineCode random hword hi hclass, fetched_eq, Array.append_empty]
    · let entry : LogEntry := ⟨.trace, .processor, ignoredText word m.cpu.pc⟩
      refine ⟨m.listsFromV0 word, m.traceLines word, #[entry], hquiet, ?_⟩
      simp only [after, step_of_ignored random hword hi hclass, fetched_eq]
      rfl

/-- Decimal digits written from the last cell on go there and to the first two
cells, and nothing else changes. -/
theorem step_footprint_decimal :
    let m : Machine :=
      { cpu := {
          memory := { Memory.new 0x50 0x200 with
            cells := Vector.ofFn fun a => if a.val % 2 = 0 then 0xF0 else 0x33 }
          index := 0xFFF } }
    m.cpu.memory.readWord m.cpu.pc = some 0xF033 ∧
      (∀ (a : Nat) (ha : a < memorySize), a ∉ [0xFFF, 0, 1] →
        (m.step 0).1.cpu.memory.cells[a] = m.cpu.memory.cells[a]) ∧
      (∀ r, (m.step 0).1.cpu.get r = m.cpu.get r) ∧ (m.step 0).1.screen = m.screen := by
  intro m
  have hword : m.cpu.memory.readWord m.cpu.pc = some 0xF033 := by
    simp only [m, Memory.readWord, Vector.getElem_ofFn]
    decide
  have hwithin := (step_footprint m 0 0xF033 hword).1 (.decimal 0) (by decide)
  have hthree : ∀ k < 3, (0xFFF + k) % memorySize ∈ [0xFFF, 0, 1] := by decide
  refine ⟨hword, fun a ha hout => hwithin.cpu.cells a ha ?_, fun r => hwithin.cpu.registers r id,
    hwithin.screen id⟩
  rintro ⟨k, hk, rfl⟩
  exact hout (hthree k hk)

end Machine

end Chip8
