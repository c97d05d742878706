/-
Where the dialect matters. A program that never comes to an instruction that asks
for the dialect runs the same under every dialect (`dialect_unseen`): a shift of a
register into itself, an indexed jump that names v0 and everything else that is
not listed in `Instruction.asksDialect` may come up in any order, also in code
that the program has written itself.

A step under one dialect and a step under another one are steps of twins
(`step_twins`). What is left to show is that the trace does not tell them apart.
It follows the dialect and names the register that an indexed jump adds
(`assembly_jumpIndexed`), which is the same one unless the jump asks.
-/
import Chip8.Proofs.Restart
import Chip8.Proofs.Twins

namespace Chip8

open Text

/-! ## Listings -/

namespace Listing

/-- **The listing names the register that is added**, if it follows the dialect. -/
theorem assembly_jumpIndexed (l : Listing) (d : Dialect) (target : Address) :
    ({ l with jumpsFromV0 := d.jumpsFromV0 } : Listing).assembly (.jumpIndexed target) =
      Instruction.listed "jmp"
        ("$" ++ hex 3 target.val ++ "+v" ++ hexUpper (Processor.jumpRegister d target).val) := by
  have htarget := target.isLt
  have hdigit : target.val / 256 % 16 = target.val / 256 := by omega
  cases hd : d.jumpsFromV0 with
  | true =>
    have hnamed : "$" ++ hex 3 target.val ++ "+v0" = "$" ++ hex 3 target.val ++ "+v" ++ hexUpper 0 := by
      simp only [show "+v0" = "+v" ++ hexUpper 0 from rfl, String.append_assoc]
    simp only [assembly, Instruction.assembly, Processor.jumpRegister, hd, if_true, lastDigit, Nat.zero_mod, hnamed]
  | false => simp [assembly, Processor.jumpRegister, hd, lastDigit, hdigit]

theorem assembly_of_dialect (l : Listing) (d e : Dialect) {i : Instruction} (h : i.asksDialect = false) :
    ({ l with jumpsFromV0 := e.jumpsFromV0 } : Listing).assembly i =
      ({ l with jumpsFromV0 := d.jumpsFromV0 } : Listing).assembly i := by
  cases i with
  | jumpIndexed target =>
    rw [assembly_jumpIndexed, assembly_jumpIndexed, Processor.jumpRegister_of_dialect (.inr h)]
  | _ => rfl

/-- The trace of a word that does not ask for the dialect is the same under every
dialect, also if the word stands for nothing. -/
theorem trace_of_dialect (l : Listing) (d e : Dialect) (cycle : Nat) (address : UInt16) {word : UInt16}
    (h : ∀ i : Instruction, word = i.toWord → i.asksDialect = false) :
    ({ l with jumpsFromV0 := e.jumpsFromV0 } : Listing).trace cycle address word =
      ({ l with jumpsFromV0 := d.jumpsFromV0 } : Listing).trace cycle address word := by
  have hline : ({ l with jumpsFromV0 := e.jumpsFromV0 } : Listing).line word =
      ({ l with jumpsFromV0 := d.jumpsFromV0 } : Listing).line word := by
    unfold line
    split
    · next i hi => rw [l.assembly_of_dialect d e (h i (Instruction.toWord_of_ofWord? hi).symm)]
    · rfl
  simp only [trace, hline]

end Listing

namespace Machine

/-- The machine under another dialect. -/
def withDialect (m : Machine) (dialect : Dialect) : Machine :=
  m.updateProcessor fun c => { c with settings := { c.settings with dialect } }

/-- Every instruction that the turns come to has the property. -/
def Executes (P : Instruction → Prop) (m : Machine) : List Turn → Prop
  | [] => True
  | t :: rest =>
    (∀ i : Instruction, m.cpu.memory.readWord m.cpu.pc = some i.toWord → P i) ∧ (m.takeTurn t).1.Executes P rest

/-- The machine after some turns, one after the other. -/
def takeTurns (m : Machine) (turns : List Turn) : Machine := turns.foldl (fun m t => (m.takeTurn t).1) m

/-! ## The same machine under another dialect -/

/-- The second machine is the first one under the given dialect, the offset that
its tracer named last apart. -/
def Speaks (dialect : Dialect) (m n : Machine) : Prop :=
  ∃ fromV0, Twins Eq { m.cpu.settings with dialect } fromV0 m n

variable {dialect : Dialect} {m n : Machine}

theorem Speaks.observe (h : Speaks dialect m n) : n.observe = m.observe := by
  obtain ⟨_, _, rfl, rfl⟩ := h
  rfl

theorem Speaks.stack (h : Speaks dialect m n) : n.cpu.stack = m.cpu.stack := by
  obtain ⟨_, _, rfl, rfl⟩ := h
  rfl

theorem Speaks.traceLines (h : Speaks dialect m n) {word : UInt16}
    (hasks : ∀ i : Instruction, word = i.toWord → i.asksDialect = false) :
    n.traceLines word = m.traceLines word := by
  obtain ⟨fromV0, _, rfl, rfl⟩ := h
  have htrace := m.cpu.tracer.trace_of_dialect m.cpu.settings.dialect dialect (m.cpu.cycle + 1) m.cpu.pc hasks
  show (if m.traces word then
      #[({ m.cpu.tracer with jumpsFromV0 := dialect.jumpsFromV0 } : Listing).trace (m.cpu.cycle + 1) m.cpu.pc word]
    else #[]) = m.traceLines word
  rw [htrace]
  rfl

theorem Speaks.fetched (h : Speaks dialect m n) {word : UInt16}
    (hasks : ∀ i : Instruction, word = i.toWord → i.asksDialect = false) :
    (n.fetched word).channel = (m.fetched word).channel := by
  have hlines := h.traceLines hasks
  obtain ⟨fromV0, _, rfl, rfl⟩ := h
  simp only [fetched_eq, hlines]

/-- An instruction that does not ask for the dialect is one step under both. -/
theorem step_speaks (h : Speaks dialect m n) (random : UInt8)
    (hasks : ∀ i : Instruction, m.cpu.memory.readWord m.cpu.pc = some i.toWord → i.asksDialect = false) :
    (n.step random).2 = (m.step random).2 ∧ Speaks dialect (m.step random).1 (n.step random).1 := by
  have hfetched : ∀ word, m.cpu.memory.readWord m.cpu.pc = some word →
      (m.fetched word).channel = (n.fetched word).channel :=
    fun word hword => (h.fetched fun i hi => hasks i (hi ▸ hword)).symm
  obtain ⟨fromV0, htwins⟩ := h
  obtain ⟨hresult, hnext⟩ := step_twins Channel.Congruence.eq.bond htwins random hfetched
    (fun i hi => ⟨rfl, rfl, .inr (hasks i hi)⟩) fun _ _ => by rw [htwins.shared .eq]
  refine ⟨hresult, n.listsNext, ?_⟩
  rw [(m.step_sameSetup random).settings]
  exact hnext

theorem takeTurn_speaks (h : Speaks dialect m n) (t : Turn)
    (hasks : ∀ i : Instruction, m.cpu.memory.readWord m.cpu.pc = some i.toWord → i.asksDialect = false) :
    (n.takeTurn t).2 = (m.takeTurn t).2 ∧ Speaks dialect (m.takeTurn t).1 (n.takeTurn t).1 := by
  refine step_speaks ?_ t.random hasks
  obtain ⟨fromV0, _, rfl, rfl⟩ := h
  exact ⟨fromV0, _, rfl, rfl⟩

theorem history_speaks (h : Speaks dialect m n) {turns : List Turn}
    (hasks : m.Executes (fun i => i.asksDialect = false) turns) :
    n.history turns = m.history turns ∧ Speaks dialect (m.takeTurns turns) (n.takeTurns turns) := by
  induction turns generalizing m n with
  | nil => exact ⟨rfl, h⟩
  | cons t rest ih =>
    obtain ⟨hfirst, hrest⟩ := hasks
    obtain ⟨hresult, hnext⟩ := takeTurn_speaks h t hfirst
    obtain ⟨hhistory, hlast⟩ := ih hnext hrest
    exact ⟨by rw [history, history, hresult, hnext.observe, hhistory], hlast⟩

/-- **The dialect does not show** unless an instruction asks for it. Two machines
that differ in the dialect alone, taking the same turns: if none of them comes to
an instruction that asks, every step comes out the same and leaves the same to be
seen, with the same call stack down to its stale slots. -/
theorem dialect_unseen (m : Machine) (dialect : Dialect) (turns : List Turn)
    (hasks : m.Executes (fun i => i.asksDialect = false) turns) :
    (m.withDialect dialect).observe = m.observe ∧
      (m.withDialect dialect).history turns = m.history turns ∧
      ((m.withDialect dialect).takeTurns turns).cpu.stack = (m.takeTurns turns).cpu.stack := by
  have hspeaks : Speaks dialect m (m.withDialect dialect) := ⟨m.cpu.tracer.jumpsFromV0, _, rfl, rfl⟩
  obtain ⟨hhistory, hlast⟩ := history_speaks hspeaks hasks
  exact ⟨hspeaks.observe, hhistory, hlast.stack⟩

/-- Memory that is `B0` throughout is all indexed jumps to `0B0` that name v0. They
are traced here, under a dialect that would add the register named by the address. -/
theorem dialect_unseen_jumpIndexed :
    let m : Machine :=
      { cpu := {
          settings := { debug := true }
          memory := { Memory.new 0x50 0x200 with cells := Vector.replicate memorySize 0xB0 }
          v := Vector.replicate 16 3 } }
    let turns : List Turn := [⟨id, 0⟩, ⟨id, 0⟩]
    m.Executes (fun i => i.asksDialect = false) turns ∧
      (m.takeTurn ⟨id, 0⟩).1.cpu.pc = 0x0B3 ∧
      (m.withDialect ⟨false, false⟩).history turns = m.history turns := by
  intro m turns
  have hread : ∀ {c : Processor}, c.memory = m.cpu.memory → c.pc.toNat + 1 < memorySize →
      c.memory.readWord c.pc = some 0xB0B0 := by
    intro c hmemory hpc
    rw [hmemory, Memory.readWord, dif_pos hpc]
    simp only [m, Vector.getElem_replicate]
    decide
  have hquiet : ∀ i : Instruction, some 0xB0B0 = some i.toWord → i.asksDialect = false := by
    intro i hi
    have hjump : i = .jumpIndexed ⟨0x0B0, by decide⟩ := by
      have hi' := i.ofWord?_toWord
      rw [← Option.some.inj hi] at hi'
      exact (Option.some.inj hi').symm
    rw [hjump]
    rfl
  have hfirst := hread (c := m.cpu) rfl (by decide)
  have hstep : m.takeTurn ⟨id, 0⟩ = (m.fetched 0xB0B0).execute 0 (.jumpIndexed ⟨0x0B0, by decide⟩) :=
    step_of_instruction 0 hfirst (by decide)
  have hpc : (m.takeTurn ⟨id, 0⟩).1.cpu.pc = 0x0B3 := by
    rw [hstep]
    show ((m.fetched 0xB0B0).cpu.jumpIndexed ⟨0x0B0, by decide⟩).pc = 0x0B3
    rw [fetched_cpu]
    decide
  have hmemory : (m.takeTurn ⟨id, 0⟩).1.cpu.memory = m.cpu.memory := by
    rw [hstep]
    show (m.fetched 0xB0B0).cpu.memory = m.cpu.memory
    rw [fetched_cpu]
  have hasks : m.Executes (fun i => i.asksDialect = false) turns := by
    refine ⟨fun i hi => hquiet i (hfirst.symm.trans hi), fun i hi => hquiet i ?_, trivial⟩
    exact (hread hmemory (by rw [hpc]; decide)).symm.trans hi
  exact ⟨hasks, hpc, (dialect_unseen m ⟨false, false⟩ turns hasks).2.1⟩

end Machine

end Chip8
