/-
Calls return to their caller. From a call on, the return addresses that were there
before and the call's own stay at the bottom of the stack, whatever is called,
returned from or lost to a full stack above them. The first time that the stack is
as high as before the call, the call's own address has just been taken off by a
return, and the program goes on behind the call (`call_returns`).

`step_calls` says all that a step can do to the stack. It pushes or pops one address,
or starts over, or leaves the stack alone; what this means for the addresses of one
call is `takeTurn_within_call`, and a run is a number of such steps.
-/
import Chip8.Proofs.Dialects
import Chip8.Proofs.StepOutcome

namespace Chip8

theorem Processor.toNat_pc_add_two {c : Processor} (h : c.pc.toNat ≤ 0x1000) :
    (c.pc + 2).toNat = c.pc.toNat + 2 := by
  rw [UInt16.toNat_add]
  show (c.pc.toNat + 2) % 65536 = c.pc.toNat + 2
  omega

namespace Machine

/-! ## One step -/

/-- The next step jumps to itself and starts the program over. -/
def Restarts (m : Machine) : Prop :=
  m.cpu.memory.readWord m.cpu.pc = some (selfJump m.cpu.pc) ∧
    m.cpu.settings.endOnLoop = false ∧ m.cpu.settings.restartOnLoop = true

theorem returnToCaller_calls (m : Machine) :
    (m.cpu.stack.live = [] ∧ m.returnToCaller.cpu = m.cpu) ∨
      ∃ a, m.cpu.stack.live = m.returnToCaller.cpu.stack.live ++ [a] ∧ m.returnToCaller.cpu.pc = a := by
  unfold returnToCaller
  split
  · next stack a hpop => exact .inr ⟨a, CallStack.live_pop hpop, rfl⟩
  · next stack fault hpop =>
    have htop := (m.cpu.stack.pop_eq_error_iff.mp (congrArg Prod.snd hpop)).1
    cases CallStack.eq_of_pop_error hpop
    refine .inl ⟨?_, rfl⟩
    rw [← List.length_eq_zero_iff, CallStack.length_live, htop]

theorem call_calls (m : Machine) (target : Address) :
    (m.call target).cpu.stack.live =
      if m.cpu.stack.live.length < stackDepth then m.cpu.stack.live ++ [m.cpu.pc] else m.cpu.stack.live := by
  rw [CallStack.length_live]
  by_cases h : m.cpu.stack.top < stackDepth
  · have hpush := CallStack.push_of_room h m.cpu.pc
    simp only [call, hpush, if_pos h]
    exact CallStack.live_push hpush
  · simp only [call, CallStack.push_of_full h, if_neg h]
    rfl

/-- A jump goes to its target, stays where it is, or starts over. -/
theorem jump_cpu (m : Machine) (target : Address) :
    (m.jump target).1.cpu = m.cpu.jump target ∨ (m.jump target).1.cpu = m.cpu ∨
      (UInt16.ofNat target.val + 2 = m.cpu.pc ∧ m.cpu.settings.endOnLoop = false ∧
        m.cpu.settings.restartOnLoop = true ∧ (m.jump target).1.cpu = m.cpu.reset.1) := by
  unfold jump
  dsimp only
  split
  · exact .inl rfl
  next hself =>
  split
  · exact .inr (.inl rfl)
  next hend =>
  split
  · next hrestart =>
    exact .inr (.inr ⟨Decidable.not_not.mp hself, by simpa using hend, hrestart, restart_cpu _⟩)
  · exact .inl rfl

/-- What an instruction does to the call stack, the program counter being past it. -/
theorem execute_calls (m : Machine) (random : UInt8) (i : Instruction) :
    let after := (m.execute random i).1.cpu
    (∃ target, i = .call target ∧ m.cpu.stack.live.length < stackDepth ∧
      after.stack.live = m.cpu.stack.live ++ [m.cpu.pc]) ∨
    (i = .ret ∧ ∃ a, m.cpu.stack.live = after.stack.live ++ [a] ∧ after.pc = a) ∨
    (∃ target : Address, i = .jump target ∧ UInt16.ofNat target.val + 2 = m.cpu.pc ∧
      m.cpu.settings.endOnLoop = false ∧ m.cpu.settings.restartOnLoop = true ∧ after.stack.live = []) ∨
    after.stack.live = m.cpu.stack.live := by
  intro after
  by_cases hcalls : i.leavesCalls = true
  · exact .inr (.inr (.inr (congrArg CallStack.live (m.execute_kept random hcalls).stack)))
  cases i with
  | ret =>
    rcases m.returnToCaller_calls with ⟨-, hkept⟩ | hpopped
    · exact .inr (.inr (.inr (congrArg (·.stack.live) hkept)))
    · exact .inr (.inl ⟨rfl, hpopped⟩)
  | call target =>
    have hlive := m.call_calls target
    by_cases hroom : m.cpu.stack.live.length < stackDepth
    · rw [if_pos hroom] at hlive
      exact .inl ⟨target, rfl, hroom, hlive⟩
    · rw [if_neg hroom] at hlive
      exact .inr (.inr (.inr hlive))
  | jump target =>
    rcases m.jump_cpu target with hgoes | hstays | ⟨hself, hend, hrestart, hreset⟩
    · exact .inr (.inr (.inr (congrArg (·.stack.live) hgoes)))
    · exact .inr (.inr (.inr (congrArg (·.stack.live) hstays)))
    · have hempty : m.cpu.reset.1.stack.live = [] := by rw [← reset_cpu, live_reset]
      exact .inr (.inr (.inl ⟨target, rfl, hself, hend, hrestart, (congrArg (·.stack.live) hreset).trans hempty⟩))
  | _ => exact absurd rfl hcalls

/-- **What a step does to the call stack.** A call with room for it puts the address
behind it on top, a return takes the top off and goes on there, a jump to itself may
start over with no address at all, and everything else leaves the stack alone. -/
theorem step_calls (m : Machine) (random : UInt8) :
    let after := (m.step random).1.cpu
    (∃ target : Address, m.cpu.memory.readWord m.cpu.pc = some (Instruction.call target).toWord ∧
      m.cpu.stack.live.length < stackDepth ∧ after.stack.live = m.cpu.stack.live ++ [m.cpu.pc + 2]) ∨
    (m.cpu.memory.readWord m.cpu.pc = some Instruction.ret.toWord ∧
      ∃ a, m.cpu.stack.live = after.stack.live ++ [a] ∧ after.pc = a) ∨
    (m.Restarts ∧ after.stack.live = []) ∨
    after.stack.live = m.cpu.stack.live := by
  intro after
  rcases step_cases m random with ⟨-, hs⟩ | ⟨word, i, hword, hi, hs⟩ | ⟨word, -, -, -, hs⟩ | ⟨word, -, -, -, hs⟩
  · exact .inr (.inr (.inr (by simp only [after, hs])))
  · have hform : word = i.toWord := (Instruction.toWord_of_ofWord? hi).symm
    have hexecuted := execute_calls (m.fetched word) random i
    have hafter : after = ((m.fetched word).execute random i).1.cpu := by simp only [after, hs]
    rw [fetched_cpu, ← hafter] at hexecuted
    rcases hexecuted with ⟨target, rfl, hroom, hlive⟩ | ⟨rfl, hpopped⟩ |
      ⟨target, rfl, hself, hend, hrestart, hlive⟩ | hlive
    · exact .inl ⟨target, hform ▸ hword, hroom, hlive⟩
    · exact .inr (.inl ⟨hform ▸ hword, hpopped⟩)
    · have hjumps := (isSelf_iff (Memory.le_of_readWord hword) hi).mp hself
      exact .inr (.inr (.inl ⟨⟨hjumps ▸ hword, hend, hrestart⟩, hlive⟩))
    · exact .inr (.inr (.inr hlive))
  · exact .inr (.inr (.inr (by simp only [after, hs, fetched_cpu])))
  · exact .inr (.inr (.inr (by simp only [after, hs, note_cpu, fetched_cpu])))

/-- A turn keeps the addresses at the bottom of the stack, or returns to the last of
them and leaves the others. -/
theorem takeTurn_within_call {m : Machine} {before : List UInt16} {back : UInt16}
    (h : before ++ [back] <+: m.cpu.stack.live) (hplain : ¬ m.Restarts) (t : Turn) :
    let after := (m.takeTurn t).1.cpu
    before ++ [back] <+: after.stack.live ∨
      (m.cpu.memory.readWord m.cpu.pc = some Instruction.ret.toWord ∧ after.stack.live = before ∧
        after.pc = back) := by
  intro after
  rcases (m.interrupted t.between).step_calls t.random with ⟨_, -, -, hpushed⟩ | ⟨hword, a, hpopped, hpc⟩ | ⟨hrestarts, -⟩ | hkept
  · exact .inl (hpushed ▸ h.trans (List.prefix_append _ _))
  · -- Either the address that is taken off was above, or it is the last one itself.
    have hpopped : m.cpu.stack.live = after.stack.live ++ [a] := hpopped
    rw [hpopped] at h
    rcases List.prefix_concat_iff.mp h with hall | habove
    · obtain ⟨hbefore, hback⟩ := List.append_inj' hall rfl
      cases hback
      exact .inr ⟨hword, hbefore.symm, hpc⟩
    · exact .inl habove
  · exact absurd hrestarts hplain
  · exact .inl (hkept ▸ h)

/-! ## Runs -/

theorem takeTurns_take_succ (m : Machine) {turns : List Turn} {k : Nat} (hk : k < turns.length) :
    m.takeTurns (turns.take (k + 1)) = ((m.takeTurns (turns.take k)).takeTurn turns[k]).1 := by
  rw [List.take_succ_eq_append_getElem hk, takeTurns, List.foldl_append]
  rfl

/-- A call with room for it pushes the address behind it. -/
theorem call_pushes {m : Machine} {target : Address} (random : UInt8)
    (hcall : m.cpu.memory.readWord m.cpu.pc = some (Instruction.call target).toWord)
    (hroom : m.cpu.stack.live.length < stackDepth) :
    (m.step random).1.cpu.stack.live = m.cpu.stack.live ++ [m.cpu.pc + 2] := by
  rw [step_of_instruction random hcall (Instruction.ofWord?_toWord _)]
  show ((m.fetched (Instruction.call target).toWord).call target).cpu.stack.live = _
  rw [call_calls, fetched_cpu]
  exact if_pos hroom

/-- A return takes the last address off. -/
theorem ret_pops {m : Machine} {before : List UInt16} {back : UInt16} (random : UInt8)
    (hret : m.cpu.memory.readWord m.cpu.pc = some Instruction.ret.toWord)
    (hlive : m.cpu.stack.live = before ++ [back]) : (m.step random).1.cpu.stack.live = before := by
  rw [step_of_instruction random hret (Instruction.ofWord?_toWord _)]
  show (m.fetched Instruction.ret.toWord).returnToCaller.cpu.stack.live = before
  have hpopped := (m.fetched Instruction.ret.toWord).returnToCaller_calls
  rw [fetched_cpu, hlive] at hpopped
  rcases hpopped with ⟨hempty, -⟩ | ⟨a, hlast, -⟩
  · simp at hempty
  · exact (List.append_inj' hlast rfl).1.symm

/-- As long as the stack was never as low as before the call, its addresses are there. -/
theorem takeTurns_within_call {m : Machine} {before : List UInt16} {back : UInt16}
    (h : before ++ [back] <+: m.cpu.stack.live) {turns : List Turn}
    (hplain : ∀ k < turns.length, ¬ (m.takeTurns (turns.take k)).Restarts) {n : Nat} (hn : n ≤ turns.length)
    (habove : ∀ k ≤ n, (m.takeTurns (turns.take k)).cpu.stack.live.length ≠ before.length) :
    before ++ [back] <+: (m.takeTurns (turns.take n)).cpu.stack.live := by
  induction n with
  | zero => exact h
  | succ n ih =>
    have hbelow := ih (by omega) fun k hk => habove k (by omega)
    have hnext := habove (n + 1) (Nat.le_refl _)
    rw [m.takeTurns_take_succ hn] at hnext ⊢
    rcases takeTurn_within_call hbelow (hplain n hn) turns[n] with hkept | ⟨-, hlow, -⟩
    · exact hkept
    · exact absurd (congrArg List.length hlow) hnext

/-- **Calls return to their caller.** A call is executed that the stack has room for,
and then any turns that do not start over. As long as the stack was never as high as
before the call, the addresses that were on it are there, with the one behind the call
above them. When it is as high as that for the first time, the last instruction was a
return, it went on behind the call, and the stack is what it was. -/
theorem call_returns (m : Machine) (target : Address) (first : Turn) (rest : List Turn)
    (hcall : m.cpu.memory.readWord m.cpu.pc = some (Instruction.call target).toWord)
    (hroom : m.cpu.stack.live.length < stackDepth)
    (hplain : ∀ k < rest.length, ¬ ((m.takeTurn first).1.takeTurns (rest.take k)).Restarts)
    (n : Nat) (hn : n ≤ rest.length)
    (hfirst : ∀ k < n, ((m.takeTurn first).1.takeTurns (rest.take k)).cpu.stack.live.length ≠
      m.cpu.stack.live.length) :
    let point := fun k => ((m.takeTurn first).1.takeTurns (rest.take k)).cpu
    let depth := m.cpu.stack.live.length
    (∀ k ≤ n, (point k).stack.live.length ≠ depth →
      (point k).stack.live.take (depth + 1) = m.cpu.stack.live ++ [m.cpu.pc + 2]) ∧
    ((point n).stack.live.length = depth →
      ∃ k, n = k + 1 ∧ (point k).memory.readWord (point k).pc = some 0x00EE ∧
        (point n).pc.toNat = m.cpu.pc.toNat + 2 ∧ (point n).stack.live = m.cpu.stack.live) := by
  intro point depth
  have hcalled : m.cpu.stack.live ++ [m.cpu.pc + 2] <+: (m.takeTurn first).1.cpu.stack.live := by
    have hpushed := call_pushes (m := m.interrupted first.between) first.random hcall hroom
    exact hpushed ▸ List.prefix_rfl
  have hwithin : ∀ k ≤ n, (∀ j ≤ k, (point j).stack.live.length ≠ depth) →
      m.cpu.stack.live ++ [m.cpu.pc + 2] <+: (point k).stack.live := fun k hk habove =>
    takeTurns_within_call hcalled hplain (by omega) habove
  refine ⟨fun k hk hhigh => ?_, fun hlow => ?_⟩
  · have habove : ∀ j ≤ k, (point j).stack.live.length ≠ depth := by
      intro j hj
      rcases Nat.lt_or_eq_of_le hj with hlt | rfl
      · exact hfirst j (by omega)
      · exact hhigh
    have htake := List.prefix_iff_eq_take.mp (hwithin k hk habove)
    rw [List.length_append, List.length_singleton] at htake
    exact htake.symm
  · cases n with
    | zero =>
      have hheight := hcalled.length_le
      rw [List.length_append, List.length_singleton] at hheight
      have hlow : (m.takeTurn first).1.cpu.stack.live.length = depth := hlow
      omega
    | succ k =>
      have hbefore := hwithin k (by omega) fun j hj => hfirst j (by omega)
      have hpoint : point (k + 1) =
          (((m.takeTurn first).1.takeTurns (rest.take k)).takeTurn rest[k]).1.cpu :=
        congrArg Machine.cpu (takeTurns_take_succ _ hn)
      rw [hpoint] at hlow ⊢
      rcases takeTurn_within_call hbefore (hplain k hn) rest[k] with hkept | ⟨hword, hlive, hpc⟩
      · have hheight := hkept.length_le
        rw [List.length_append, List.length_singleton] at hheight
        exact absurd hlow (by omega)
      · refine ⟨k, rfl, hword, ?_, hlive⟩
        have hle := Memory.le_of_readWord hcall
        rw [← Processor.toNat_pc_add_two (by omega)]
        exact congrArg UInt16.toNat hpc

/-- At `200` a call of the routine behind it, at `202` a return from it. -/
theorem call_returns_at_once :
    let m : Machine :=
      { cpu := {
          memory := { Memory.new 0x50 0x200 with
            cells := Vector.ofFn fun a =>
              if a.val = 0x200 then 0x22 else if a.val = 0x201 then 0x02 else if a.val = 0x203 then 0xEE else 0 } } }
    let turn : Turn := ⟨id, 0⟩
    m.cpu.memory.readWord m.cpu.pc = some (Instruction.call ⟨0x202, by decide⟩).toWord ∧
      (m.takeTurn turn).1.cpu.stack.live = [0x202] ∧
      ((m.takeTurn turn).1.takeTurns [turn]).cpu.stack.live = [] ∧
      ((m.takeTurn turn).1.takeTurns [turn]).cpu.pc.toNat = 0x202 := by
  intro m turn
  have hcall : m.cpu.memory.readWord 0x200 = some (Instruction.call ⟨0x202, by decide⟩).toWord := by
    simp only [m, Memory.readWord, Vector.getElem_ofFn]
    decide
  have hret : m.cpu.memory.readWord 0x202 = some Instruction.ret.toWord := by
    simp only [m, Memory.readWord, Vector.getElem_ofFn]
    decide
  have hpc : m.cpu.pc = 0x200 := rfl
  have hempty : m.cpu.stack.live = [] := rfl
  -- From here on the cells themselves do not matter.
  generalize m = m at hcall hret hpc hempty ⊢
  rw [← hpc] at hcall
  have hroom : m.cpu.stack.live.length < stackDepth := by rw [hempty]; decide
  have hpushed : (m.takeTurn turn).1.cpu.stack.live = [0x202] := by
    have hlive := call_pushes (m := m.interrupted turn.between) turn.random hcall hroom
    have hafter : m.cpu.stack.live ++ [m.cpu.pc + 2] = [0x202] := by rw [hempty, hpc]; decide
    exact hlive.trans hafter
  have hgoes : ∀ (n : Machine) (target : Address),
      (n.call target).cpu.memory = n.cpu.memory ∧ (n.call target).cpu.pc = UInt16.ofNat target.val := by
    intro n target
    unfold call
    split <;> exact ⟨rfl, rfl⟩
  have hthere : (m.takeTurn turn).1.cpu.memory = m.cpu.memory ∧ (m.takeTurn turn).1.cpu.pc = 0x202 := by
    have hstep : m.takeTurn turn = (m.fetched _).execute 0 (.call ⟨0x202, by decide⟩) :=
      step_of_instruction 0 hcall (Instruction.ofWord?_toWord _)
    obtain ⟨hmemory, hpc⟩ := hgoes (m.fetched (Instruction.call ⟨0x202, by decide⟩).toWord) ⟨0x202, by decide⟩
    rw [fetched_cpu] at hmemory
    rw [hstep]
    exact ⟨hmemory, hpc⟩
  have hnext : (m.takeTurn turn).1.cpu.memory.readWord (m.takeTurn turn).1.cpu.pc = some Instruction.ret.toWord := by
    rw [hthere.1, hthere.2, hret]
  have hstart : ∀ n : Machine, n.takeTurns ([turn].take 0) = n := fun _ => rfl
  have hplain : ∀ k < [turn].length, ¬ ((m.takeTurn turn).1.takeTurns ([turn].take k)).Restarts := by
    intro k hk hrestarts
    obtain rfl : k = 0 := Nat.lt_one_iff.mp hk
    have hself := hrestarts.1
    rw [hstart, hnext, hthere.2] at hself
    exact absurd (Option.some.inj hself) (by decide)
  have hfirst : ∀ k < 1, ((m.takeTurn turn).1.takeTurns ([turn].take k)).cpu.stack.live.length ≠
      m.cpu.stack.live.length := by
    intro k hk
    obtain rfl : k = 0 := Nat.lt_one_iff.mp hk
    rw [hstart, hpushed, hempty]
    decide
  have hpopped : ((m.takeTurn turn).1.takeTurns [turn]).cpu.stack.live = [] := by
    have hlast : ∀ n : Machine, n.takeTurns [turn] = (n.step 0).1 := fun _ => rfl
    rw [hlast]
    exact ret_pops 0 hnext hpushed
  obtain ⟨-, hback⟩ := call_returns m ⟨0x202, by decide⟩ turn [turn] hcall hroom hplain 1 (Nat.le_refl 1) hfirst
  have hwhole : [turn].take 1 = [turn] := rfl
  simp only [hwhole, hpopped, hempty] at hback
  obtain ⟨_, -, -, hgone, -⟩ := hback trivial
  rw [hpc] at hgone
  exact ⟨hcall, hpushed, hpopped, hgone⟩

end Machine

end Chip8
