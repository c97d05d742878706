/-
The call stack is a list of at most twelve addresses (`calls_form_list`).

It is kept as twelve slots and a cursor, and a slot above the cursor keeps the address
that was popped from it. `Use.onList` says what pushing, popping and clearing do to a plain
list: one adds at the end, one takes the last element off, one empties it. Each use of
the stack does that to its live addresses and gives the same answer (`live_use`), so any
number of uses do (`live_replay`), however they mix overflows, underflows and clearing.
-/
import Chip8.Proofs.Leftovers

namespace Chip8.CallStack

/-- What is done to a call stack. -/
inductive Use where
  | push (address : UInt16)
  | pop
  | clear
deriving DecidableEq, Repr

/-- What comes of a use: the address that was popped, nothing, or a fault. -/
abbrev Answer := Except Fault (Option UInt16)

/-- What a use leaves, and the answer. -/
def use (s : CallStack) : Use → CallStack × Answer
  | .push address =>
    let (left, answer) := s.push address
    (left, answer.map fun _ => none)
  | .pop =>
    let (left, answer) := s.pop
    (left, answer.map some)
  | .clear => (s.clear, .ok none)

/-- A use of a list that has room for so many addresses, and the answer. -/
def Use.onList (capacity : Nat) (list : List UInt16) : Use → List UInt16 × Answer
  | .push address =>
    if list.length < capacity then (list ++ [address], .ok none)
    else (list, .error (.stackOverflow address capacity))
  | .pop =>
    match list.getLast? with
    | some address => (list.dropLast, .ok (some address))
    | none => (list, .error .stackUnderflow)
  | .clear => ([], .ok none)

/-- What some uses leave, one after the other, and their answers. -/
def replay {σ : Type} (step : σ → Use → σ × Answer) (s : σ) : List Use → σ × List Answer
  | [] => (s, [])
  | u :: uses =>
    let (next, answer) := step s u
    let (last, answers) := replay step next uses
    (last, answer :: answers)

/-! ## One use -/

theorem isEmpty_eq (s : CallStack) : s.isEmpty = s.live.isEmpty := by
  rw [Bool.eq_iff_iff, isEmpty, beq_iff_eq, List.isEmpty_iff, ← List.length_eq_zero_iff, length_live]

theorem push_eq_error_iff_live (s : CallStack) (a : UInt16) {fault : Fault} :
    (s.push a).2 = .error fault ↔ s.live.length = stackDepth ∧ fault = .stackOverflow a stackDepth := by
  have hle := s.top_le
  have hfull : ¬ s.top < stackDepth ↔ s.top = stackDepth := by omega
  rw [push_eq_error_iff, length_live, hfull]

theorem pop_eq_error_iff_live (s : CallStack) {fault : Fault} :
    s.pop.2 = .error fault ↔ s.live = [] ∧ fault = .stackUnderflow := by
  rw [pop_eq_error_iff, ← length_live, List.length_eq_zero_iff]

/-- A use does to the live addresses what it does to a list, and answers the same. -/
theorem live_use (s : CallStack) (u : Use) : ((s.use u).1.live, (s.use u).2) = u.onList stackDepth s.live := by
  cases u with
  | push a =>
    simp only [use, Use.onList, length_live]
    by_cases hroom : s.top < stackDepth
    · have hpush := push_of_room hroom a
      rw [if_pos hroom, ← live_push hpush, hpush]
      rfl
    · rw [if_neg hroom, push_of_full hroom]
      rfl
  | pop =>
    simp only [use, Use.onList]
    cases htop : s.top with
    | zero =>
      have hempty : s.live = [] := by rw [← List.length_eq_zero_iff, length_live, htop]
      rw [pop_of_top_zero htop, hempty]
      rfl
    | succ n =>
      have hpop := pop_of_top_succ htop (by have := s.top_le; omega)
      rw [live_pop hpop, hpop]
      simp [Except.map]
  | clear => simp [use, Use.onList]

/-- A failed use leaves every slot and the cursor as they are. -/
theorem use_of_error {s : CallStack} {u : Use} {fault : Fault} (h : (s.use u).2 = .error fault) :
    (s.use u).1 = s := by
  cases u with
  | push a =>
    simp only [use] at h ⊢
    rcases hpush : s.push a with ⟨left, refusal | pushed⟩
    · exact eq_of_push_error hpush
    · rw [hpush] at h
      cases h
  | pop =>
    simp only [use] at h ⊢
    rcases hpop : s.pop with ⟨left, refusal | address⟩
    · exact eq_of_pop_error hpop
    · rw [hpop] at h
      cases h
  | clear => cases h

/-! ## Any number of uses -/

theorem live_replay (s : CallStack) (uses : List Use) :
    ((replay use s uses).1.live, (replay use s uses).2) = replay (Use.onList stackDepth) s.live uses := by
  induction uses generalizing s with
  | nil => rfl
  | cons u uses ih =>
    have hrest := ih (s.use u).1
    simp only [replay, ← live_use]
    rw [← hrest]

/-- The machine's own calls and returns leave the stack as it is where they fail. -/
theorem stack_call_of_full {m : Machine} (h : m.cpu.stack.live.length = stackDepth) (target : Address) :
    (m.call target).cpu.stack = m.cpu.stack := by
  have hfull : ¬ m.cpu.stack.top < stackDepth := by
    rw [← length_live, h]
    exact Nat.lt_irrefl _
  simp only [Machine.call, push_of_full hfull]
  rfl

theorem stack_returnToCaller_of_empty {m : Machine} (h : m.cpu.stack.live = []) :
    m.returnToCaller.cpu.stack = m.cpu.stack := by
  have htop : m.cpu.stack.top = 0 := by rw [← length_live, h, List.length_nil]
  simp only [Machine.returnToCaller, pop_of_top_zero htop]
  rfl

/-- **The call stack is a list of at most twelve addresses.** Whatever was pushed, popped
and cleared, its live addresses, their number, whether there are any, and all that was
answered are those of a list. Pushing fails exactly if there are twelve of them, popping
exactly if there are none, each with its own fault; what fails leaves the slots and the
cursor as they are, also when the machine's calls and returns do. -/
theorem calls_form_list (uses : List Use) :
    let after := (replay use {} uses).1
    let list := (replay (Use.onList 12) [] uses).1
    (replay use {} uses).2 = (replay (Use.onList 12) [] uses).2 ∧
    after.live = list ∧ after.top = list.length ∧ after.isEmpty = list.isEmpty ∧
    (∀ a fault, (after.push a).2 = .error fault ↔ list.length = 12 ∧ fault = .stackOverflow a 12) ∧
    (∀ fault, after.pop.2 = .error fault ↔ list = [] ∧ fault = .stackUnderflow) ∧
    (∀ u fault, (after.use u).2 = .error fault → (after.use u).1 = after) ∧
    ∀ m : Machine, m.cpu.stack = after →
      (list.length = 12 → ∀ target, (m.call target).cpu.stack = after) ∧
      (list = [] → m.returnToCaller.cpu.stack = after) := by
  intro after list
  have hreplay := live_replay {} uses
  have hlive : after.live = list := congrArg Prod.fst hreplay
  have hanswers : (replay use {} uses).2 = (replay (Use.onList 12) [] uses).2 := congrArg Prod.snd hreplay
  refine ⟨hanswers, hlive, ?_, ?_, fun a fault => ?_, fun fault => ?_, fun u fault => use_of_error,
    fun m hm => ⟨fun hfull target => ?_, fun hempty => ?_⟩⟩
  · rw [← hlive, length_live]
  · rw [← hlive, isEmpty_eq]
  · rw [← hlive]
    exact after.push_eq_error_iff_live a
  · rw [← hlive]
    exact after.pop_eq_error_iff_live
  · rw [← hm] at hlive ⊢
    exact stack_call_of_full (hlive ▸ hfull) target
  · rw [← hm] at hlive ⊢
    exact stack_returnToCaller_of_empty (hlive ▸ hempty)

/-- Twelve addresses are pushed, a thirteenth is refused and lost, and then a machine calls
once more; the stack keeps the twelve, and after it was cleared there is none to return to. -/
theorem calls_form_list_full :
    let uses := (List.range 13).map fun k => Use.push (UInt16.ofNat (0x200 + 2 * k))
    let after := (replay use {} uses).1
    let m : Machine := { cpu := { stack := after } }
    after.top = 12 ∧ (after.push 0xABC).2 = .error (.stackOverflow 0xABC 12) ∧
      (after.use (.push 0xABC)).1 = after ∧ (m.call 0x300).cpu.stack = after ∧
      (replay use {} (uses ++ [.pop, .clear, .pop])).2.drop 12 =
        [.error (.stackOverflow 0x218 12), .ok (some 0x216), .ok none, .error .stackUnderflow] := by
  intro uses after m
  obtain ⟨-, -, htop, -, hpush, -, hkept, hmachine⟩ := calls_form_list uses
  have hfull : (replay (Use.onList 12) [] uses).1.length = 12 := by decide
  have hrefused : (after.push 0xABC).2 = .error (.stackOverflow 0xABC 12) := (hpush _ _).mpr ⟨hfull, rfl⟩
  have hanswer : (after.use (.push 0xABC)).2 = .error (.stackOverflow 0xABC 12) := by
    simp only [use, hrefused]
    rfl
  have hanswers := (calls_form_list (uses ++ [Use.pop, Use.clear, Use.pop])).1
  exact ⟨htop.trans hfull, hrefused, hkept _ _ hanswer, (hmachine m rfl).1 hfull 0x300,
    (congrArg (List.drop 12) hanswers).trans rfl⟩

end Chip8.CallStack
