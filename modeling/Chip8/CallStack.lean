/-
The call stack: twelve slots and a cursor. `live` is the list of return
addresses a program can see; the slots above the cursor keep what was popped
from them, which only `record` shows.
-/
import Chip8.Fault

namespace Chip8

/-- How deep calls nest. -/
def stackDepth : Nat := 12

/-- Twelve slots, of which the first `top` hold return addresses. -/
structure CallStack where
  slots : Vector UInt16 stackDepth := Vector.replicate stackDepth 0
  top : Nat := 0
  top_le : top ≤ stackDepth := by decide
deriving DecidableEq

namespace CallStack

/-- The return addresses, oldest first. -/
def live (s : CallStack) : List UInt16 := s.slots.toList.take s.top

/-- There is nothing to return to. -/
def isEmpty (s : CallStack) : Bool := s.top == 0

/-- Adds a return address; a full stack refuses it. -/
def push (s : CallStack) (address : UInt16) : CallStack × Except Fault Unit :=
  if h : s.top < stackDepth then
    ({ slots := s.slots.set s.top address h, top := s.top + 1, top_le := h }, .ok ())
  else (s, .error (.stackOverflow address stackDepth))

/-- Takes the newest return address off; an empty stack has none. -/
def pop (s : CallStack) : CallStack × Except Fault UInt16 :=
  match h : s.top with
  | 0 => (s, .error .stackUnderflow)
  | n + 1 =>
    have hn : n < stackDepth := by have := s.top_le; omega
    ({ s with top := n, top_le := Nat.le_of_lt hn }, .ok s.slots[n])

/-- Forgets every return address. -/
def clear (s : CallStack) : CallStack := { s with top := 0, top_le := Nat.zero_le _ }

/-- The cursor counts the return addresses. -/
@[simp] theorem length_live (s : CallStack) : s.live.length = s.top := by
  have := s.top_le
  simp only [live, List.length_take, Vector.length_toList]
  omega

/-- Clearing leaves none. -/
@[simp] theorem live_clear (s : CallStack) : s.clear.live = [] := by
  simp [live, clear]

theorem push_of_room {s : CallStack} (h : s.top < stackDepth) (a : UInt16) :
    s.push a = ({ slots := s.slots.set s.top a h, top := s.top + 1, top_le := h }, .ok ()) := by
  rw [push, dif_pos h]

theorem push_of_full {s : CallStack} (h : ¬ s.top < stackDepth) (a : UInt16) :
    s.push a = (s, .error (.stackOverflow a stackDepth)) := by
  rw [push, dif_neg h]

theorem pop_of_top_zero {s : CallStack} (h : s.top = 0) : s.pop = (s, .error .stackUnderflow) := by
  unfold pop
  split
  · rfl
  · next hn =>
    rw [h] at hn
    cases hn

theorem pop_of_top_succ {s : CallStack} {n : Nat} (h : s.top = n + 1) (hn : n < stackDepth) :
    s.pop = ({ s with top := n, top_le := Nat.le_of_lt hn }, .ok s.slots[n]) := by
  unfold pop
  split
  · next h0 =>
    rw [h] at h0
    cases h0
  · next k hk =>
    have hkn : k = n := by omega
    subst hkn
    rfl

/-- Pushing adds at the end. -/
theorem live_push {s t : CallStack} {a : UInt16} (h : s.push a = (t, .ok ())) : t.live = s.live ++ [a] := by
  by_cases hroom : s.top < stackDepth
  · rw [push_of_room hroom] at h
    cases h
    simp only [live, Vector.toList_set]
    rw [List.take_succ_eq_append_getElem (by simpa using hroom)]
    simp [List.take_set_of_le]
  · rw [push_of_full hroom] at h
    cases h

/-- A refused push changes nothing. -/
theorem eq_of_push_error {s t : CallStack} {a : UInt16} {fault : Fault} (h : s.push a = (t, .error fault)) :
    t = s := by
  by_cases hroom : s.top < stackDepth
  · rw [push_of_room hroom] at h
    cases h
  · rw [push_of_full hroom] at h
    cases h
    rfl

/-- Popping takes the last one off. -/
theorem live_pop {s t : CallStack} {a : UInt16} (h : s.pop = (t, .ok a)) : s.live = t.live ++ [a] := by
  cases htop : s.top with
  | zero =>
    rw [pop_of_top_zero htop] at h
    cases h
  | succ n =>
    have hn : n < stackDepth := by have := s.top_le; omega
    rw [pop_of_top_succ htop hn] at h
    cases h
    simp only [live, htop]
    rw [List.take_succ_eq_append_getElem (by simpa using hn)]
    simp

/-- Popping from an empty stack changes nothing. -/
theorem eq_of_pop_error {s t : CallStack} {fault : Fault} (h : s.pop = (t, .error fault)) : t = s := by
  cases htop : s.top with
  | zero =>
    rw [pop_of_top_zero htop] at h
    cases h
    rfl
  | succ n =>
    rw [pop_of_top_succ htop (by have := s.top_le; omega)] at h
    cases h

/-- All slots and the cursor, as text. -/
def record (s : CallStack) : String :=
  Text.record "Stack"
    [("slots", Text.listing (s.slots.toList.map toString)), ("top", toString s.top)]

end CallStack

end Chip8
