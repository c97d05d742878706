/-
The keys as a set. A word holds them, one bit each, and `keySet` is the set of keys that
a word stands for. Pressing a key puts it into the set, releasing it takes it out, and
setting all keys at once replaces the set; a key past F is refused and changes nothing.
So whatever was done to the keys, those that are held are the ones that the same changes
leave in a set (`SharedState.changeAll_eq`).

Three readers look at the keys: one asks whether a key is held, one for the least key that
is, and two instructions skip on a key. All of them agree with that set, hence with one
another (`keys_form_set`): the key that a wait puts into a register is a key that is held.
-/
import Chip8.Proofs.Actions
import Chip8.Proofs.StepOutcome
import Mathlib.Algebra.Group.Nat.Defs
import Mathlib.Data.Finset.Basic
import Mathlib.Data.Finset.Range
import Mathlib.Order.Bounds.Defs

namespace Chip8

/-- A change of the keys. -/
inductive KeyChange where
  /-- Overwrites all of them. -/
  | setAll (keys : UInt16)
  | press (key : Nat)
  | release (key : Nat)
deriving DecidableEq, Repr

/-- The keys that a word stands for: those whose bits are set. -/
def keySet (keys : UInt16) : Finset Nat := {key ∈ Finset.range 16 | keys.toNat / 2 ^ key % 2 = 1}

namespace KeyChange

/-- The change is about keys that exist. -/
def onKeypad : KeyChange → Bool
  | .setAll _ => true
  | .press key | .release key => key ≤ 15

/-- What a change makes of a set of keys. -/
def onSet : KeyChange → Finset Nat → Finset Nat
  | .setAll keys, _ => keySet keys
  | .press key, held => insert key held
  | .release key, held => held.erase key

/-- What some changes make of a set of keys; those about keys that do not exist are left out. -/
def replay (held : Finset Nat) (changes : List KeyChange) : Finset Nat :=
  (changes.filter onKeypad).foldl (fun held change => change.onSet held) held

end KeyChange

namespace SharedState

/-- The shared state after a change of the keys, or why it is refused. -/
def change (s : SharedState) : KeyChange → Except Fault SharedState
  | .setAll keys => .ok (s.setKeys keys)
  | .press key => s.press key
  | .release key => s.release key

/-- The shared state after some changes of the keys, one after the other. -/
def changeAll (s : SharedState) (changes : List KeyChange) : SharedState :=
  changes.foldl (fun s change => orKeep s (s.change change)) s

end SharedState

/-! ## Words as sets -/

theorem mem_keySet {keys : UInt16} {key : Nat} : key ∈ keySet keys ↔ keys.toNat.testBit key = true := by
  have hpast : 16 ≤ key → keys.toNat.testBit key = false := fun h =>
    Nat.testBit_lt_two_pow (Nat.lt_of_lt_of_le keys.toNat_lt (Nat.pow_le_pow_right (by decide) h))
  rw [keySet, Finset.mem_filter, Finset.mem_range, ← decide_eq_true_iff (p := _ % 2 = 1),
    ← Nat.testBit_eq_decide_div_mod_eq]
  refine ⟨fun h => h.2, fun h => ⟨Nat.lt_of_not_le fun hle => ?_, h⟩⟩
  rw [hpast hle] at h
  cases h

theorem lt_sixteen_of_mem {keys : UInt16} {key : Nat} (h : key ∈ keySet keys) : key < 16 :=
  Finset.mem_range.mp (Finset.mem_filter.mp h).1

theorem keySet_eq_empty_iff {keys : UInt16} : keySet keys = ∅ ↔ keys = 0 := by
  rw [Finset.eq_empty_iff_forall_notMem, ← UInt16.toNat_inj]
  simp only [mem_keySet, Bool.not_eq_true]
  refine ⟨fun h => Nat.eq_of_testBit_eq fun key => ?_, fun h key => by simp [h]⟩
  rw [h key]
  exact (Nat.zero_testBit key).symm

theorem testBit_keyBit {key k : Nat} (h : key < 16) :
    (SharedState.keyBit key).toNat.testBit k = decide (key = k) := by
  have hbit : (SharedState.keyBit key).toNat = 2 ^ key := by
    rw [SharedState.keyBit, UInt16.toNat_ofNat']
    exact Nat.mod_eq_of_lt (Nat.pow_lt_pow_right (by decide) h)
  rw [hbit, Nat.testBit_two_pow]

theorem keySet_or_keyBit (keys : UInt16) {key : Nat} (h : key < 16) :
    keySet (keys ||| SharedState.keyBit key) = insert key (keySet keys) := by
  ext k
  rw [Finset.mem_insert, mem_keySet, mem_keySet, UInt16.toNat_or, Nat.testBit_or, testBit_keyBit h,
    Bool.or_eq_true, decide_eq_true_iff, or_comm, eq_comm]

theorem keySet_and_not_keyBit (keys : UInt16) {key : Nat} (h : key < 16) :
    keySet (keys &&& ~~~(SharedState.keyBit key)) = (keySet keys).erase key := by
  ext k
  have hnot : (~~~(SharedState.keyBit key)).toNat.testBit k = (decide (k < 16) && !decide (key = k)) := by
    rw [← testBit_keyBit h]
    exact BitVec.getLsbD_not
  rw [Finset.mem_erase, mem_keySet, UInt16.toNat_and, Nat.testBit_and, hnot]
  simp only [Bool.and_eq_true, decide_eq_true_iff, Bool.not_eq_true', decide_eq_false_iff_not, ← mem_keySet]
  exact ⟨fun ⟨hk, _, hne⟩ => ⟨fun heq => hne heq.symm, hk⟩, fun ⟨hne, hk⟩ => ⟨hk, lt_sixteen_of_mem hk, fun heq => hne heq.symm⟩⟩

/-! ## Changes -/

namespace SharedState

variable (s : SharedState)

/-- A change about keys that exist does to the set what it says, and nothing else. -/
theorem change_of_onKeypad {change : KeyChange} (h : change.onKeypad = true) :
    ∃ keys, s.change change = .ok { s with keys } ∧ keySet keys = change.onSet (keySet s.keys) := by
  cases change with
  | setAll keys => exact ⟨keys, rfl, rfl⟩
  | press key =>
    have hkey : key < 16 := Nat.lt_succ_of_le (of_decide_eq_true h)
    exact ⟨_, if_pos hkey, keySet_or_keyBit s.keys hkey⟩
  | release key =>
    have hkey : key < 16 := Nat.lt_succ_of_le (of_decide_eq_true h)
    exact ⟨_, if_pos hkey, keySet_and_not_keyBit s.keys hkey⟩

theorem press_of_past {key : Nat} (h : 15 < key) : s.press key = .error (.noSuchKey key) :=
  if_neg (by omega)

theorem release_of_past {key : Nat} (h : 15 < key) : s.release key = .error (.noSuchKey key) :=
  if_neg (by omega)

/-- A change about a key that does not exist is refused. -/
theorem change_of_not_onKeypad {change : KeyChange} (h : change.onKeypad = false) :
    ∃ fault, s.change change = .error fault := by
  cases change with
  | setAll keys => cases h
  | press key => exact ⟨_, s.press_of_past (Nat.lt_of_not_le (of_decide_eq_false h))⟩
  | release key => exact ⟨_, s.release_of_past (Nat.lt_of_not_le (of_decide_eq_false h))⟩

theorem change_ok_iff (change : KeyChange) : (∃ next, s.change change = .ok next) ↔ change.onKeypad = true := by
  cases hon : change.onKeypad with
  | true =>
    obtain ⟨keys, hchange, -⟩ := s.change_of_onKeypad hon
    exact ⟨fun _ => rfl, fun _ => ⟨_, hchange⟩⟩
  | false =>
    obtain ⟨fault, hchange⟩ := s.change_of_not_onKeypad hon
    simp [hchange]

/-- **Changes of the keys, replayed on a set.** They change nothing but the keys. -/
theorem changeAll_eq (changes : List KeyChange) :
    ∃ keys, s.changeAll changes = { s with keys } ∧ keySet keys = KeyChange.replay (keySet s.keys) changes := by
  induction changes generalizing s with
  | nil => exact ⟨s.keys, rfl, rfl⟩
  | cons change changes ih =>
    show ∃ keys, (orKeep s (s.change change)).changeAll changes = { s with keys } ∧ _
    cases hon : change.onKeypad with
    | true =>
      obtain ⟨first, hchange, hfirst⟩ := s.change_of_onKeypad hon
      obtain ⟨keys, hrest, hkeys⟩ := ih { s with keys := first }
      refine ⟨keys, ?_, ?_⟩
      · rw [hchange]
        exact hrest
      · rw [hkeys, KeyChange.replay, KeyChange.replay, List.filter_cons_of_pos hon, List.foldl_cons, hfirst]
    | false =>
      obtain ⟨fault, hchange⟩ := s.change_of_not_onKeypad hon
      obtain ⟨keys, hrest, hkeys⟩ := ih s
      refine ⟨keys, ?_, ?_⟩
      · rw [hchange]
        exact hrest
      · rw [hkeys, KeyChange.replay, KeyChange.replay, List.filter_cons_of_neg (by simp [hon])]

theorem changeAll_concat_of_refused {changes : List KeyChange} {change : KeyChange} {fault : Fault}
    (h : (s.changeAll changes).change change = .error fault) :
    s.changeAll (changes ++ [change]) = s.changeAll changes := by
  rw [changeAll, List.foldl_append]
  show orKeep (s.changeAll changes) ((s.changeAll changes).change change) = _
  rw [h]
  rfl

/-! ## Readers -/

theorem isHeld_iff (key : UInt8) : s.isHeld key = true ↔ key.toNat ∈ keySet s.keys := mem_keySet.symm

/-- The search for the least key finds the least number in the set. -/
theorem find?_key_eq_some_iff (k : Nat) :
    (List.range 16).find? (fun key => s.keys.toNat.testBit key) = some k ↔
      IsLeast (keySet s.keys : Set Nat) k := by
  rw [List.find?_range_eq_some]
  constructor
  · rintro ⟨hk, -, hbelow⟩
    refine ⟨mem_keySet.mpr hk, fun j hj => Nat.le_of_not_lt fun hlt => ?_⟩
    have hset : s.keys.toNat.testBit j = true := mem_keySet.mp hj
    have hclear := hbelow j hlt
    rw [hset] at hclear
    cases hclear
  · rintro ⟨hk, hleast⟩
    refine ⟨mem_keySet.mp hk, List.mem_range.mpr (lt_sixteen_of_mem hk), fun j hlt => ?_⟩
    rw [Bool.not_eq_true', ← Bool.not_eq_true]
    exact fun hset => Nat.not_le_of_lt hlt (hleast (mem_keySet.mpr hset))

theorem lowestKey?_eq_some_iff (key : UInt8) :
    s.lowestKey? = some key ↔ IsLeast (keySet s.keys : Set Nat) key.toNat := by
  rw [← find?_key_eq_some_iff, lowestKey?, Option.map_eq_some_iff]
  constructor
  · rintro ⟨k, hfound, rfl⟩
    have hk : k < 16 := List.mem_range.mp (List.mem_of_find?_eq_some hfound)
    rw [hfound, UInt8.toNat_ofNat', Nat.mod_eq_of_lt (by omega)]
  · exact fun hfound => ⟨key.toNat, hfound, UInt8.ofNat_toNat⟩

theorem lowestKey?_eq_none_iff_keySet : s.lowestKey? = none ↔ keySet s.keys = ∅ := by
  rw [lowestKey?_eq_none_iff, keySet_eq_empty_iff]

end SharedState

namespace Machine

/-- A wait that is over has put the least key that is held into its register. -/
theorem awaitKey_of_continued {m : Machine} {x : Register} (h : (m.awaitKey x).2 = .continued) :
    ∃ key, m.channel.shared.lowestKey? = some key ∧
      m.awaitKey x = (m.updateProcessor (·.set x key), .continued) := by
  unfold awaitKey at h ⊢
  cases hkey : m.channel.shared.lowestKey? with
  | some key => exact ⟨key, rfl, rfl⟩
  | none =>
    rw [hkey] at h
    cases h

/-- If the key in vX is held, one of the two instructions that skip on a key skips. -/
theorem execute_skips_on_held {m : Machine} {x : Register} (random : UInt8)
    (h : m.channel.shared.isHeld (m.cpu.get x) = true) :
    m.execute random (.skipIfKey x) = (m.updateProcessor Processor.advance, .ok .continued) ∧
      m.execute random (.skipUnlessKey x) = (m, .ok .continued) := by
  constructor
  · show (({ m with cpu := m.cpu.skipIf (m.channel.shared.isHeld (m.cpu.get x)) } : Machine), _) = _
    rw [h]
    rfl
  · show (({ m with cpu := m.cpu.skipIf (!m.channel.shared.isHeld (m.cpu.get x)) } : Machine), _) = _
    rw [h]
    rfl

/-- The key that a wait has put into a register is held, as long as the keys stay. -/
theorem isHeld_of_awaited {m n : Machine} {x : Register} (h : (m.awaitKey x).2 = .continued)
    (hkeys : n.channel.shared.keys = m.channel.shared.keys) (hx : n.cpu.get x = (m.awaitKey x).1.cpu.get x) :
    n.channel.shared.isHeld (n.cpu.get x) = true := by
  obtain ⟨key, hlowest, hawait⟩ := awaitKey_of_continued h
  have hkey : n.cpu.get x = key := by
    rw [hx, hawait]
    exact m.cpu.get_set x key
  rw [SharedState.isHeld_iff, hkeys, hkey]
  exact ((m.channel.shared.lowestKey?_eq_some_iff key).mp hlowest).1

/-- **The keys are a set of numbers up to F.** Whatever was done to them, they are the set
that the same changes make, those about other numbers left out: such a change is refused
for its key, and then nothing changes. Nothing but the keys ever does. A key is held if it
is in the set, and the key that is looked up is the least in it, none if it is empty. So
when a wait for a key is over, and for as long as the keys and the register stay, skipping
if the key in that register is held skips, and skipping unless it is held does not. -/
theorem keys_form_set (s : SharedState) (changes : List KeyChange) :
    let after := s.changeAll changes
    let held := KeyChange.replay (keySet s.keys) changes
    (∀ key, (∃ next, after.press key = .ok next) ↔ key ≤ 15) ∧
    (∀ key, (∃ next, after.release key = .ok next) ↔ key ≤ 15) ∧
    (∀ key, 15 < key →
      after.press key = .error (.noSuchKey key) ∧ s.changeAll (changes ++ [.press key]) = after ∧
      after.release key = .error (.noSuchKey key) ∧ s.changeAll (changes ++ [.release key]) = after) ∧
    after = { s with keys := after.keys } ∧
    (∀ key : UInt8, after.isHeld key = true ↔ key.toNat ≤ 15 ∧ key.toNat ∈ held) ∧
    (∀ key : UInt8, after.lowestKey? = some key ↔ IsLeast (held : Set Nat) key.toNat) ∧
    (after.lowestKey? = none ↔ held = ∅) ∧
    ∀ (m : Machine) (x : Register) (random : UInt8), (m.execute random (.awaitKey x)).2 = .ok .continued →
      ∀ n : Machine, n.channel.shared.keys = m.channel.shared.keys →
        n.cpu.get x = (m.execute random (.awaitKey x)).1.cpu.get x →
        n.execute random (.skipIfKey x) = (n.updateProcessor Processor.advance, .ok .continued) ∧
        n.execute random (.skipUnlessKey x) = (n, .ok .continued) := by
  intro after held
  obtain ⟨keys, hafter, hkeys⟩ := s.changeAll_eq changes
  have hheld : keySet after.keys = held := by rw [show after = _ from hafter, hkeys]
  refine ⟨fun key => ?_, fun key => ?_, fun key hpast => ?_, ?_, fun key => ?_, fun key => ?_, ?_,
    fun m x random hcontinued n hsame hregister => ?_⟩
  · exact (after.change_ok_iff (.press key)).trans decide_eq_true_iff
  · exact (after.change_ok_iff (.release key)).trans decide_eq_true_iff
  · have hpress := after.press_of_past hpast
    have hrelease := after.release_of_past hpast
    exact ⟨hpress, s.changeAll_concat_of_refused hpress, hrelease, s.changeAll_concat_of_refused hrelease⟩
  · rw [show after = _ from hafter]
  · rw [after.isHeld_iff, ← hheld]
    exact ⟨fun hkey => ⟨Nat.le_of_lt_succ (lt_sixteen_of_mem hkey), hkey⟩, fun hkey => hkey.2⟩
  · rw [after.lowestKey?_eq_some_iff, hheld]
  · rw [after.lowestKey?_eq_none_iff_keySet, hheld]
  · have hover : (m.awaitKey x).2 = .continued := Except.ok.inj hcontinued
    exact execute_skips_on_held random (isHeld_of_awaited hover hsame hregister)

/-- Keys 5 and F at once, then 3 in place of 5, while 16 is pressed in vain. A wait finds 3,
and the timer ticks before the program asks for that key. -/
theorem keys_form_set_waited :
    let changes : List KeyChange := [.setAll 0x8020, .press 16, .press 3, .release 5]
    let after := SharedState.changeAll {} changes
    let m : Machine := { channel := { shared := { after with delay := 7 } } }
    let n := (m.execute 0 (.awaitKey 2)).1.perform .tickTimer
    KeyChange.replay (keySet 0) changes = {15, 3} ∧
      after.press 16 = .error (.noSuchKey 16) ∧ SharedState.changeAll {} (changes ++ [.press 16]) = after ∧
      after.isHeld 15 = true ∧ after.lowestKey? = some 3 ∧
      (m.execute 0 (.awaitKey 2)).2 = .ok .continued ∧
      n.execute 0 (.skipIfKey 2) = (n.updateProcessor Processor.advance, .ok .continued) ∧
      n.execute 0 (.skipUnlessKey 2) = (n, .ok .continued) := by
  intro changes after m n
  have hheld : KeyChange.replay (keySet ({} : SharedState).keys) changes = {15, 3} := by decide
  obtain ⟨-, -, hrefused, -, hisHeld, hlowest, -, hskips⟩ := keys_form_set {} changes
  obtain ⟨hpress, hsame, -⟩ := hrefused 16 (by decide)
  rw [hheld] at hisHeld hlowest
  have hcontinued : (m.execute 0 (.awaitKey 2)).2 = .ok .continued := by decide
  refine ⟨hheld, hpress, hsame, (hisHeld 15).mpr (by decide), (hlowest 3).mpr ⟨by decide, ?_⟩, hcontinued,
    hskips m 2 0 hcontinued n (by decide) (by decide)⟩
  intro key hkey
  have hcases : key = 15 ∨ key = 3 := by simpa using hkey
  show 3 ≤ key
  omega

end Machine

end Chip8
