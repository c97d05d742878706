/-
The timers over any number of ticks. Each counts down to zero and stays there, and the
buzzer goes off in the one tick that takes the sound timer from 1 to 0. That is the only
tick that sends anything, and it does so only if the buzzer was on (`ticks_count_down`).

`SharedState.counted` is the shared state after so many ticks, said without counting
(`ticks_shared`). What a tick sends depends on the state that it finds, so what is sent in
which tick is read off that (`ticks_succ_journal`).
-/
import Chip8.Proofs.TimerOrder

namespace Chip8

/-- The message that the sound timer has run out: the buzzer off, the keys as they are, no
screen. -/
def Message.silence (keys : UInt16) : Message :=
  { sound := false, keys, screen := none
    width := UInt8.ofNat standardWidth, height := UInt8.ofNat standardHeight }

namespace SharedState

/-- The sound timer runs out within so many ticks. -/
def RunsOut (s : SharedState) (n : Nat) : Prop := 0 < s.soundTimer.toNat ∧ s.soundTimer.toNat ≤ n

instance (s : SharedState) (n : Nat) : Decidable (s.RunsOut n) := inferInstanceAs (Decidable (_ ∧ _))

/-- The shared state after so many ticks. -/
def counted (s : SharedState) (n : Nat) : SharedState :=
  { s with
    delay := UInt8.ofNat (s.delay.toNat - n)
    soundTimer := UInt8.ofNat (s.soundTimer.toNat - n)
    sound := s.sound && !decide (s.RunsOut n) }

theorem toNat_ofNat_sub (ticks : UInt8) (n : Nat) : (UInt8.ofNat (ticks.toNat - n)).toNat = ticks.toNat - n := by
  have hlt := ticks.toNat_lt
  rw [UInt8.toNat_ofNat', Nat.mod_eq_of_lt (by omega)]

theorem toNat_countDown (ticks : UInt8) : (countDown ticks).toNat = ticks.toNat - 1 := by
  unfold countDown
  split
  · next hzero =>
    rw [hzero]
    rfl
  · next hpos =>
    have hne : ticks.toNat ≠ 0 := fun hzero => hpos (UInt8.toNat_inj.mp hzero)
    exact UInt8.toNat_sub_of_le _ _ (UInt8.le_iff_toNat_le.mpr (Nat.one_le_iff_ne_zero.mpr hne))

theorem counted_sound_iff (s : SharedState) (n : Nat) :
    (s.counted n).sound = true ↔ s.sound = true ∧ ¬ s.RunsOut n := by
  simp [counted]

theorem counted_zero (s : SharedState) : s.counted 0 = s := by
  have hnever : ¬ s.RunsOut 0 := fun h => Nat.lt_irrefl 0 (Nat.lt_of_lt_of_le h.1 h.2)
  simp [counted, hnever]

/-- A timer that runs out in a number of ticks more than one does so in its first tick, or
in the others. -/
theorem runsOut_succ_iff (s : SharedState) (n : Nat) :
    s.RunsOut (n + 1) ↔ s.soundTimer = 1 ∨ (Job.tick.apply s).RunsOut n := by
  have hlast : s.soundTimer = 1 ↔ s.soundTimer.toNat = 1 := UInt8.toNat_inj.symm
  have hcounted : (Job.tick.apply s).soundTimer.toNat = s.soundTimer.toNat - 1 := toNat_countDown _
  rw [RunsOut, RunsOut, hlast, hcounted]
  omega

theorem counted_tick (s : SharedState) (n : Nat) : (Job.tick.apply s).counted n = s.counted (n + 1) := by
  have hsub : ∀ ticks : UInt8, (countDown ticks).toNat - n = ticks.toNat - (n + 1) := fun ticks => by
    rw [toNat_countDown]
    omega
  have hsound : (s.sound && s.soundTimer != 1 && !decide ((Job.tick.apply s).RunsOut n)) =
      (s.sound && !decide (s.RunsOut (n + 1))) := by
    simp only [s.runsOut_succ_iff n, Bool.decide_or, Bool.not_or, Bool.and_assoc]
    rfl
  simp only [counted]
  rw [← hsound, ← hsub, ← hsub]
  rfl

end SharedState

namespace Timer

theorem ticks_add (n k : Nat) (c : Channel) : ticks (n + k) c = ticks k (ticks n c) := by
  induction n generalizing c with
  | zero => rw [Nat.zero_add]; rfl
  | succ n ih =>
    rw [Nat.succ_add]
    exact ih (tick c)

theorem ticks_succ (n : Nat) (c : Channel) : ticks (n + 1) c = tick (ticks n c) := ticks_add n 1 c

/-- What so many ticks make of the shared state. -/
theorem ticks_shared (n : Nat) (c : Channel) : (ticks n c).shared = c.shared.counted n := by
  induction n generalizing c with
  | zero => exact (c.shared.counted_zero).symm
  | succ n ih => rw [ticks, ih, Machine.tick_shared, SharedState.counted_tick]

/-! ## What is sent -/

theorem tick_accepts {c : Channel} (h : c.AcceptsAll) : (tick c).AcceptsAll := by
  refine h.congr ?_
  by_cases hlast : c.shared.soundTimer = 1
  · rw [tick_of_last hlast, Channel.updateSound_link]
    rfl
  · rw [tick_of_going hlast]
    rfl

theorem ticks_accepts {c : Channel} (h : c.AcceptsAll) (n : Nat) : (ticks n c).AcceptsAll := by
  induction n generalizing c with
  | zero => exact h
  | succ n ih => exact ih (tick_accepts h)

/-- A tick sends a message if the buzzer is on and the sound timer is at 1, and otherwise nothing. -/
theorem tick_journal {c : Channel} (h : c.AcceptsAll) :
    (tick c).journal =
      if c.shared.sound = true ∧ c.shared.soundTimer = 1 then c.journal.send (.silence c.shared.keys) true
      else c.journal := by
  by_cases hsound : c.shared.sound = true
  · by_cases hlast : c.shared.soundTimer = 1
    · have hon : (c.update fun s => s.countDelay.countSound.2).shared.sound ≠ false := by
        show c.shared.sound ≠ false
        simp [hsound]
      have hoff : ((c.update fun s => s.countDelay.countSound.2).update fun s =>
          { s with sound := false }).AcceptsAll := h.congr rfl
      rw [if_pos ⟨hsound, hlast⟩, tick_of_last hlast, Channel.updateSound_changed hon]
      exact hoff.push_journal _
    · rw [if_neg fun hboth => hlast hboth.2, tick_of_going hlast]
      rfl
  · rw [if_neg fun hboth => hsound hboth.1, tick_of_silent (Bool.eq_false_iff.mpr hsound)]
    rfl

/-- The tick that sends something is the one of the sound timer's own number. -/
theorem ticks_succ_journal {c : Channel} (h : c.AcceptsAll) (n : Nat) :
    (ticks (n + 1) c).journal =
      if c.shared.sound = true ∧ c.shared.soundTimer.toNat = n + 1 then
        (ticks n c).journal.send (.silence c.shared.keys) true
      else (ticks n c).journal := by
  have hfinds : (c.shared.counted n).sound = true ∧ (c.shared.counted n).soundTimer = 1 ↔
      c.shared.sound = true ∧ c.shared.soundTimer.toNat = n + 1 := by
    have htimer : (c.shared.counted n).soundTimer.toNat = c.shared.soundTimer.toNat - n :=
      SharedState.toNat_ofNat_sub _ n
    have hone : (1 : UInt8).toNat = 1 := rfl
    rw [SharedState.counted_sound_iff, ← UInt8.toNat_inj, htimer, hone, SharedState.RunsOut]
    constructor
    · rintro ⟨⟨hsound, -⟩, hlast⟩
      exact ⟨hsound, by omega⟩
    · rintro ⟨hsound, hlast⟩
      exact ⟨⟨hsound, by omega⟩, by omega⟩
  rw [ticks_succ, tick_journal (ticks_accepts h n), ticks_shared]
  exact if_congr hfinds rfl rfl

theorem ticks_journal {c : Channel} (h : c.AcceptsAll) (n : Nat) :
    (ticks n c).journal =
      if c.shared.sound = true ∧ c.shared.RunsOut n then c.journal.send (.silence c.shared.keys) true
      else c.journal := by
  induction n with
  | zero =>
    rw [if_neg fun hboth => Nat.lt_irrefl 0 (Nat.lt_of_lt_of_le hboth.2.1 hboth.2.2)]
    rfl
  | succ n ih =>
    rw [ticks_succ_journal h, ih]
    -- The timer has run out before, it runs out now, or it does not yet.
    by_cases hnow : c.shared.sound = true ∧ c.shared.soundTimer.toNat = n + 1
    · have hbefore : ¬ (c.shared.sound = true ∧ c.shared.RunsOut n) := fun hboth => by
        have := hboth.2.2
        omega
      have hafter : c.shared.sound = true ∧ c.shared.RunsOut (n + 1) := ⟨hnow.1, by omega, by omega⟩
      rw [if_pos hnow, if_neg hbefore, if_pos hafter]
    · rw [if_neg hnow]
      refine if_congr ⟨fun hboth => ⟨hboth.1, hboth.2.1, Nat.le_succ_of_le hboth.2.2⟩, fun hboth => ?_⟩ rfl rfl
      have hle := hboth.2.2
      have hne : c.shared.soundTimer.toNat ≠ n + 1 := fun heq => hnow ⟨hboth.1, heq⟩
      exact ⟨hboth.1, hboth.2.1, by omega⟩

/-- **The timers count down.** After so many ticks over a link that takes everything, each
timer is that much lower, but not below zero. The buzzer is on if it was and the sound timer
has not run out meanwhile; the keys and whether the machine runs are as they were. If the
buzzer was on and the sound timer ran out, one message was sent, in the tick of the timer's
own number, with the buzzer off, the keys and no screen; otherwise none was. -/
theorem ticks_count_down (c : Channel) (haccepts : c.AcceptsAll) (n : Nat) :
    let after := ticks n c
    let ranOut := 0 < c.shared.soundTimer.toNat ∧ c.shared.soundTimer.toNat ≤ n
    after.shared.delay.toNat = c.shared.delay.toNat - n ∧
      after.shared.soundTimer.toNat = c.shared.soundTimer.toNat - n ∧
      (after.shared.sound = true ↔ c.shared.sound = true ∧ ¬ ranOut) ∧
      after.shared.keys = c.shared.keys ∧ after.shared.running = c.shared.running ∧
      (c.shared.sound = true ∧ ranOut → after.journal = c.journal.send (.silence c.shared.keys) true) ∧
      (¬ (c.shared.sound = true ∧ ranOut) → after.journal = c.journal) ∧
      ∀ k, (ticks (k + 1) c).journal =
        if c.shared.sound = true ∧ c.shared.soundTimer.toNat = k + 1 then
          (ticks k c).journal.send (.silence c.shared.keys) true
        else (ticks k c).journal := by
  intro after ranOut
  have hshared : after.shared = c.shared.counted n := ticks_shared n c
  have hjournal := ticks_journal haccepts n
  rw [hshared]
  exact ⟨SharedState.toNat_ofNat_sub _ n, SharedState.toNat_ofNat_sub _ n, c.shared.counted_sound_iff n, rfl, rfl,
    fun hends => hjournal.trans (if_pos hends), fun hgoes => hjournal.trans (if_neg hgoes),
    ticks_succ_journal haccepts⟩

/-- A beep of two ticks in a delay of nine: the second tick silences it, and ticks on. -/
theorem ticks_count_down_beep :
    let c : Channel := { shared := { keys := 8, sound := true, delay := 9, soundTimer := 2 } }
    c.AcceptsAll ∧ (ticks 1 c).journal = {} ∧
      (ticks 2 c).journal.sends = #[⟨.silence 8, true⟩] ∧
      (ticks 5 c).journal.sends = #[⟨.silence 8, true⟩] ∧ (ticks 5 c).shared.delay.toNat = 4 := by
  intro c
  have haccepts : c.AcceptsAll := fun _ _ => rfl
  obtain ⟨-, -, -, -, -, -, hgoing, hsends⟩ := ticks_count_down c haccepts 1
  obtain ⟨hdelay, -, -, -, -, hended, -⟩ := ticks_count_down c haccepts 5
  have hfirst := hgoing (by decide)
  refine ⟨haccepts, hfirst, ?_, ?_, hdelay⟩
  · rw [hsends 1, if_pos (by decide), hfirst]
    rfl
  · rw [hended (by decide)]
    rfl

end Timer

end Chip8
