/-
Facts about the channel: sending leaves the shared state and the link as they
are, and a link that accepts everything delivers each payload after those
before it. A tick of the timer counts, and switches the buzzer off if the sound
timer is at 1.
-/
import Chip8.Timer

namespace Chip8

namespace Journal

theorem delivered_send_accepted (j : Journal) (m : Message) :
    (j.send m true).delivered = j.delivered ++ [m.encode] := by
  simp [delivered, send, Send.payload]

theorem delivered_congr {j k : Journal} (h : j.sends = k.sends) : j.delivered = k.delivered := by
  simp only [delivered, h]

end Journal

namespace Channel

@[simp] theorem push_shared (c : Channel) (m : Message) : (c.push m).shared = c.shared := by
  unfold push
  split <;> rfl

@[simp] theorem push_link (c : Channel) (m : Message) : (c.push m).link = c.link := by
  unfold push
  split <;> rfl

theorem push_printed (c : Channel) (m : Message) : (c.push m).journal.printed = c.journal.printed := by
  unfold push
  split <;> rfl

/-- Whether it is taken or not, a message that is pushed is put down last. -/
theorem push_sends (c : Channel) (m : Message) :
    ∃ accepted, (c.push m).journal.sends = c.journal.sends.push { message := m, accepted } := by
  unfold push
  split
  · exact ⟨true, rfl⟩
  · exact ⟨false, rfl⟩

@[simp] theorem updateSound_shared (c : Channel) (on : Bool) :
    (c.updateSound on).shared = { c.shared with sound := on } := by
  unfold updateSound SharedState.swapSound
  dsimp only
  split
  · exact push_shared _ _
  · rfl

@[simp] theorem updateSound_link (c : Channel) (on : Bool) : (c.updateSound on).link = c.link := by
  unfold updateSound
  dsimp only
  split
  · exact push_link _ _
  · rfl

/-- Setting the buzzer to what it is does nothing. -/
theorem updateSound_same (c : Channel) : c.updateSound c.shared.sound = c := by
  simp [updateSound, SharedState.swapSound]

/-- A buzzer that changes is sent. -/
theorem updateSound_changed {c : Channel} {on : Bool} (h : c.shared.sound ≠ on) :
    c.updateSound on = (c.update fun s => { s with sound := on }).updateSoundAndKeys := by
  simp only [updateSound, SharedState.swapSound, bne_iff_ne, ne_eq, h, not_false_eq_true, if_true]
  rfl

/-- The link takes whatever it is offered. -/
def AcceptsAll (c : Channel) : Prop := ∀ offered payload, c.link.accepts offered payload = true

theorem AcceptsAll.congr {c d : Channel} (h : c.AcceptsAll) (hl : d.link = c.link) : d.AcceptsAll := by
  intro offered payload
  rw [hl]
  exact h offered payload

theorem AcceptsAll.push_journal {c : Channel} (h : c.AcceptsAll) (m : Message) :
    (c.push m).journal = c.journal.send m true := by
  simp [push, h _ _]

/-- What is pushed is delivered last. -/
theorem AcceptsAll.delivered_push {c : Channel} (h : c.AcceptsAll) (m : Message) :
    (c.push m).journal.delivered = c.journal.delivered ++ [m.encode] := by
  rw [h.push_journal, Journal.delivered_send_accepted]

end Channel

namespace Timer

theorem tick_of_last {c : Channel} (h : c.shared.soundTimer = 1) :
    tick c = (c.update fun s => s.countDelay.countSound.2).updateSound false := by
  have hexpired : c.shared.countDelay.soundTimer = 1 := h
  simp [tick, Channel.update, SharedState.countSound, hexpired]

theorem tick_of_going {c : Channel} (h : c.shared.soundTimer ≠ 1) :
    tick c = c.update fun s => s.countDelay.countSound.2 := by
  have hgoing : c.shared.countDelay.soundTimer ≠ 1 := h
  simp [tick, Channel.update, SharedState.countSound, hgoing]

end Timer

end Chip8
