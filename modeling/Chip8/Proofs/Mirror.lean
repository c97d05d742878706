/-
The peripheral shows what the machine has. A machine sends only when something
changes, and most messages carry no screen, so what the peripheral shows is put
together from two of them: the last message with a screen, and the last message
of any kind.

`Mirrors s c` says that these two agree with the screen `s` and with the buzzer
of the channel `c`. Sending the screen establishes it; every action keeps it,
because whatever changes the screen sends it, and whatever changes the buzzer
sends that (`perform_mirrors`).
-/
import Chip8.Proofs.Glyphs
import Chip8.Proofs.RoundTrip

namespace Chip8

namespace Journal

/-- `m` is the last message that reached the peripheral. -/
def LastIs (j : Journal) (m : Message) : Prop :=
  ∃ before payload, j.delivered = before ++ [payload] ∧ Message.decode payload = .ok m

/-- `m` is the last message with a screen that reached the peripheral: what came
after it are messages without one. -/
def LastScreenIs (j : Journal) (m : Message) : Prop :=
  m.screen.isSome ∧ ∃ before payload after, j.delivered = before ++ payload :: after ∧
    Message.decode payload = .ok m ∧
    ∀ later ∈ after, ∃ n, Message.decode later = .ok n ∧ n.screen = none

end Journal

/-- The message carries the screen: its size, and its pixels row after row, the
first of eight in the highest bit. -/
def Message.Depicts (m : Message) (s : Screen) : Prop :=
  ∃ packed, m.screen = some packed ∧ m.width.toNat = s.width ∧ m.height.toNat = s.height ∧
    Screen.unpack m.width.toNat m.height.toNat packed = s

/-- What reached the peripheral agrees with the screen and with the buzzer. -/
structure Mirrors (s : Screen) (c : Channel) : Prop where
  accepts : c.AcceptsAll
  width_le : s.width ≤ 255
  height_le : s.height ≤ 255
  shown : ∃ m, c.journal.LastScreenIs m ∧ m.Depicts s
  heard : ∃ m, c.journal.LastIs m ∧ m.sound = c.shared.sound

namespace Mirrors

/-- Only the link, the buzzer and the messages matter. -/
theorem congr {s : Screen} {c d : Channel} (h : Mirrors s c) (hl : d.link = c.link)
    (hs : d.shared.sound = c.shared.sound) (hj : d.journal.sends = c.journal.sends) : Mirrors s d := by
  have hd := Journal.delivered_congr hj
  obtain ⟨m, hm, hm'⟩ := h.shown
  obtain ⟨n, hn, hn'⟩ := h.heard
  refine ⟨h.accepts.congr hl, h.width_le, h.height_le, ⟨m, ?_, hm'⟩, ⟨n, ?_, hs ▸ hn'⟩⟩
  · simpa only [Journal.LastScreenIs, hd] using hm
  · simpa only [Journal.LastIs, hd] using hn

theorem note {s : Screen} {c : Channel} (h : Mirrors s c) (l : Level) (o : Origin) (t : String) :
    Mirrors s (c.note l o t) :=
  h.congr rfl rfl rfl

/-! ## Sending -/

/-- Sending the screen makes the peripheral agree, whatever it had before. -/
theorem updateScreen {s : Screen} {c : Channel} (hc : c.AcceptsAll) (hw : s.width ≤ 255)
    (hh : s.height ≤ 255) : Mirrors s (c.updateScreen s) := by
  let m : Message := { c.snapshot with
    screen := some s.pack, width := UInt8.ofNat s.width, height := UInt8.ofNat s.height }
  have hpush : c.updateScreen s = c.push m := by simp only [Channel.updateScreen, hw, hh, and_self, if_true, m]
  have hwidth : m.width.toNat = s.width := by
    show (UInt8.ofNat s.width).toNat = s.width
    simp only [UInt8.toNat_ofNat']
    omega
  have hheight : m.height.toNat = s.height := by
    show (UInt8.ofNat s.height).toNat = s.height
    simp only [UInt8.toNat_ofNat']
    omega
  have hdecode : Message.decode m.encode = .ok m := by
    have hfits : ∀ bytes, m.screen = some bytes → bytes.length < 4294967296 := by
      intro bytes hb
      have hlength : bytes.length = (s.width * s.height + 7) / 8 := by
        rw [← Option.some.inj hb, Screen.length_pack]
      have harea : s.width * s.height ≤ 255 * 255 := Nat.mul_le_mul hw hh
      omega
    simpa using Message.decode_encode hfits []
  have hdelivered := hc.delivered_push m
  rw [hpush]
  refine ⟨hc.congr (c.push_link m), hw, hh, ⟨m, ?_, ?_⟩, ⟨m, ?_, ?_⟩⟩
  · exact ⟨rfl, c.journal.delivered, m.encode, [], hdelivered, hdecode, by simp⟩
  · exact ⟨s.pack, rfl, hwidth, hheight, by rw [hwidth, hheight, Screen.unpack_pack]⟩
  · exact ⟨c.journal.delivered, m.encode, hdelivered, hdecode⟩
  · rw [Channel.push_shared]
    rfl

/-- Sending the buzzer and the keys makes the peripheral agree on the buzzer,
and leaves the screen it shows. -/
theorem push_snapshot {s : Screen} {c : Channel} (hc : c.AcceptsAll) (hw : s.width ≤ 255)
    (hh : s.height ≤ 255) (hshown : ∃ m, c.journal.LastScreenIs m ∧ m.Depicts s) :
    Mirrors s (c.push c.snapshot) := by
  have hdecode : Message.decode c.snapshot.encode = .ok c.snapshot := by
    simpa using Message.decode_encode (m := c.snapshot) (by simp [Channel.snapshot]) []
  have hdelivered := hc.delivered_push c.snapshot
  obtain ⟨m, ⟨hsome, before, payload, after, hsplit, hm, hafter⟩, hdepicts⟩ := hshown
  refine ⟨hc.congr (c.push_link _), hw, hh, ⟨m, ⟨hsome, before, payload, after ++ [c.snapshot.encode],
    ?_, hm, ?_⟩, hdepicts⟩, ⟨c.snapshot, ⟨_, _, hdelivered, hdecode⟩, ?_⟩⟩
  · rw [hdelivered, hsplit]
    simp
  · intro later hlater
    rcases List.mem_append.mp hlater with hold | hnew
    · exact hafter later hold
    · rw [List.mem_singleton.mp hnew]
      exact ⟨c.snapshot, hdecode, rfl⟩
  · rw [Channel.push_shared]
    rfl

theorem updateSoundAndKeys {s : Screen} {c : Channel} (h : Mirrors s c) : Mirrors s c.updateSoundAndKeys :=
  push_snapshot h.accepts h.width_le h.height_le h.shown

/-- The buzzer is sent exactly when it changes, so it is never stale. -/
theorem updateSound {s : Screen} {c : Channel} (h : Mirrors s c) (on : Bool) : Mirrors s (c.updateSound on) := by
  unfold Channel.updateSound SharedState.swapSound
  dsimp only
  split
  · exact push_snapshot h.accepts h.width_le h.height_le h.shown
  · next hsame =>
    have hsound : c.shared.sound = on := by simpa using hsame
    exact h.congr rfl hsound.symm rfl

theorem shutdown {s : Screen} {c : Channel} (h : Mirrors s c) : Mirrors s c.shutdown := by
  have hsent : Mirrors s (c.update fun t => ((t.setKeys 0).swapSound false).2).updateSoundAndKeys :=
    push_snapshot h.accepts h.width_le h.height_le h.shown
  exact hsent.congr rfl rfl rfl

theorem tick {s : Screen} {c : Channel} (h : Mirrors s c) : Mirrors s (Timer.tick c) := by
  have hcounted : Mirrors s (c.update fun s => s.countDelay.countSound.2) := h.congr rfl rfl rfl
  by_cases hlast : c.shared.soundTimer = 1
  · rw [Timer.tick_of_last hlast]
    exact hcounted.updateSound false
  · rw [Timer.tick_of_going hlast]
    exact hcounted

end Mirrors

namespace Machine

/-- The peripheral agrees with the machine. -/
abbrev Mirrored (m : Machine) : Prop := Mirrors m.screen m.channel

/-! ## Instructions -/

theorem Mirrored.clearScreen {m : Machine} (h : m.Mirrored) : m.clearScreen.Mirrored :=
  Mirrors.updateScreen h.accepts h.width_le h.height_le

theorem Mirrored.reset {m : Machine} (h : m.Mirrored) : m.reset.Mirrored := by
  unfold Mirrored
  rw [reset_screen]
  rcases reset_channel m with hc | ⟨text, hc⟩
  · rw [hc]; exact h
  · rw [hc]; exact h.note _ _ _

theorem Mirrored.restart {m : Machine} (h : m.Mirrored) : m.restart.Mirrored := by
  have htimers : Mirrors m.reset.screen
      (m.reset.channel.update fun s => (s.setDelay 0).setSoundTimer 0) :=
    h.reset.congr rfl rfl rfl
  have hsilent : Mirrors m.reset.screen
      ((m.reset.channel.update fun s => (s.setDelay 0).setSoundTimer 0).updateSound false) :=
    htimers.updateSound false
  exact Mirrors.updateScreen hsilent.accepts hsilent.width_le hsilent.height_le

theorem Mirrored.returnToCaller {m : Machine} (h : m.Mirrored) : m.returnToCaller.Mirrored := by
  unfold Machine.returnToCaller
  split
  · exact h
  · exact h.note _ _ _

theorem Mirrored.call {m : Machine} (h : m.Mirrored) (target : Address) : (m.call target).Mirrored := by
  unfold Machine.call
  split
  · exact h
  · exact h.note _ _ _

theorem Mirrored.jump {m : Machine} (h : m.Mirrored) (target : Address) : (m.jump target).1.Mirrored := by
  unfold Machine.jump
  dsimp only
  split
  · exact h
  split
  · exact (h.note _ _ _).shutdown
  split
  · exact Mirrored.restart (h.note _ _ _)
  · exact h

theorem Mirrored.draw {m : Machine} (h : m.Mirrored) (x y : Register) (rows : Nibble) :
    (m.draw x y rows).1.Mirrored := by
  by_cases hempty : m.screen.width = 0 ∨ m.screen.height = 0
  · unfold Machine.draw
    rw [if_pos hempty]
    exact h
  · obtain ⟨hw, hh⟩ := m.screen.flipAll_size (m.drawnPoints x y rows)
    have hw' := h.width_le
    have hh' := h.height_le
    rw [← hw] at hw'
    rw [← hh] at hh'
    rw [draw_eq hempty]
    exact Mirrors.updateScreen h.accepts hw' hh'

theorem Mirrored.awaitKey {m : Machine} (h : m.Mirrored) (x : Register) : (m.awaitKey x).1.Mirrored := by
  unfold Machine.awaitKey
  split <;> exact h

theorem Mirrored.setSound {m : Machine} (h : m.Mirrored) (x : Register) : (m.setSound x).Mirrored := by
  have hsound : Mirrors m.screen (m.channel.updateSound (0 < m.cpu.get x)) := h.updateSound _
  exact hsound.congr rfl rfl rfl

/-- Every instruction sends what it changes; those not named here change the
processor alone. -/
theorem Mirrored.execute {m : Machine} (h : m.Mirrored) (random : UInt8) (i : Instruction) :
    (m.execute random i).1.Mirrored := by
  cases i with
  | clearScreen => exact h.clearScreen
  | ret => exact h.returnToCaller
  | jump target => exact h.jump target
  | call target => exact h.call target
  | draw x y rows => exact h.draw x y rows
  | awaitKey x => exact h.awaitKey x
  | setDelay x => exact h.congr rfl rfl rfl
  | setSound x => exact h.setSound x
  | _ => exact h

theorem Mirrored.fetched {m : Machine} (h : m.Mirrored) (word : UInt16) : (m.fetched word).Mirrored := by
  unfold Mirrored
  rw [fetched_screen]
  exact h.congr (fetched_link m word) (by rw [fetched_shared]) (fetched_sends m word)

theorem Mirrored.step {m : Machine} (h : m.Mirrored) (random : UInt8) : (m.step random).1.Mirrored := by
  rcases step_cases m random with ⟨-, hs⟩ | ⟨word, i, -, -, hs⟩ | ⟨word, -, -, -, hs⟩ | ⟨word, -, -, -, hs⟩
  · rw [hs]; exact h
  · rw [hs]; exact (h.fetched word).execute random i
  · rw [hs]; exact h.fetched word
  · rw [hs]; exact (h.fetched word).note _ _ _

/-! ## Runs -/

theorem sound_orKeep {s : SharedState} {r : Except Fault SharedState}
    (h : ∀ t, r = .ok t → t.sound = s.sound) : (orKeep s r).sound = s.sound := by
  cases r with
  | ok t => exact h t rfl
  | error => rfl

theorem sound_press {s t : SharedState} {key : Nat} (h : s.press key = .ok t) : t.sound = s.sound := by
  unfold SharedState.press at h
  split at h
  · cases h; rfl
  · cases h

theorem sound_release {s t : SharedState} {key : Nat} (h : s.release key = .ok t) : t.sound = s.sound := by
  unfold SharedState.release at h
  split at h
  · cases h; rfl
  · cases h

theorem sound_receive (s : SharedState) (datagram : List UInt8) :
    (Keypad.receive s datagram).1.sound = s.sound := by
  unfold Keypad.receive
  split <;> rfl

/-- No action leaves the peripheral behind. -/
theorem perform_mirrors (m : Machine) (a : Action) (h : m.Mirrored) : (m.perform a).Mirrored := by
  cases a with
  | step random => exact h.step random
  | tickTimer => exact h.tick
  | setKeys keys => exact h.congr rfl rfl rfl
  | press key => exact h.congr rfl (sound_orKeep fun _ => sound_press) rfl
  | release key => exact h.congr rfl (sound_orKeep fun _ => sound_release) rfl
  | receive datagram => exact h.congr rfl (sound_receive _ datagram) rfl
  | showScreen => exact Mirrors.updateScreen h.accepts h.width_le h.height_le
  | updateSound on => exact h.updateSound on
  | updateSoundAndKeys => exact h.updateSoundAndKeys
  | shutdown => exact h.shutdown

/-- **The peripheral mirrors the machine.** Once the screen was sent over a link
that accepts everything, then after every sequence of actions the last message
with a screen depicts the screen as it is, and the last message of any kind has
the buzzer as it is. -/
theorem peripheral_mirrors (m : Machine) (haccepts : m.channel.AcceptsAll)
    (hwidth : m.screen.width ≤ 255) (hheight : m.screen.height ≤ 255) (actions : List Action) :
    let after := m.showScreen.performAll actions
    (∃ shown, after.channel.journal.LastScreenIs shown ∧ shown.Depicts after.screen) ∧
      ∃ last, after.channel.journal.LastIs last ∧ last.sound = after.channel.shared.sound := by
  have hstart : m.showScreen.Mirrored := Mirrors.updateScreen haccepts hwidth hheight
  have hafter := performAll_keeps perform_mirrors hstart actions
  exact ⟨hafter.shown, hafter.heard⟩

/-- A glyph is drawn, the buzzer goes on and a key is pressed: what is shown is not dark. -/
theorem peripheral_mirrors_glyph :
    let m : Machine := { cpu := glyphProcessor }
    let after := m.showScreen.performAll [.step 0, .step 0, .updateSound true, .press 3]
    m.channel.AcceptsAll ∧ m.screen.width ≤ 255 ∧ m.screen.height ≤ 255 ∧ after.screen.lit 0 0 = true ∧
      (∃ shown, after.channel.journal.LastScreenIs shown ∧ shown.Depicts after.screen) ∧
      ∃ last, after.channel.journal.LastIs last ∧ last.sound = after.channel.shared.sound := by
  intro m after
  have haccepts : m.channel.AcceptsAll := fun _ _ => rfl
  have hwidth : m.screen.width ≤ 255 := by decide
  have hheight : m.screen.height ≤ 255 := by decide
  have hlit : after.screen.lit 0 0 = true :=
    lit_glyphProgram rfl (by decide) (by decide) (Screen.lit_new (by decide) 0 0) 0 0 (by simp)
  exact ⟨haccepts, hwidth, hheight, hlit, peripheral_mirrors m haccepts hwidth hheight _⟩

end Machine

end Chip8
