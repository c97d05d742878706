/-
The record is faithful: over a link that takes everything, the peripheral reads
exactly the messages that were handed to the link, each once and in order
(`record_faithful`).

`Hands c messages d` says which messages were handed over between two states of
the channel. The bytes on the way hold a message only if they decode to it
again, which takes a screen of fewer than 2^32 bytes. So what a message can look
like has to be known first: a message without a screen has the standard size, a
message with one has the size of the machine's screen and no more than one bit
for a pixel (`Message.Suits`). Every action does some task on the channel
(`perform_task`), and a task sends what its drafts say.
-/
import Chip8.Proofs.Glyphs
import Chip8.Proofs.Interleaving
import Chip8.Proofs.RoundTrip
import Chip8.Proofs.Safety
import Mathlib.Data.List.Basic

namespace Chip8

/-! ## What is handed over -/

namespace Channel

/-- From `c` to `d` the messages were handed to the link, in this order. Besides,
only the shared state, the log and the printed lines may have changed. -/
inductive Hands (c : Channel) : List Message → Channel → Prop
  | start : Hands c [] c
  | aside {messages : List Message} {d e : Channel} :
    Hands c messages d → e.link = d.link → e.journal.sends = d.journal.sends → Hands c messages e
  | push {messages : List Message} {d : Channel} (m : Message) :
    Hands c messages d → Hands c (messages ++ [m]) (d.push m)

namespace Hands

theorem trans {c d e : Channel} {first second : List Message} (h : Hands c first d) (k : Hands d second e) :
    Hands c (first ++ second) e := by
  induction k with
  | start => rwa [List.append_nil]
  | aside _ hlink hsends ih => exact ih.aside hlink hsends
  | push m _ ih =>
    rw [← List.append_assoc]
    exact ih.push m

theorem traffic {c d e : Channel} {messages : List Message} (h : Hands c messages d) (k : e.SameTraffic d) :
    Hands c messages e :=
  h.aside k.link k.sends

theorem link {c d : Channel} {messages : List Message} (h : Hands c messages d) : d.link = c.link := by
  induction h with
  | start => rfl
  | aside _ hlink _ ih => exact hlink.trans ih
  | push m _ ih => rw [push_link, ih]

theorem sends {c d : Channel} {messages : List Message} (h : Hands c messages d) :
    d.journal.sends.toList.map Send.message = c.journal.sends.toList.map Send.message ++ messages := by
  induction h with
  | start => simp
  | aside _ _ hsends ih => rw [hsends, ih]
  | @push messages d m _ ih =>
    obtain ⟨accepted, hpush⟩ := d.push_sends m
    simp [hpush, ih]

/-- Between two states the messages are determined. -/
theorem unique {c d : Channel} {messages others : List Message} (h : Hands c messages d)
    (k : Hands c others d) : messages = others :=
  List.append_cancel_left (h.sends.symm.trans k.sends)

theorem delivered {c d : Channel} {messages : List Message} (h : Hands c messages d) (hc : c.AcceptsAll) :
    d.journal.delivered = c.journal.delivered ++ messages.map Message.encode := by
  induction h with
  | start => simp
  | aside _ _ hsends ih => rw [Journal.delivered_congr hsends, ih]
  | @push messages d m hd ih =>
    rw [(hc.congr hd.link).delivered_push m, ih]
    simp

/-- Messages that decode are received as they were handed over. -/
theorem received {c d : Channel} {messages : List Message} (h : Hands c messages d) (hc : c.AcceptsAll)
    (hdecode : ∀ m ∈ messages, Message.decode m.encode = .ok m) :
    d.journal.received = c.journal.received ++ messages := by
  have hread : (messages.map Message.encode).filterMap (fun bytes => (Message.decode bytes).toOption) =
      messages := by
    rw [List.filterMap_map]
    refine (List.filterMap_congr fun m hm => ?_).trans List.filterMap_some
    show (Message.decode m.encode).toOption = some m
    rw [hdecode m hm]
    rfl
  simp only [Journal.received, h.delivered hc, List.filterMap_append, hread]

end Hands

end Channel

/-! ## What a message looks like -/

/-- The message has the standard size and no screen, or a screen packed eight
pixels to a byte and the size of the given one. -/
def Message.Suits (m : Message) (s : Screen) : Prop :=
  match m.screen with
  | none => m.width.toNat = standardWidth ∧ m.height.toNat = standardHeight
  | some packed =>
    m.width.toNat = s.width ∧ m.height.toNat = s.height ∧ packed.length = (s.width * s.height + 7) / 8

namespace Message

theorem Suits.of_none {m : Message} {s : Screen} (h : m.Suits s) (hscreen : m.screen = none) :
    m.width.toNat = standardWidth ∧ m.height.toNat = standardHeight := by
  simpa only [Suits, hscreen] using h

theorem Suits.of_some {m : Message} {s : Screen} {packed : List UInt8} (h : m.Suits s)
    (hscreen : m.screen = some packed) :
    m.width.toNat = s.width ∧ m.height.toNat = s.height ∧ packed.length = (s.width * s.height + 7) / 8 := by
  simpa only [Suits, hscreen] using h

/-- Only the size of the screen matters. -/
theorem Suits.congr {m : Message} {s t : Screen} (h : m.Suits s) (hw : t.width = s.width)
    (hh : t.height = s.height) : m.Suits t := by
  simpa only [Suits, hw, hh] using h

/-- At most 255 columns and rows make a screen short enough to be read back. -/
theorem Suits.decode {m : Message} {s : Screen} (h : m.Suits s) : Message.decode m.encode = .ok m := by
  have hfits : ∀ packed, m.screen = some packed → packed.length < 4294967296 := by
    intro packed hscreen
    obtain ⟨hw, hh, hlength⟩ := h.of_some hscreen
    have hwidth : s.width ≤ 255 := by
      have := m.width.toNat_lt
      omega
    have hheight : s.height ≤ 255 := by
      have := m.height.toNat_lt
      omega
    have harea : s.width * s.height ≤ 255 * 255 := Nat.mul_le_mul hwidth hheight
    omega
  simpa using decode_encode hfits []

end Message

namespace Channel

/-- From `c` to `d` only messages that suit the screen were handed over. -/
def HandsSuiting (s : Screen) (c d : Channel) : Prop :=
  ∃ messages, c.Hands messages d ∧ ∀ m ∈ messages, m.Suits s

namespace HandsSuiting

theorem refl (s : Screen) (c : Channel) : c.HandsSuiting s c := ⟨[], .start, by simp⟩

theorem trans {s : Screen} {c d e : Channel} (h : c.HandsSuiting s d) (k : d.HandsSuiting s e) :
    c.HandsSuiting s e := by
  obtain ⟨first, hfirst, hsuit⟩ := h
  obtain ⟨second, hsecond, hsuit'⟩ := k
  refine ⟨first ++ second, hfirst.trans hsecond, fun m hm => ?_⟩
  rcases List.mem_append.mp hm with hm | hm
  · exact hsuit m hm
  · exact hsuit' m hm

theorem traffic {s : Screen} {c d e : Channel} (h : c.HandsSuiting s d) (k : e.SameTraffic d) :
    c.HandsSuiting s e := by
  obtain ⟨messages, hmessages, hsuit⟩ := h
  exact ⟨messages, hmessages.traffic k, hsuit⟩

/-- A change that has nothing to do with the link may come first. -/
theorem after_aside {s : Screen} {c d e : Channel} (h : d.HandsSuiting s e) (hlink : d.link = c.link)
    (hsends : d.journal.sends = c.journal.sends) : c.HandsSuiting s e :=
  trans ⟨[], Hands.start.aside hlink hsends, by simp⟩ h

theorem after_push {s : Screen} {c d : Channel} {m : Message} (hm : m.Suits s)
    (h : (c.push m).HandsSuiting s d) : c.HandsSuiting s d :=
  trans ⟨[m], Hands.start.push m, by simpa using hm⟩ h

end HandsSuiting

end Channel

/-! ## What tasks send -/

namespace Task

/-- Every message that the task may send suits the screen. -/
def Suits (s : Screen) : Task → Prop
  | .done => True
  | .write _ next => next.Suits s
  | .countSound a b | .swapSound _ a b => a.Suits s ∧ b.Suits s
  | .readSound m next | .readKeys m next | .send m next => m.Suits s ∧ next.Suits s

theorem finish_suiting {s : Screen} {t : Task} (h : t.Suits s) (c : Channel) : c.HandsSuiting s (t.finish c) := by
  induction t generalizing c with
  | done => exact .refl s c
  | write w next ih => exact .after_aside (ih h (c.update w.apply)) rfl rfl
  | countSound expired next ihExpired ih =>
    simp only [finish]
    split
    · exact .after_aside (ihExpired h.1 _) rfl rfl
    · exact .after_aside (ih h.2 _) rfl rfl
  | swapSound on changed unchanged ihChanged ih =>
    simp only [finish]
    split
    · exact .after_aside (ihChanged h.1 _) rfl rfl
    · exact .after_aside (ih h.2 _) rfl rfl
  | readSound m next ih =>
    -- What is read into a draft is neither its screen nor its size.
    have hread : ({ m with sound := c.shared.sound, keys := c.shared.keys } : Message).Suits s := h.1
    exact .after_push hread (ih h.2 _)
  | readKeys m next ih =>
    have hread : ({ m with keys := c.shared.keys } : Message).Suits s := h.1
    exact .after_push hread (ih h.2 _)
  | send m next ih => exact .after_push h.1 (ih h.2 _)

theorem suits_sendState {s : Screen} {next : Task} (h : next.Suits s) : (sendState next).Suits s :=
  ⟨⟨rfl, rfl⟩, h⟩

theorem suits_updateSound {s : Screen} (on : Bool) {next : Task} (h : next.Suits s) :
    (updateSound on next).Suits s :=
  ⟨suits_sendState h, h⟩

/-- A screen with more than 255 columns or rows is not sent, so the size that is
sent is the true one. -/
theorem suits_sendScreen {s shown : Screen} {next : Task} (hw : shown.width = s.width)
    (hh : shown.height = s.height) (h : next.Suits s) : (sendScreen shown next).Suits s := by
  unfold sendScreen
  split
  · next hsize =>
    refine ⟨⟨?_, ?_, ?_⟩, h⟩
    · simp only [UInt8.toNat_ofNat']
      omega
    · simp only [UInt8.toNat_ofNat']
      omega
    · rw [Screen.length_pack, hw, hh]
  · exact h

end Task

namespace Machine

/-! ## Every action is a task -/

theorem job?_suits {m : Machine} {i : Instruction} {job : Job} (h : m.job? i = some job) :
    job.task.Suits m.screen := by
  cases i with
  | clearScreen => cases h; exact Task.suits_sendScreen rfl rfl trivial
  | draw x y rows =>
    simp only [job?] at h
    split at h
    · cases h
    · cases h
      obtain ⟨hw, hh⟩ := m.screen.flipAll_size (m.drawnPoints x y rows)
      exact Task.suits_sendScreen hw hh trivial
  | jump target =>
    simp only [job?] at h
    split at h
    · cases h
    split at h
    · cases h; exact ⟨Task.suits_sendState trivial, Task.suits_sendState trivial⟩
    split at h
    · cases h; exact Task.suits_updateSound false (Task.suits_sendScreen rfl rfl trivial)
    · cases h
  | setDelay x => cases h; trivial
  | setSound x => cases h; exact Task.suits_updateSound _ trivial
  | _ => cases h

theorem fetched_traffic (m : Machine) (word : UInt16) : (m.fetched word).channel.SameTraffic m.channel :=
  ⟨m.fetched_shared word, m.fetched_link word, m.fetched_sends word⟩

/-- An instruction does the task of its job; the rest of a step sends nothing. -/
theorem step_task (m : Machine) (random : UInt8) :
    ∃ t : Task, t.Suits m.screen ∧ (m.step random).1.channel.SameTraffic (t.finish m.channel) := by
  rcases step_cases m random with ⟨-, hs⟩ | ⟨word, i, -, -, hs⟩ | ⟨word, -, -, -, hs⟩ | ⟨word, -, -, -, hs⟩
  · exact ⟨.done, trivial, by rw [hs]; exact .refl _⟩
  · refine ⟨((m.fetched word).job? i).elim .done Job.task, ?_, ?_⟩
    · cases hjob : (m.fetched word).job? i with
      | none => trivial
      | some job =>
        have hsuits := job?_suits hjob
        rwa [fetched_screen] at hsuits
    · rw [hs]
      exact (execute_traffic _ random i).trans (Task.finish_traffic _ (m.fetched_traffic word))
  · exact ⟨.done, trivial, by rw [hs]; exact m.fetched_traffic word⟩
  · exact ⟨.done, trivial, by rw [hs]; exact (Channel.SameTraffic.note _ _ _ _).trans (m.fetched_traffic word)⟩

theorem press_keys (s : SharedState) (key : Nat) : ∃ keys, orKeep s (s.press key) = s.setKeys keys := by
  unfold SharedState.press
  split
  · exact ⟨_, rfl⟩
  · exact ⟨s.keys, rfl⟩

theorem release_keys (s : SharedState) (key : Nat) : ∃ keys, orKeep s (s.release key) = s.setKeys keys := by
  unfold SharedState.release
  split
  · exact ⟨_, rfl⟩
  · exact ⟨s.keys, rfl⟩

theorem receive_keys (s : SharedState) (datagram : List UInt8) :
    ∃ keys, (Keypad.receive s datagram).1 = s.setKeys keys := by
  unfold Keypad.receive
  split
  · exact ⟨_, rfl⟩
  · exact ⟨s.keys, rfl⟩

/-- Whatever comes from the keypad changes the keys alone. -/
theorem perform_keys {m : Machine} {a : Action} (h : a.fromKeypad = true) :
    ∃ keys, m.perform a = m.updateShared (·.setKeys keys) := by
  cases a with
  | setKeys keys => exact ⟨keys, rfl⟩
  | press key =>
    obtain ⟨keys, hkeys⟩ := press_keys m.channel.shared key
    exact ⟨keys, congrArg (fun shared => { m with channel := { m.channel with shared } }) hkeys⟩
  | release key =>
    obtain ⟨keys, hkeys⟩ := release_keys m.channel.shared key
    exact ⟨keys, congrArg (fun shared => { m with channel := { m.channel with shared } }) hkeys⟩
  | receive datagram =>
    obtain ⟨keys, hkeys⟩ := receive_keys m.channel.shared datagram
    exact ⟨keys, congrArg (fun shared => { m with channel := { m.channel with shared } }) hkeys⟩
  | _ => cases h

/-- **Every action is a task**, and what it sends suits the screen. -/
theorem perform_task (m : Machine) (a : Action) :
    ∃ t : Task, t.Suits m.screen ∧ (m.perform a).channel.SameTraffic (t.finish m.channel) := by
  by_cases hkeypad : a.fromKeypad = true
  · obtain ⟨keys, hkeys⟩ := perform_keys (m := m) hkeypad
    refine ⟨.write (.keys keys) .done, trivial, ?_⟩
    rw [hkeys]
    exact .refl _
  cases a with
  | setKeys | press | release | receive => exact absurd rfl hkeypad
  | step random => exact m.step_task random
  | tickTimer =>
    refine ⟨Job.tick.task, ⟨Task.suits_updateSound _ trivial, trivial⟩, ?_⟩
    rw [finish_tick]
    exact .refl _
  | showScreen =>
    exact ⟨.sendScreen m.screen .done, Task.suits_sendScreen rfl rfl trivial, Task.finish_sendScreen _ _⟩
  | updateSound on =>
    refine ⟨.updateSound on .done, Task.suits_updateSound on trivial, ?_⟩
    rw [Task.finish_updateSound]
    exact .refl _
  | updateSoundAndKeys => exact ⟨.sendState .done, Task.suits_sendState trivial, .refl _⟩
  | shutdown =>
    refine ⟨Job.shutdown.task, ⟨Task.suits_sendState trivial, Task.suits_sendState trivial⟩, ?_⟩
    rw [finish_shutdown]
    exact .refl _

/-! ## Runs -/

theorem perform_suiting (m : Machine) (a : Action) : m.channel.HandsSuiting m.screen (m.perform a).channel := by
  obtain ⟨t, hsuits, htraffic⟩ := m.perform_task a
  exact (Task.finish_suiting hsuits m.channel).traffic htraffic

theorem performAll_size (m : Machine) (actions : List Action) :
    (m.performAll actions).screen.width = m.screen.width ∧
      (m.performAll actions).screen.height = m.screen.height := by
  refine performAll_keeps (P := fun n => n.screen.width = m.screen.width ∧ n.screen.height = m.screen.height)
    (fun n a hn => ?_) ⟨rfl, rfl⟩ actions
  obtain ⟨hw, hh⟩ := n.perform_size a
  exact ⟨hw.trans hn.1, hh.trans hn.2⟩

/-- Whatever a run hands over suits the screen. -/
theorem performAll_suiting (m : Machine) (actions : List Action) :
    m.channel.HandsSuiting m.screen (m.performAll actions).channel := by
  induction actions generalizing m with
  | nil => exact .refl _ _
  | cons a actions ih =>
    obtain ⟨messages, hmessages, hsuit⟩ := ih (m.perform a)
    obtain ⟨hw, hh⟩ := m.perform_size a
    exact (m.perform_suiting a).trans ⟨messages, hmessages, fun x hx => (hsuit x hx).congr hw.symm hh.symm⟩

theorem performAll_accepts {m : Machine} (h : m.channel.AcceptsAll) (actions : List Action) :
    (m.performAll actions).channel.AcceptsAll := by
  obtain ⟨_, hsent, -⟩ := m.performAll_suiting actions
  exact h.congr hsent.link

/-- Over a link that takes everything, what a run hands over is received. -/
theorem performAll_received {m : Machine} (haccepts : m.channel.AcceptsAll) (actions : List Action)
    {messages : List Message} (h : m.channel.Hands messages (m.performAll actions).channel) :
    (m.performAll actions).channel.journal.received = m.channel.journal.received ++ messages := by
  obtain ⟨others, hothers, hsuit⟩ := m.performAll_suiting actions
  rw [h.unique hothers]
  exact hothers.received haccepts fun x hx => (hsuit x hx).decode

/-- **The record is faithful.** Over a link that takes everything, what the
peripheral reads after any sequence of actions is what it had read before and
then the messages handed to the link, in order, none lost and none twice. Each
of them has no screen and the standard size, or a screen of one bit for a pixel
and the size of the machine's screen, which no action changes. A screen with more
than 255 columns or rows is in no message. -/
theorem record_faithful (m : Machine) (haccepts : m.channel.AcceptsAll) (actions : List Action) :
    let after := m.performAll actions
    (∃ messages, m.channel.Hands messages after.channel) ∧
    ∀ messages, m.channel.Hands messages after.channel →
      after.channel.journal.received = m.channel.journal.received ++ messages ∧
      (∀ x ∈ messages, x.screen = none → x.width = 64 ∧ x.height = 32) ∧
      (∀ x ∈ messages, ∀ packed, x.screen = some packed →
        x.width.toNat = after.screen.width ∧ x.height.toNat = after.screen.height ∧
        after.screen.width ≤ 255 ∧ after.screen.height ≤ 255 ∧
        packed.length = (after.screen.width * after.screen.height + 7) / 8) ∧
      (255 < after.screen.width ∨ 255 < after.screen.height → ∀ x ∈ messages, x.screen = none) := by
  intro after
  obtain ⟨sent, hsent, hsuit⟩ := m.performAll_suiting actions
  obtain ⟨hwidth, hheight⟩ := m.performAll_size actions
  refine ⟨⟨sent, hsent⟩, fun messages hmessages => ?_⟩
  have hreceived := performAll_received haccepts actions hmessages
  rw [hmessages.unique hsent] at hreceived ⊢
  have hshown : ∀ x ∈ sent, ∀ packed, x.screen = some packed →
      x.width.toNat = after.screen.width ∧ x.height.toNat = after.screen.height ∧
      after.screen.width ≤ 255 ∧ after.screen.height ≤ 255 ∧
      packed.length = (after.screen.width * after.screen.height + 7) / 8 := by
    intro x hx packed hpacked
    obtain ⟨hw, hh, hlength⟩ := ((hsuit x hx).congr hwidth hheight).of_some hpacked
    have hw' : after.screen.width < 256 := hw ▸ x.width.toNat_lt
    have hh' : after.screen.height < 256 := hh ▸ x.height.toNat_lt
    exact ⟨hw, hh, Nat.le_of_lt_succ hw', Nat.le_of_lt_succ hh', hlength⟩
  refine ⟨hreceived, fun x hx hnone => ?_, hshown, fun hlarge x hx => ?_⟩
  · obtain ⟨hw, hh⟩ := (hsuit x hx).of_none hnone
    exact ⟨UInt8.toNat_inj.mp hw, UInt8.toNat_inj.mp hh⟩
  · cases hscreen : x.screen with
    | none => rfl
    | some packed =>
      obtain ⟨-, -, hw, hh, -⟩ := hshown x hx packed hscreen
      omega

/-- A glyph on a screen of 3 by 2 pixels, a beep, a key and the end. -/
theorem record_faithful_small :
    let m : Machine := { cpu := glyphProcessor, screen := .new 3 2 (by decide) }
    let after := m.performAll [.step 0, .step 0, .updateSound true, .press 3, .shutdown]
    m.channel.AcceptsAll ∧ after.screen.lit 0 0 = true ∧
      ∃ messages, m.channel.Hands messages after.channel ∧ after.channel.journal.received = messages ∧
      ∀ x ∈ messages, ∀ packed, x.screen = some packed → x.width = 3 ∧ x.height = 2 ∧ packed.length = 1 := by
  intro m after
  have haccepts : m.channel.AcceptsAll := fun _ _ => rfl
  have hlit : after.screen.lit 0 0 = true :=
    lit_glyphProgram rfl (by decide) (by decide) (Screen.lit_new (by decide) 0 0) 0 0 (by simp)
  obtain ⟨⟨messages, hmessages⟩, hrecord⟩ :=
    record_faithful m haccepts [.step 0, .step 0, .updateSound true, .press 3, .shutdown]
  obtain ⟨hreceived, -, hshown, -⟩ := hrecord messages hmessages
  have hsize : after.screen.width = 3 ∧ after.screen.height = 2 := m.performAll_size _
  refine ⟨haccepts, hlit, messages, hmessages, hreceived, fun x hx packed hpacked => ?_⟩
  obtain ⟨hw, hh, -, -, hlength⟩ := hshown x hx packed hpacked
  refine ⟨UInt8.toNat_inj.mp (hw.trans hsize.1), UInt8.toNat_inj.mp (hh.trans hsize.2), ?_⟩
  rw [hlength, hsize.1, hsize.2]

end Machine

end Chip8
