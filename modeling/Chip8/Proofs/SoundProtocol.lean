/-
The buzzer, its timer and the messages about them, as long as instructions and
ticks do not interrupt one another and no instruction halts the machine.

After each of them the buzzer is on exactly if its timer runs, and the messages
without a screen tell of its changes alone: on, off, on, and so on
(`sound_protocol`). Halting has to be left out because shutting the peripheral
down sends a message whether the buzzer was on or not, and leaves the timer as it
is.

`Follows c d` is one turn of this: nothing is said of a buzzer that stays as it
was, and one thing of a buzzer that does not. Each job of the two threads is such
a turn (`Job.follows`), and so are the actions that do them.
-/
import Chip8.Proofs.Beeps
import Chip8.Proofs.Record

namespace Chip8

/-- The first entry is the given one, and each other entry differs from the one
before it. -/
def Alternates : Bool → List Bool → Prop
  | _, [] => True
  | first, b :: rest => b = first ∧ Alternates (!first) rest

/-- The buzzer in the messages without a screen, in order. -/
def Message.chimes (messages : List Message) : List Bool :=
  (messages.filter (·.screen.isNone)).map Message.sound

/-- The buzzer is on exactly if its timer runs. -/
def SharedState.InTune (s : SharedState) : Prop := s.sound = true ↔ 0 < s.soundTimer

namespace Channel

/-! ## What is said of the buzzer -/

/-- From `c` to `d` the messages without a screen said this of the buzzer. -/
def Chimes (c : Channel) (sounds : List Bool) (d : Channel) : Prop :=
  ∃ messages, c.Hands messages d ∧ Message.chimes messages = sounds

namespace Chimes

theorem trans {c d e : Channel} {first second : List Bool} (h : c.Chimes first d) (k : d.Chimes second e) :
    c.Chimes (first ++ second) e := by
  obtain ⟨messages, hmessages, rfl⟩ := h
  obtain ⟨others, hothers, rfl⟩ := k
  exact ⟨messages ++ others, hmessages.trans hothers, by simp [Message.chimes]⟩

theorem traffic {c d e : Channel} {sounds : List Bool} (h : c.Chimes sounds d) (k : e.SameTraffic d) :
    c.Chimes sounds e := by
  obtain ⟨messages, hmessages, hsounds⟩ := h
  exact ⟨messages, hmessages.traffic k, hsounds⟩

/-- A change that has nothing to do with the link says nothing. -/
theorem aside {c d : Channel} (hlink : d.link = c.link) (hsends : d.journal.sends = c.journal.sends) :
    c.Chimes [] d :=
  ⟨[], Hands.start.aside hlink hsends, rfl⟩

/-- Such a change may come first. -/
theorem after_aside {c d e : Channel} {sounds : List Bool} (h : d.Chimes sounds e) (hlink : d.link = c.link)
    (hsends : d.journal.sends = c.journal.sends) : c.Chimes sounds e :=
  (aside hlink hsends).trans h

/-- Setting the buzzer is said if it changes it. -/
theorem updateSound (c : Channel) (on : Bool) :
    c.Chimes (if on = c.shared.sound then [] else [on]) (c.updateSound on) := by
  by_cases h : on = c.shared.sound
  · subst h
    rw [if_pos rfl, updateSound_same]
    exact aside rfl rfl
  · rw [if_neg h, updateSound_changed (Ne.symm h)]
    let switched := c.update fun s => { s with sound := on }
    have haside : c.Hands [] switched := Hands.start.aside rfl rfl
    exact ⟨[switched.snapshot], haside.push switched.snapshot, rfl⟩

/-- Sending a screen says nothing of it. -/
theorem sendScreen (c : Channel) (s : Screen) : c.Chimes [] ((Task.sendScreen s .done).finish c) := by
  unfold Task.sendScreen
  split
  · exact ⟨[_], Hands.start.push _, rfl⟩
  · exact aside rfl rfl

end Chimes

theorem finish_sendScreen_shared (c : Channel) (s : Screen) :
    ((Task.sendScreen s .done).finish c).shared = c.shared := by
  unfold Task.sendScreen
  split
  · exact push_shared _ _
  · rfl

/-- A turn of the protocol: the buzzer comes out in tune with its timer, and a
message without a screen was sent if and only if the buzzer changed. -/
structure Follows (c d : Channel) : Prop where
  inTune : d.shared.InTune
  chimes : c.Chimes (if d.shared.sound = c.shared.sound then [] else [d.shared.sound]) d

namespace Follows

theorem traffic {c d e : Channel} (h : c.Follows d) (k : e.SameTraffic d) : c.Follows e := by
  refine ⟨by rw [k.shared]; exact h.inTune, ?_⟩
  rw [k.shared]
  exact h.chimes.traffic k

/-- The buzzer was set to `on`, and its timer agrees with that. -/
theorem of_set {c d : Channel} (on : Bool) (hsound : d.shared.sound = on)
    (htimer : on = true ↔ 0 < d.shared.soundTimer) (h : c.Chimes (if on = c.shared.sound then [] else [on]) d) :
    c.Follows d := by
  subst hsound
  exact ⟨htimer, h⟩

/-- Where neither the buzzer nor its timer is touched, there is nothing to say. -/
theorem of_kept {c d : Channel} (hc : c.shared.InTune) (hsound : d.shared.sound = c.shared.sound)
    (htimer : d.shared.soundTimer = c.shared.soundTimer) (h : c.Chimes [] d) : c.Follows d := by
  refine ⟨?_, by rwa [if_pos hsound]⟩
  unfold SharedState.InTune
  rw [hsound, htimer]
  exact hc

end Follows

end Channel

open Channel (Follows Chimes)

/-! ## Jobs -/

theorem SharedState.countDown_pos_iff {ticks : UInt8} (h : ticks ≠ 1) : 0 < countDown ticks ↔ 0 < ticks := by
  simp only [UInt8.pos_iff_ne_zero]
  constructor
  · exact countDown_ne_zero_of_ne
  · exact fun hpos hzero => h (eq_one_of_countDown hpos hzero)

theorem Timer.tick_follows {c : Channel} (hc : c.shared.InTune) : c.Follows (Timer.tick c) := by
  let counted : Channel := c.update fun s => s.countDelay.countSound.2
  by_cases hlast : c.shared.soundTimer = 1
  · -- The timer runs out, and the buzzer goes off.
    have htimer : counted.shared.soundTimer = 0 := by
      show SharedState.countDown c.shared.soundTimer = 0
      rw [hlast]
      rfl
    rw [Timer.tick_of_last hlast]
    refine .of_set false ?_ ?_ ?_
    · rw [Channel.updateSound_shared]
    · rw [Channel.updateSound_shared, htimer]
      decide
    · exact .after_aside (.updateSound counted false) rfl rfl
  · have htune : counted.shared.InTune := hc.trans (SharedState.countDown_pos_iff hlast).symm
    rw [Timer.tick_of_going hlast]
    exact ⟨htune, by rw [if_pos (show counted.shared.sound = c.shared.sound from rfl)]; exact .aside rfl rfl⟩

theorem Job.beep_follows (ticks : UInt8) (c : Channel) : c.Follows ((Job.beep ticks).task.finish c) := by
  have hfinish : (Job.beep ticks).task.finish c =
      (c.updateSound (0 < ticks)).update (·.setSoundTimer (Buzzer.stretch ticks)) := by
    simp only [Job.task, Task.finish_updateSound]
    rfl
  have hsaid := Chimes.updateSound c (0 < ticks)
  rw [hfinish]
  refine .of_set (decide (0 < ticks)) ?_ ?_ ?_
  · exact congrArg SharedState.sound (Channel.updateSound_shared c _)
  · show _ ↔ 0 < Buzzer.stretch ticks
    rw [decide_eq_true_iff, UInt8.pos_iff_ne_zero, UInt8.pos_iff_ne_zero, ne_eq, ne_eq,
      Buzzer.stretch_eq_zero_iff]
  · rw [← List.append_nil (ite _ _ _)]
    exact hsaid.trans (.aside rfl rfl)

theorem Job.restart_follows (s : Screen) (c : Channel) : c.Follows ((Job.restart s).task.finish c) := by
  let cleared := c.update fun s => (s.setDelay 0).setSoundTimer 0
  have hfinish : (Job.restart s).task.finish c =
      (Task.sendScreen s.clear .done).finish (cleared.updateSound false) := by
    simp only [Job.task, Task.finish, Task.finish_updateSound]
    rfl
  have hshared : ((Task.sendScreen s.clear .done).finish (cleared.updateSound false)).shared =
      { cleared.shared with sound := false } := by
    rw [Channel.finish_sendScreen_shared, Channel.updateSound_shared]
  rw [hfinish]
  refine .of_set false (by rw [hshared]) ?_ ?_
  · rw [hshared]
    show false = true ↔ (0 : UInt8) < 0
    decide
  · rw [← List.append_nil (ite _ _ _)]
    exact .after_aside ((Chimes.updateSound cleared false).trans (.sendScreen _ s.clear)) rfl rfl

/-- Every job but the one that shuts the peripheral down is a turn of the protocol. -/
theorem Job.follows {job : Job} (h : job ≠ .shutdown) {c : Channel} (hc : c.shared.InTune) :
    c.Follows (job.task.finish c) := by
  cases job with
  | shutdown => exact absurd rfl h
  | tick =>
    rw [finish_tick]
    exact Timer.tick_follows hc
  | showScreen s =>
    have hshared := c.finish_sendScreen_shared s
    exact .of_kept hc (congrArg _ hshared) (congrArg _ hshared) (.sendScreen c s)
  | setDelay ticks => exact .of_kept hc rfl rfl (.aside rfl rfl)
  | beep ticks => exact Job.beep_follows ticks c
  | restart s => exact Job.restart_follows s c

namespace Machine

/-! ## Actions -/

/-- The action is an instruction that does not halt the machine, a tick of the
timer, or a change of the keys. -/
def GoesOn (m : Machine) : Action → Prop
  | .step random => (m.step random).2 ≠ .ok .halted
  | a => a = .tickTimer ∨ a.fromKeypad = true

/-- Only an instruction that halts the machine shuts the peripheral down. -/
theorem halted_of_job? {m : Machine} {i : Instruction} (random : UInt8) (h : m.job? i = some .shutdown) :
    (m.execute random i).2 = .ok .halted := by
  cases i with
  | draw x y rows =>
    simp only [job?] at h
    split at h <;> cases h
  | jump target =>
    simp only [job?] at h
    split at h
    · cases h
    split at h
    · next hself hend =>
      show Except.ok (m.jump target).2 = _
      simp only [jump, if_neg hself, if_pos hend]
    split at h <;> cases h
  | _ => cases h

theorem step_follows {m : Machine} {random : UInt8} (h : (m.step random).2 ≠ .ok .halted)
    (hm : m.channel.shared.InTune) : m.channel.Follows (m.step random).1.channel := by
  have hquiet : ∀ {d : Channel}, d.SameTraffic m.channel → m.channel.Follows d := fun hd =>
    .of_kept hm (congrArg _ hd.shared) (congrArg _ hd.shared) (.aside hd.link hd.sends)
  rcases step_cases m random with ⟨-, hs⟩ | ⟨word, i, -, -, hs⟩ | ⟨word, -, -, -, hs⟩ | ⟨word, -, -, -, hs⟩
  · rw [hs]; exact hquiet (.refl _)
  · rw [hs] at h ⊢
    have htraffic := (execute_traffic (m.fetched word) random i).trans
      (Task.finish_traffic _ (m.fetched_traffic word))
    cases hjob : (m.fetched word).job? i with
    | none =>
      rw [hjob] at htraffic
      exact hquiet htraffic
    | some job =>
      rw [hjob] at htraffic
      have hends : job ≠ .shutdown := by
        rintro rfl
        exact h (halted_of_job? random hjob)
      exact (Job.follows hends hm).traffic htraffic
  · rw [hs]; exact hquiet (m.fetched_traffic word)
  · rw [hs]; exact hquiet ((Channel.SameTraffic.note _ _ _ _).trans (m.fetched_traffic word))

/-- Every action of a run that goes on is a turn of the protocol. -/
theorem perform_follows {m : Machine} {a : Action} (h : m.GoesOn a) (hm : m.channel.shared.InTune) :
    m.channel.Follows (m.perform a).channel := by
  by_cases hkeypad : a.fromKeypad = true
  · obtain ⟨keys, hkeys⟩ := perform_keys (m := m) hkeypad
    rw [hkeys]
    exact .of_kept hm rfl rfl (.aside rfl rfl)
  · cases a with
    | step random => exact step_follows h hm
    | tickTimer => exact Timer.tick_follows hm
    | _ => simp_all [GoesOn]

/-! ## Runs -/

/-- A turn leaves the rest of the alternation to the turns after it. -/
theorem alternates_append {was now : Bool} {rest : List Bool} (h : Alternates (!now) rest) :
    Alternates (!was) ((if now = was then [] else [now]) ++ rest) := by
  by_cases hsame : now = was
  · subst hsame
    rwa [if_pos rfl]
  · have hflip : now = !was := Bool.eq_not.mpr hsame
    rw [if_neg hsame]
    exact ⟨hflip, by rwa [← hflip]⟩

theorem performAll_alternates {m : Machine} {actions : List Action} (h : m.Throughout GoesOn actions)
    (hm : m.channel.shared.InTune) :
    (m.performAll actions).channel.shared.InTune ∧
      ∃ sounds, m.channel.Chimes sounds (m.performAll actions).channel ∧
        Alternates (!m.channel.shared.sound) sounds := by
  induction actions generalizing m with
  | nil => exact ⟨hm, [], .aside rfl rfl, trivial⟩
  | cons a actions ih =>
    have hturn := perform_follows h.1 hm
    obtain ⟨htune, sounds, hsaid, halternates⟩ := ih h.2 hturn.inTune
    exact ⟨htune, _, hturn.chimes.trans hsaid, alternates_append halternates⟩

/-- A message without a screen that was sent in a turn has the buzzer as the turn left it. -/
theorem sound_of_follows {c d : Channel} {messages : List Message} (h : c.Follows d) (hsent : c.Hands messages d)
    {x : Message} (hx : x ∈ messages) (hscreen : x.screen = none) : x.sound = d.shared.sound := by
  obtain ⟨others, hothers, hchimes⟩ := h.chimes
  have hmem : x.sound ∈ Message.chimes messages := by
    refine List.mem_map_of_mem (List.mem_filter.mpr ⟨hx, ?_⟩)
    rw [hscreen]
    rfl
  rw [hsent.unique hothers, hchimes] at hmem
  split at hmem
  · cases hmem
  · exact List.mem_singleton.mp hmem

/-- **The sound protocol.** Take a machine whose shared state is fresh and a run
of instructions, ticks and changes of the keys in which no instruction halts.
After each of them the buzzer is on exactly if its timer runs. The messages
without a screen that the peripheral receives alternate, from on to off and back.
And such a message with the buzzer off comes from an action that leaves the timer
at zero. -/
theorem sound_protocol (m : Machine) (hfresh : m.channel.shared = {}) (haccepts : m.channel.AcceptsAll)
    (actions : List Action) (hactions : m.Throughout GoesOn actions) :
    (∀ before, before <+: actions →
      let now := (m.performAll before).channel.shared
      now.sound = true ↔ 0 < now.soundTimer) ∧
    (∃ messages, (m.performAll actions).channel.journal.received = m.channel.journal.received ++ messages ∧
      Alternates true (Message.chimes messages)) ∧
    ∀ before a, before ++ [a] <+: actions →
      let now := m.performAll before
      let next := now.perform a
      ∃ messages, next.channel.journal.received = now.channel.journal.received ++ messages ∧
        ∀ x ∈ messages, x.screen = none → x.sound = false → next.channel.shared.soundTimer = 0 := by
  have hstart : m.channel.shared.InTune := by
    rw [hfresh]
    exact ⟨nofun, nofun⟩
  have hbegun : ∀ before, before <+: actions → m.Throughout GoesOn before := by
    rintro before ⟨rest, rfl⟩
    exact (throughout_append.mp hactions).1
  refine ⟨fun before hbefore => (performAll_alternates (hbegun before hbefore) hstart).1, ?_, ?_⟩
  · obtain ⟨-, sounds, ⟨messages, hsent, rfl⟩, halternates⟩ := performAll_alternates hactions hstart
    rw [hfresh] at halternates
    exact ⟨messages, performAll_received haccepts actions hsent, halternates⟩
  · intro before a hbefore now next
    obtain ⟨hgoes, hgoes', -⟩ := throughout_append.mp (hbegun _ hbefore)
    have hturn := perform_follows hgoes' (performAll_alternates hgoes hstart).1
    obtain ⟨messages, hsent, -⟩ := hturn.chimes
    refine ⟨messages, performAll_received (performAll_accepts haccepts before) [a] hsent, ?_⟩
    intro x hx hscreen hoff
    have hsound : next.channel.shared.sound = false := (sound_of_follows hturn hsent hx hscreen) ▸ hoff
    have hstopped : ¬ 0 < next.channel.shared.soundTimer := fun hpos => by
      rw [hturn.inTune.mpr hpos] at hsound
      cases hsound
    rwa [UInt8.pos_iff_ne_zero, ne_eq, Decidable.not_not] at hstopped

/-- Memory full of beeps of v0, which is 1: one of them, all of its five ticks,
and a key in between. -/
theorem sound_protocol_beep :
    let m : Machine :=
      { cpu := {
          memory := { Memory.new 0x50 0x200 with
            cells := Vector.ofFn fun i => if i.val % 2 = 0 then 0xF0 else 0x18 }
          v := Vector.replicate 16 1 } }
    let actions : List Action := [.step 0, .tickTimer, .tickTimer, .press 3, .tickTimer, .tickTimer, .tickTimer]
    m.channel.shared = {} ∧ m.channel.AcceptsAll ∧ m.Throughout GoesOn actions ∧
      ∃ messages, (m.performAll actions).channel.journal.received = m.channel.journal.received ++ messages ∧
        Alternates true (Message.chimes messages) := by
  intro m actions
  have hword : m.cpu.memory.readWord m.cpu.pc = some 0xF018 := by
    simp only [m, Memory.readWord, Vector.getElem_ofFn]
    decide
  have hstep := step_of_instruction 0 hword (i := .setSound 0) (by decide)
  have haccepts : m.channel.AcceptsAll := fun _ _ => rfl
  have hactions : m.Throughout GoesOn actions := by
    refine ⟨?_, .inl rfl, .inl rfl, .inr rfl, .inl rfl, .inl rfl, .inl rfl, trivial⟩
    show (m.step 0).2 ≠ _
    rw [hstep]
    intro hhalted
    cases hhalted
  exact ⟨rfl, haccepts, hactions, (sound_protocol m rfl haccepts actions hactions).2.1⟩

end Machine

end Chip8
