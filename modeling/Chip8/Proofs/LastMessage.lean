/-
The last message and the buzzer, when the two threads interleave.

A thread reads the buzzer for a message some accesses before it sends the
message. If the other thread switches the buzzer in between and sends that
first, the older reading is sent last, and the peripheral is left with it: a
screen sent around the last tick of a beep keeps the peripheral buzzing after
the buzzer went off (`last_message_stale`).

That is the only way. As long as no thread switches the buzzer while the other
one has it in hand, the last message has the buzzer as it is whenever both
threads are idle (`last_message_current`). The invariant `Told` adds to this
what a half-finished operation still owes: a reading in hand is current, and
whoever switched the buzzer is about to send.
-/
import Chip8.Proofs.Interleaving

namespace Chip8

namespace Task

/-- The buzzer as the thread has it in hand, for a message that it has not sent yet. -/
def held? : Task → Option Bool
  | .readKeys draft _ | .send draft _ => some draft.sound
  | _ => none

/-- The thread is on its way to send a message. -/
def Sending : Task → Prop
  | .readSound _ _ | .readKeys _ _ | .send _ _ => True
  | _ => False

/-- A task not begun in which every change of the buzzer is sent. -/
def Announces : Task → Prop
  | .done => True
  | .write _ next | .readSound _ next => next.Announces
  | .countSound expired next => expired.Announces ∧ next.Announces
  | .swapSound _ changed unchanged => changed.Sending ∧ changed.Announces ∧ unchanged.Announces
  | .readKeys _ _ | .send _ _ => False

/-- The same of a task that may be in the middle of a message. -/
def GoesOnToAnnounce : Task → Prop
  | .readKeys _ next | .send _ next => next.Announces
  | t => t.Announces

theorem Announces.held? {t : Task} (h : t.Announces) : t.held? = none := by
  cases t with
  | readKeys | send => exact h.elim
  | _ => rfl

theorem Announces.goesOn {t : Task} (h : t.Announces) : t.GoesOnToAnnounce := by
  cases t with
  | readKeys | send => exact h.elim
  | _ => exact h

theorem announces_sendScreen (s : Screen) {next : Task} (h : next.Announces) :
    (sendScreen s next).Announces := by
  unfold sendScreen
  split <;> exact h

theorem announces_updateSound (on : Bool) {next : Task} (h : next.Announces) :
    (updateSound on next).Announces :=
  ⟨trivial, h, h⟩

end Task

theorem Job.announces (job : Job) : job.task.Announces := by
  cases job with
  | showScreen s => exact Task.announces_sendScreen s trivial
  | setDelay => trivial
  | beep => exact Task.announces_updateSound _ trivial
  | restart s => exact Task.announces_updateSound false (Task.announces_sendScreen s.clear trivial)
  | shutdown => exact ⟨trivial, trivial, trivial⟩
  | tick => exact ⟨Task.announces_updateSound false trivial, trivial⟩

/-! ## One access -/

/-- A task not begun has nothing in hand that could be stale. -/
theorem Task.Announces.current {t : Task} (h : t.Announces) (now sound : Bool) (hheld : t.held? = some sound) :
    sound = now := by
  rw [h.held?] at hheld
  cases hheld

/-- What one access of a thread can do to the buzzer and the messages, when what
it has in hand is current: nothing, or send the buzzer as it is, or switch it and
be about to send that. -/
theorem Task.step_announces {t : Task} (ht : t.GoesOnToAnnounce) {c : Channel}
    (hheld : ∀ sound, t.held? = some sound → sound = c.shared.sound) :
    let after := (t.step c).2
    (t.step c).1.GoesOnToAnnounce ∧
      (∀ sound, (t.step c).1.held? = some sound → sound = after.shared.sound) ∧
      ((after.shared.sound = c.shared.sound ∧ after.journal.sends = c.journal.sends ∧
          (t.Sending → (t.step c).1.Sending)) ∨
       (after.shared.sound = c.shared.sound ∧
          ∃ sent, after.journal.sends = c.journal.sends.push sent ∧ sent.message.sound = c.shared.sound) ∨
       (after.shared.sound ≠ c.shared.sound ∧ after.journal.sends = c.journal.sends ∧
          (t.step c).1.Sending)) := by
  cases t with
  | done => exact ⟨trivial, nofun, .inl ⟨rfl, rfl, id⟩⟩
  | write w next =>
    have hnext : next.Announces := ht
    exact ⟨hnext.goesOn, hnext.current _, .inl ⟨w.apply_sound _, rfl, False.elim⟩⟩
  | countSound expired next =>
    have hafter : (if c.shared.soundTimer = 1 then expired else next).Announces := by
      split
      · exact ht.1
      · exact ht.2
    rw [step_countSound]
    exact ⟨hafter.goesOn, hafter.current _, .inl ⟨rfl, rfl, False.elim⟩⟩
  | swapSound on changed unchanged =>
    obtain ⟨hsending, hchanged, hunchanged⟩ := ht
    rw [step_swapSound]
    by_cases hwas : c.shared.sound = on
    · rw [if_pos hwas]
      exact ⟨hunchanged.goesOn, hunchanged.current _, .inl ⟨hwas.symm, rfl, False.elim⟩⟩
    · rw [if_neg hwas]
      exact ⟨hchanged.goesOn, hchanged.current _, .inr (.inr ⟨Ne.symm hwas, rfl, hsending⟩)⟩
  | readSound draft next =>
    refine ⟨ht, ?_, .inl ⟨rfl, rfl, fun _ => trivial⟩⟩
    rintro sound ⟨⟩
    rfl
  | readKeys draft next => exact ⟨ht, hheld, .inl ⟨rfl, rfl, fun _ => trivial⟩⟩
  | send message next =>
    have hnext : next.Announces := ht
    obtain ⟨accepted, hsends⟩ := c.push_sends message
    have hshared : (c.push message).shared.sound = c.shared.sound := by rw [Channel.push_shared]
    exact ⟨hnext.goesOn, hnext.current _, .inr (.inl ⟨hshared, _, hsends, hheld _ rfl⟩)⟩

namespace Threads

/-! ## Runs -/

/-- What holds at every point of a run in which no reading goes stale. -/
structure Told (t : Threads) : Prop where
  announces : ∀ p, (t.task p).GoesOnToAnnounce
  current : ∀ p sound, (t.task p).held? = some sound → sound = t.channel.shared.sound
  told : ∀ last, t.channel.journal.sends.back? = some last →
    last.message.sound = t.channel.shared.sound ∨ ∃ p, (t.task p).Sending

/-- The move does not switch the buzzer while a thread has it in hand. -/
def Undisturbed (t : Threads) (move : Move) : Prop :=
  (t.move move).channel.shared.sound ≠ t.channel.shared.sound → ∀ p, (t.task p).held? = none

instance (t : Threads) (move : Move) : Decidable (t.Undisturbed move) :=
  inferInstanceAs (Decidable (_ → _))

theorem Told.start {t : Threads} (h : t.Told) (job : Job) : (t.move (.start job)).Told := by
  unfold move
  dsimp only
  split
  · next hdone =>
    refine ⟨fun p => ?_, fun p sound => ?_, fun last hlast => ?_⟩
    · by_cases hp : p = job.party
      · rw [hp, assign_task_self]
        exact job.announces.goesOn
      · rw [assign_task_of_ne t _ hp]
        exact h.announces p
    · by_cases hp : p = job.party
      · rw [hp, assign_task_self]
        exact job.announces.current _ sound
      · rw [assign_task_of_ne t _ hp]
        exact h.current p sound
    · rcases h.told last hlast with hsound | ⟨p, hp⟩
      · exact .inl hsound
      · have hne : p ≠ job.party := by
          rintro rfl
          rw [hdone] at hp
          exact hp
        exact .inr ⟨p, by rwa [assign_task_of_ne t _ hne]⟩
  · exact h

theorem Told.step {t : Threads} (h : t.Told) {p : Party} (hmove : t.Undisturbed (.step p)) : (t.step p).Told := by
  obtain ⟨hannounces, hcurrent, heffect⟩ := Task.step_announces (h.announces p) (h.current p)
  rw [← step_task_self] at hannounces hcurrent heffect
  rw [← step_channel] at hcurrent heffect
  refine ⟨fun q => ?_, fun q sound hq => ?_, fun last hlast => ?_⟩
  · by_cases hqp : q = p
    · exact hqp ▸ hannounces
    · rw [step_task_of_ne t hqp]
      exact h.announces q
  · by_cases hqp : q = p
    · exact hcurrent sound (hqp ▸ hq)
    · rw [step_task_of_ne t hqp] at hq
      -- The other thread has a reading in hand, so this access has not switched the buzzer.
      by_cases hsame : (t.step p).channel.shared.sound = t.channel.shared.sound
      · exact hsame ▸ h.current q sound hq
      · rw [hmove hsame q] at hq
        cases hq
  · rcases heffect with ⟨hsound, hsends, hstill⟩ | ⟨hsound, sent, hsends, hsent⟩ | ⟨-, -, hsending⟩
    · rw [hsends] at hlast
      rw [hsound]
      rcases h.told last hlast with hlast | ⟨q, hq⟩
      · exact .inl hlast
      · by_cases hqp : q = p
        · exact .inr ⟨p, hstill (hqp ▸ hq)⟩
        · exact .inr ⟨q, by rwa [step_task_of_ne t hqp]⟩
    · rw [hsends, Array.back?_push] at hlast
      cases hlast
      exact .inl (hsent.trans hsound.symm)
    · exact .inr ⟨p, hsending⟩

theorem Told.move {t : Threads} (h : t.Told) {move : Move} (hmove : t.Undisturbed move) : (t.move move).Told := by
  cases move with
  | start job => exact h.start job
  | step p => exact h.step hmove

/-- **The last message has the buzzer as it is** whenever both threads are idle,
over every run in which no thread switches the buzzer while the other has it in
hand. -/
theorem last_message_current (c : Channel) (hnew : c.journal.sends = #[]) (moves : List Move)
    (hmoves : (resting c).Throughout Undisturbed moves) :
    let t := (resting c).run moves
    t.Idle → ∀ last, t.channel.journal.sends.back? = some last →
      last.message.sound = t.channel.shared.sound := by
  intro t hidle last hlast
  have hstart : (resting c).Told := by
    refine ⟨fun _ => trivial, nofun, fun last hlast => ?_⟩
    have hnone : c.journal.sends.back? = none := by rw [hnew]; rfl
    exact absurd (hnone.symm.trans hlast) nofun
  have htold : t.Told := run_keeps (fun _ _ hmove h => h.move hmove) hstart hmoves
  rcases htold.told last hlast with hsound | ⟨p, hp⟩
  · exact hsound
  · rw [hidle p] at hp
    exact hp.elim

/-- The timer ticks before a beep's message is put together; a screen follows. -/
theorem last_message_current_beep :
    let moves := [.start (.beep 3), .step .processor] ++ Job.tick.inOneGo ++
      List.replicate 4 (.step .processor) ++ (Job.showScreen .standard).inOneGo
    let t := (resting {}).run moves
    (resting {}).Throughout Undisturbed moves ∧ t.Idle ∧ t.channel.shared.sound = true ∧
      t.channel.journal.sends.size = 2 ∧
      ∀ last, t.channel.journal.sends.back? = some last → last.message.sound = t.channel.shared.sound := by
  intro moves t
  have hmoves : (resting {}).Throughout Undisturbed moves := by decide +kernel
  have hidle : t.Idle := by decide +kernel
  exact ⟨hmoves, hidle, by decide +kernel, by decide +kernel, last_message_current {} rfl moves hmoves hidle⟩

/-! ## A reading that goes stale -/

/-- A screen is sent around a tick of the timer: put together before it, handed
to the link after it. -/
def sentAroundTick (s : Screen) : List Move :=
  [.start (.showScreen s), .step .processor, .step .processor] ++ Job.tick.inOneGo ++ [.step .processor]

theorem run_sentAroundTick {c : Channel} (hsound : c.shared.sound = true) (htimer : c.shared.soundTimer = 1)
    {s : Screen} (hfits : s.width ≤ 255 ∧ s.height ≤ 255) :
    let t := (resting c).run (sentAroundTick s)
    t.Idle ∧ t.channel.shared.sound = false ∧
      ∃ last, t.channel.journal.sends.back? = some last ∧ last.message.sound = true := by
  let m : Message := { c.snapshot with
    screen := some s.pack, width := UInt8.ofNat s.width, height := UInt8.ofNat s.height }
  have htask : (Job.showScreen s).task = .readSound { Task.blank with
      screen := some s.pack, width := UInt8.ofNat s.width, height := UInt8.ofNat s.height } .done :=
    if_pos hfits
  have hstart : (resting c).move (.start (.showScreen s)) =
      (resting c).assign .processor (Job.showScreen s).task := move_start _ _ rfl
  have hread : (resting c).run [.start (.showScreen s), .step .processor, .step .processor] =
      (resting c).assign .processor (.send m .done) := by
    show (((resting c).move (.start (.showScreen s))).step .processor).step .processor = _
    rw [hstart, htask, step_assign, step_assign]
    rfl
  have hall : (resting c).run (sentAroundTick s) = resting ((Timer.tick c).push m) := by
    rw [sentAroundTick, run_append, run_append, hread, run_tick _ rfl]
    show ((resting (Timer.tick c)).assign .processor (.send m .done)).step .processor = _
    rw [step_assign]
    exact assign_resting _ _
  obtain ⟨accepted, hsends⟩ := (Timer.tick c).push_sends m
  have hoff : (Timer.tick c).shared.sound = false := by rw [tick_of_last htimer]
  simp only [hall]
  refine ⟨fun _ => rfl, by simpa [resting] using hoff, { message := m, accepted }, ?_, hsound⟩
  show ((Timer.tick c).push m).journal.sends.back? = _
  rw [hsends, Array.back?_push]

/-- **A message may be sent too late.** The screen goes out with the last tick of
a beep in between: the buzzer is off and both threads are idle, and the last
message says that it is on. -/
theorem last_message_stale :
    let t := (resting {}).run (almostOver ++ sentAroundTick .standard)
    t.Idle ∧ t.channel.shared.sound = false ∧
      ∃ last, t.channel.journal.sends.back? = some last ∧ last.message.sound = true := by
  obtain ⟨c, hc, hsound, htimer⟩ := run_almostOver
  simp only [run_append, hc]
  exact run_sentAroundTick hsound htimer (by decide)

end Threads

end Chip8
