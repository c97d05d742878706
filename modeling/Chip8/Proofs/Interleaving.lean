/-
The processor's thread and the timer's thread over one channel, one atomic
access at a time.

The two share the channel without a lock, so an operation is cut into its
accesses. A `Task` is what a thread still has to do in the operation it is in;
each step of it is one access to the shared state, or one message handed to the
link. A message is put together from two reads, the buzzer first and then the
keys, so the other thread may come between the reads, and between the reads and
the send.

`Threads` is the channel with a task for each thread, and a run is any sequence
of moves. Left alone, a thread comes to what the program's own operation does
(`execute_traffic`, `finish_tick`, `run_alone`).
-/
import Chip8.Proofs.ChannelFacts
import Chip8.Proofs.StepFacts

namespace Chip8

/-- The curve has not risen yet at its foot. -/
theorem Buzzer.stretch_one : stretch 1 = 5 := by
  have hrise : rise 1 = 0 := by
    have hpos : ∀ k, 0 < threshold k := fun k =>
      Nat.mul_pos (Nat.pow_pos (Nat.succ_pos _)) (by decide)
    simp only [rise, thresholds, Array.countP_eq_zero, Array.mem_map]
    rintro _ ⟨k, -, rfl⟩
    have := hpos k
    simp
    omega
  simp only [stretch, hrise]
  rfl

/-! ## Up to the log -/

/-- Two channels agree on the shared state, the link and the messages handed to
it; what they logged and printed may differ. -/
structure Channel.SameTraffic (c d : Channel) : Prop where
  shared : c.shared = d.shared
  link : c.link = d.link
  sends : c.journal.sends = d.journal.sends

namespace Channel.SameTraffic

theorem refl (c : Channel) : SameTraffic c c := ⟨rfl, rfl, rfl⟩

theorem trans {c d e : Channel} (h : SameTraffic c d) (h' : SameTraffic d e) : SameTraffic c e :=
  ⟨h.shared.trans h'.shared, h.link.trans h'.link, h.sends.trans h'.sends⟩

theorem note (c : Channel) (l : Level) (o : Origin) (text : String) : SameTraffic (c.note l o text) c :=
  ⟨rfl, rfl, rfl⟩

theorem update {c d : Channel} (h : SameTraffic c d) (f : SharedState → SharedState) :
    SameTraffic (c.update f) (d.update f) :=
  ⟨congrArg f h.shared, h.link, h.sends⟩

theorem push {c d : Channel} (h : SameTraffic c d) (m : Message) : SameTraffic (c.push m) (d.push m) := by
  refine ⟨by simpa using h.shared, by simpa using h.link, ?_⟩
  unfold Channel.push
  rw [h.link, h.sends]
  split <;> simp [Channel.note, Journal.note, Journal.send, h.sends]

theorem eq_with_journal {c d : Channel} (h : SameTraffic c d) :
    ∃ j, d = { c with journal := j } ∧ j.sends = c.journal.sends := by
  obtain ⟨s, l, j⟩ := c
  obtain ⟨s', l', j'⟩ := d
  obtain ⟨rfl, rfl, hsends⟩ := h
  exact ⟨j', rfl, hsends.symm⟩

end Channel.SameTraffic

/-! ## Tasks -/

/-- A change of the shared state that does not depend on what it finds there. -/
inductive Write where
  | keys (held : UInt16)
  | delay (ticks : UInt8)
  | soundTimer (ticks : UInt8)
  | countDelay
  | stop
deriving DecidableEq, Repr

def Write.apply : Write → SharedState → SharedState
  | .keys held, s => s.setKeys held
  | .delay ticks, s => s.setDelay ticks
  | .soundTimer ticks, s => s.setSoundTimer ticks
  | .countDelay, s => s.countDelay
  | .stop, s => s.stop

@[simp] theorem Write.apply_sound (w : Write) (s : SharedState) : (w.apply s).sound = s.sound := by
  cases w <;> rfl

/-- What a thread still has to do in the operation it is in. -/
inductive Task where
  | done
  | write (w : Write) (next : Task)
  /-- Counts the sound timer down, and goes on with `expired` if this count reached zero. -/
  | countSound (expired next : Task)
  /-- Sets the buzzer, and goes on with `changed` if it was the other way. -/
  | swapSound (on : Bool) (changed unchanged : Task)
  /-- Reads the buzzer into a message, and goes on with the keys. -/
  | readSound (draft : Message) (next : Task)
  /-- Reads the keys into a message, and goes on to send it. -/
  | readKeys (draft : Message) (next : Task)
  | send (message : Message) (next : Task)
deriving DecidableEq, Repr

namespace Task

/-- One access, and what is left to do after it. -/
def step : Task → Channel → Task × Channel
  | .done, c => (.done, c)
  | .write w next, c => (next, c.update w.apply)
  | .countSound expired next, c =>
    let (reached, shared) := c.shared.countSound
    (if reached then expired else next, { c with shared })
  | .swapSound on changed unchanged, c =>
    let (was, shared) := c.shared.swapSound on
    (if was != on then changed else unchanged, { c with shared })
  | .readSound draft next, c => (.readKeys { draft with sound := c.shared.sound } next, c)
  | .readKeys draft next, c => (.send { draft with keys := c.shared.keys } next, c)
  | .send message next, c => (next, c.push message)

theorem step_countSound (expired next : Task) (c : Channel) :
    (countSound expired next).step c =
      (if c.shared.soundTimer = 1 then expired else next,
       c.update fun s => { s with soundTimer := SharedState.countDown s.soundTimer }) := by
  simp [step, SharedState.countSound, Channel.update]

theorem step_swapSound (on : Bool) (changed unchanged : Task) (c : Channel) :
    (swapSound on changed unchanged).step c =
      (if c.shared.sound = on then unchanged else changed, c.update fun s => { s with sound := on }) := by
  by_cases h : c.shared.sound = on <;> simp [step, SharedState.swapSound, Channel.update, h]

/-- The channel when the task is done, if no other thread comes between. -/
def finish : Task → Channel → Channel
  | .done, c => c
  | .write w next, c => next.finish (c.update w.apply)
  | .countSound expired next, c =>
    let (reached, shared) := c.shared.countSound
    if reached then expired.finish { c with shared } else next.finish { c with shared }
  | .swapSound on changed unchanged, c =>
    let (was, shared) := c.shared.swapSound on
    if was != on then changed.finish { c with shared } else unchanged.finish { c with shared }
  | .readSound draft next, c =>
    next.finish (c.push { draft with sound := c.shared.sound, keys := c.shared.keys })
  | .readKeys draft next, c => next.finish (c.push { draft with keys := c.shared.keys })
  | .send message next, c => next.finish (c.push message)

theorem finish_step (t : Task) (c : Channel) : (t.step c).1.finish (t.step c).2 = t.finish c := by
  cases t with
  | countSound expired next =>
    simp only [step, finish]
    split <;> rfl
  | swapSound on changed unchanged =>
    simp only [step, finish]
    split <;> rfl
  | _ => rfl

/-- The most accesses the task can still take. -/
def steps : Task → Nat
  | .done => 0
  | .write _ next | .send _ next => next.steps + 1
  | .countSound a b | .swapSound _ a b => max a.steps b.steps + 1
  | .readSound _ next => next.steps + 3
  | .readKeys _ next => next.steps + 2

theorem eq_done_of_steps {t : Task} (h : t.steps = 0) : t = .done := by
  cases t with
  | done => rfl
  | _ => cases h

theorem steps_step (t : Task) (c : Channel) : (t.step c).1.steps ≤ t.steps - 1 := by
  cases t with
  | countSound expired next =>
    simp only [step, steps]
    split <;> omega
  | swapSound on changed unchanged =>
    simp only [step, steps]
    split <;> omega
  | _ => exact Nat.le_refl _

/-- What is logged before does not matter. -/
theorem finish_traffic (t : Task) {c d : Channel} (h : c.SameTraffic d) :
    (t.finish c).SameTraffic (t.finish d) := by
  induction t generalizing c d with
  | done => exact h
  | write w next ih => exact ih (h.update _)
  | countSound expired next ihExpired ih =>
    obtain ⟨j, rfl, hj⟩ := h.eq_with_journal
    simp only [finish]
    split
    · exact ihExpired ⟨rfl, rfl, hj.symm⟩
    · exact ih ⟨rfl, rfl, hj.symm⟩
  | swapSound on changed unchanged ihChanged ih =>
    obtain ⟨j, rfl, hj⟩ := h.eq_with_journal
    simp only [finish]
    split
    · exact ihChanged ⟨rfl, rfl, hj.symm⟩
    · exact ih ⟨rfl, rfl, hj.symm⟩
  | readSound draft next ih | readKeys draft next ih =>
    obtain ⟨j, rfl, hj⟩ := h.eq_with_journal
    exact ih (h.push _)
  | send message next ih => exact ih (h.push _)

/-- A message of which nothing has been read yet. -/
def blank : Message := ({} : Channel).snapshot

def sendState (next : Task) : Task := .readSound blank next

/-- Sends a screen with the buzzer and the keys. A screen of more than 255
columns or rows has no message. -/
def sendScreen (s : Screen) (next : Task) : Task :=
  if s.width ≤ 255 ∧ s.height ≤ 255 then
    .readSound { blank with
      screen := some s.pack, width := UInt8.ofNat s.width, height := UInt8.ofNat s.height } next
  else next

def updateSound (on : Bool) (next : Task) : Task := .swapSound on (sendState next) next

theorem finish_sendState (next : Task) (c : Channel) :
    (sendState next).finish c = next.finish c.updateSoundAndKeys := rfl

theorem finish_updateSound (on : Bool) (next : Task) (c : Channel) :
    (updateSound on next).finish c = next.finish (c.updateSound on) := by
  simp only [updateSound, finish, Channel.updateSound]
  split <;> rfl

/-- Left alone, sending a screen last is the channel's own operation, up to the
warning about a screen that is too large. -/
theorem finish_sendScreen (s : Screen) (c : Channel) :
    (c.updateScreen s).SameTraffic ((sendScreen s .done).finish c) := by
  unfold Channel.updateScreen sendScreen
  split
  · exact .refl _
  · exact .note c _ _ _

end Task

/-! ## What the two threads do -/

inductive Party where
  | processor
  | timer
deriving DecidableEq, Repr

instance Party.decidableForall {P : Party → Prop} [DecidablePred P] : Decidable (∀ p, P p) :=
  decidable_of_iff (P .processor ∧ P .timer)
    ⟨fun h p => match p with
      | .processor => h.1
      | .timer => h.2,
     fun h => ⟨h .processor, h .timer⟩⟩

/-- The operations of the two threads on the channel. -/
inductive Job where
  /-- A screen is cleared or drawn on, and sent. -/
  | showScreen (s : Screen)
  | setDelay (ticks : UInt8)
  /-- The buzzer is set for so many ticks. -/
  | beep (ticks : UInt8)
  /-- The program starts over, with a screen that it darkens. -/
  | restart (s : Screen)
  | shutdown
  | tick
deriving DecidableEq

namespace Job

def party : Job → Party
  | .tick => .timer
  | _ => .processor

def task : Job → Task
  | .showScreen s => .sendScreen s .done
  | .setDelay ticks => .write (.delay ticks) .done
  | .beep ticks => .updateSound (0 < ticks) (.write (.soundTimer (Buzzer.stretch ticks)) .done)
  | .restart s =>
    .write (.delay 0) (.write (.soundTimer 0) (.updateSound false (.sendScreen s.clear .done)))
  | .shutdown =>
    let announce := Task.sendState (.write .stop .done)
    .write (.keys 0) (.swapSound false announce announce)
  | .tick => .write .countDelay (.countSound (.updateSound false .done) .done)

end Job

/-- Left alone, the timer's job is a tick. -/
theorem finish_tick (c : Channel) : Job.tick.task.finish c = Timer.tick c := by
  simp only [Job.task, Task.finish, Task.finish_updateSound]
  rfl

namespace Machine

/-- The job that an instruction gives the processor's thread, the program
counter being past the instruction already. -/
def job? (m : Machine) : Instruction → Option Job
  | .clearScreen => some (.showScreen m.screen.clear)
  | .draw x y rows =>
    if m.screen.width = 0 ∨ m.screen.height = 0 then none
    else some (.showScreen (m.screen.flipAll (m.drawnPoints x y rows)).1)
  | .jump target =>
    if UInt16.ofNat target.val + 2 ≠ m.cpu.pc then none
    else if m.cpu.settings.endOnLoop then some .shutdown
    else if m.cpu.settings.restartOnLoop then some (.restart m.screen)
    else none
  | .setDelay x => some (.setDelay (m.cpu.get x))
  | .setSound x => some (.beep (m.cpu.get x))
  | _ => none

theorem finish_shutdown (c : Channel) : Job.shutdown.task.finish c = c.shutdown := by
  simp only [Job.task, Task.finish, Task.finish_sendState, ite_self]
  rfl

theorem restart_traffic (m : Machine) :
    m.restart.channel.SameTraffic ((Job.restart m.screen).task.finish m.channel) := by
  have hreset : m.reset.channel.SameTraffic m.channel := by
    rcases m.reset_channel with h | ⟨text, h⟩
    · exact h ▸ .refl _
    · exact h ▸ .note _ _ _ _
  have hrest : m.restart.channel.SameTraffic ((Job.restart m.screen).task.finish m.reset.channel) := by
    simp only [Job.task, Task.finish, Task.finish_updateSound, ← m.reset_screen]
    exact Task.finish_sendScreen _ _
  exact hrest.trans (Task.finish_traffic _ hreset)

theorem jump_traffic (m : Machine) (target : Address) :
    (m.jump target).1.channel.SameTraffic (((m.job? (.jump target)).elim .done Job.task).finish m.channel) := by
  unfold jump job?
  dsimp only
  split
  · exact .refl _
  split
  · show (Channel.shutdown _).SameTraffic _
    rw [← finish_shutdown]
    exact Task.finish_traffic _ (.note _ _ _ _)
  split
  · exact (restart_traffic _).trans (Task.finish_traffic _ (.note _ _ _ _))
  · exact .refl _

/-- **An instruction that nothing disturbs does its job**: the shared state and
the messages come out as the program's own operation leaves them. -/
theorem execute_traffic (m : Machine) (random : UInt8) (i : Instruction) :
    (m.execute random i).1.channel.SameTraffic (((m.job? i).elim .done Job.task).finish m.channel) := by
  cases i with
  | clearScreen => exact Task.finish_sendScreen _ _
  | ret =>
    show m.returnToCaller.channel.SameTraffic m.channel
    unfold returnToCaller
    split
    · exact .refl _
    · exact .note _ _ _ _
  | call target =>
    show (m.call target).channel.SameTraffic m.channel
    unfold call
    split
    · exact .refl _
    · exact .note _ _ _ _
  | jump target => exact m.jump_traffic target
  | draw x y rows =>
    by_cases hempty : m.screen.width = 0 ∨ m.screen.height = 0
    · show (m.draw x y rows).1.channel.SameTraffic _
      simp only [draw, job?, if_pos hempty]
      exact .refl _
    · show (m.draw x y rows).1.channel.SameTraffic _
      simp only [draw_eq hempty, job?, if_neg hempty]
      exact Task.finish_sendScreen _ _
  | awaitKey x =>
    show (m.awaitKey x).1.channel.SameTraffic m.channel
    unfold awaitKey
    split <;> exact .refl _
  | setSound x =>
    show (m.setSound x).channel.SameTraffic ((Job.beep (m.cpu.get x)).task.finish m.channel)
    simp only [Job.task, Task.finish_updateSound]
    exact .refl _
  | _ => exact .refl _

end Machine

/-! ## Interleavings -/

/-- The channel, and what each thread still has to do with it. -/
structure Threads where
  channel : Channel
  task : Party → Task

inductive Move where
  /-- A thread begins a job, if it has none. -/
  | start (job : Job)
  | step (p : Party)
deriving DecidableEq

/-- A job begun and brought to its end without a break. -/
def Job.inOneGo (job : Job) : List Move := .start job :: List.replicate job.task.steps (.step job.party)

namespace Threads

def resting (c : Channel) : Threads := { channel := c, task := fun _ => .done }

/-- Gives a thread a task in place of what it had. -/
def assign (t : Threads) (p : Party) (task : Task) : Threads :=
  { t with task := fun q => if q = p then task else t.task q }

def step (t : Threads) (p : Party) : Threads :=
  let (task, channel) := (t.task p).step t.channel
  { t with channel }.assign p task

def move (t : Threads) : Move → Threads
  | .start job => if t.task job.party = .done then t.assign job.party job.task else t
  | .step p => t.step p

def run (t : Threads) (moves : List Move) : Threads := moves.foldl move t

/-- Neither thread is inside an operation. -/
def Idle (t : Threads) : Prop := ∀ p, t.task p = .done

instance (t : Threads) : Decidable t.Idle := inferInstanceAs (Decidable (∀ p, t.task p = .done))

@[simp] theorem assign_channel (t : Threads) (p : Party) (task : Task) :
    (t.assign p task).channel = t.channel := rfl

@[simp] theorem assign_task_self (t : Threads) (p : Party) (task : Task) : (t.assign p task).task p = task :=
  if_pos rfl

theorem assign_task_of_ne (t : Threads) {p q : Party} (task : Task) (h : q ≠ p) :
    (t.assign p task).task q = t.task q :=
  if_neg h

theorem step_channel (t : Threads) (p : Party) : (t.step p).channel = ((t.task p).step t.channel).2 := rfl

@[simp] theorem step_task_self (t : Threads) (p : Party) :
    (t.step p).task p = ((t.task p).step t.channel).1 :=
  if_pos rfl

theorem step_task_of_ne (t : Threads) {p q : Party} (h : q ≠ p) : (t.step p).task q = t.task q :=
  if_neg h

theorem move_start (t : Threads) (job : Job) (h : t.task job.party = .done) :
    t.move (.start job) = t.assign job.party job.task :=
  if_pos h

theorem step_assign (t : Threads) (p : Party) (task : Task) :
    (t.assign p task).step p = { t with channel := (task.step t.channel).2 }.assign p (task.step t.channel).1 := by
  simp only [step, assign_task_self, assign_channel]
  simp only [assign, mk.injEq, true_and]
  funext q
  split <;> rfl

theorem assign_resting (c : Channel) (p : Party) : (resting c).assign p .done = resting c := by
  simp only [assign, resting, mk.injEq, true_and]
  funext q
  split <;> rfl

/-! ### A thread alone -/

/-- The threads once one of them has finished what it was at, the other making no
move. -/
def alone (t : Threads) (p : Party) : Threads :=
  { t with channel := (t.task p).finish t.channel }.assign p .done

theorem alone_of_done {t : Threads} {p : Party} (h : t.task p = .done) : t.alone p = t := by
  obtain ⟨c, task⟩ := t
  simp only at h
  simp only [alone, assign, h, Task.finish, mk.injEq, true_and]
  funext q
  split
  · next hq => rw [hq, h]
  · rfl

theorem alone_step (t : Threads) (p : Party) : (t.step p).alone p = t.alone p := by
  simp only [alone, step_task_self, step_channel, Task.finish_step, assign, mk.injEq, true_and]
  funext q
  split
  · rfl
  · next hq => exact step_task_of_ne t hq

/-- A thread that makes as many moves in a row as its task can take has finished it. -/
theorem run_alone (t : Threads) (p : Party) {n : Nat} (hn : (t.task p).steps ≤ n) :
    t.run (List.replicate n (.step p)) = t.alone p := by
  induction n generalizing t with
  | zero => exact (alone_of_done (Task.eq_done_of_steps (Nat.le_zero.mp hn))).symm
  | succ n ih =>
    have hstep := (t.task p).steps_step t.channel
    rw [← alone_step]
    exact ih (t.step p) (by rw [step_task_self]; omega)

theorem run_append (t : Threads) (before after : List Move) :
    t.run (before ++ after) = (t.run before).run after :=
  List.foldl_append

/-- A job done in one go leaves both threads where they were, with the job done. -/
theorem run_inOneGo (t : Threads) (job : Job) (h : t.task job.party = .done) :
    t.run job.inOneGo = { t with channel := job.task.finish t.channel } := by
  have htask : (t.assign job.party job.task).task job.party = job.task := assign_task_self _ _ _
  show (t.move (.start job)).run _ = _
  rw [move_start t job h, run_alone _ _ (Nat.le_of_eq (congrArg Task.steps htask)), alone, htask]
  simp only [assign, mk.injEq, true_and]
  funext q
  split
  · next hq => rw [hq, h]
  · rfl

/-- **Undisturbed, the timer's thread ticks.** -/
theorem run_tick (t : Threads) (h : t.task .timer = .done) :
    t.run Job.tick.inOneGo = { t with channel := Timer.tick t.channel } := by
  rw [run_inOneGo t .tick h, finish_tick]

/-- **Undisturbed, the processor's thread does what its instruction does.** -/
theorem run_instruction (m : Machine) (random : UInt8) {i : Instruction} {job : Job}
    (hjob : m.job? i = some job) :
    (m.execute random i).1.channel.SameTraffic ((resting m.channel).run job.inOneGo).channel := by
  have hexecute := m.execute_traffic random i
  rw [hjob] at hexecute
  rw [run_inOneGo _ _ rfl]
  exact hexecute

/-! ### What runs keep -/

/-- A condition that every move of a run meets, in the state it is made in. -/
def Throughout (P : Threads → Move → Prop) : Threads → List Move → Prop
  | _, [] => True
  | t, move :: moves => P t move ∧ Throughout P (t.move move) moves

instance Throughout.decidable {P : Threads → Move → Prop} [∀ t move, Decidable (P t move)] :
    ∀ (t : Threads) (moves : List Move), Decidable (t.Throughout P moves)
  | _, [] => .isTrue trivial
  | t, move :: moves =>
    have := Throughout.decidable (P := P) (t.move move) moves
    inferInstanceAs (Decidable (P t move ∧ Throughout P (t.move move) moves))

/-- What every move keeps under a condition, every run that meets it keeps. -/
theorem run_keeps {I : Threads → Prop} {P : Threads → Move → Prop}
    (keep : ∀ t move, P t move → I t → I (t.move move)) {moves : List Move} {t : Threads} (h : I t)
    (hP : t.Throughout P moves) : I (t.run moves) := by
  induction moves generalizing t with
  | nil => exact h
  | cons move moves ih => exact ih (keep t move hP.1 h) hP.2

theorem throughout_of_forall {P : Threads → Move → Prop} (h : ∀ t move, P t move) {moves : List Move}
    {t : Threads} : t.Throughout P moves := by
  induction moves generalizing t with
  | nil => trivial
  | cons move moves ih => exact ⟨h t move, ih⟩

/-! ### A beep about to end -/

theorem tick_of_last {c : Channel} (h : c.shared.soundTimer = 1) :
    (Timer.tick c).shared = { c.shared.countDelay with sound := false, soundTimer := 0 } := by
  have hzero : SharedState.countDown c.shared.soundTimer = 0 := by
    rw [h]
    rfl
  rw [Timer.tick_of_last h, Channel.updateSound_shared, ← hzero]
  rfl

/-- A beep of one tick, and all but the last of the five ticks it is stretched to. -/
def almostOver : List Move := (Job.beep 1).inOneGo ++ (List.replicate 4 Job.tick.inOneGo).flatten

theorem run_almostOver :
    ∃ c : Channel, (resting {}).run almostOver = resting c ∧ c.shared.sound = true ∧ c.shared.soundTimer = 1 := by
  have hbeep : (Job.beep 1).task = .updateSound true (.write (.soundTimer 5) .done) := by
    simp only [Job.task, Buzzer.stretch_one]
    rfl
  have htick (c : Channel) : (resting c).run Job.tick.inOneGo = resting (Timer.tick c) := run_tick _ rfl
  have hstart : (resting {}).run (Job.beep 1).inOneGo = resting ((Job.beep 1).task.finish {}) :=
    run_inOneGo _ _ rfl
  refine ⟨Timer.ticks 4 ((Task.updateSound true (.write (.soundTimer 5) .done)).finish {}), ?_, rfl, rfl⟩
  simp only [almostOver, List.replicate, List.flatten_cons, List.flatten_nil, List.append_nil, run_append, hstart,
    hbeep, htick, Timer.ticks]

end Threads

end Chip8
