/-
A beep and its timer, when the two threads interleave.

The buzzer and the sound timer are two values, and no operation changes both in
one access. A beep switches the buzzer on and then sets the timer; starting over
clears the timer and then switches the buzzer off; and the timer's thread counts
to zero some accesses before it switches the buzzer off.

An `Outline` says what the processor's thread knows of the two at each point of
its task, and is kept by the accesses of both threads (`Outline.Holds.run`). With
one outline the buzzer is never left on without its timer
(`buzzer_never_sticks`). With another one a timer that still runs is always
heard (`beep_heard`), but only as long as no beep falls together with the end
of the one before: a beep begun while its predecessor ends may be silenced in
its place (`beep_lost`).
-/
import Chip8.Proofs.Interleaving

namespace Chip8

open SharedState (countDown)

theorem countDown_ne_zero_of_ne {ticks : UInt8} (h : countDown ticks ≠ 0) : ticks ≠ 0 := by
  rintro rfl
  exact h rfl

/-- A count that is not at zero reaches it from one alone. -/
theorem eq_one_of_countDown {ticks : UInt8} (h : ticks ≠ 0) (hzero : countDown ticks = 0) : ticks = 1 := by
  rw [countDown, if_neg h] at hzero
  calc ticks = ticks - 1 + 1 := (UInt8.sub_add_cancel ticks 1).symm
    _ = 1 := by rw [hzero]; rfl

theorem Buzzer.stretch_pos {ticks : UInt8} (h : 0 < ticks) : 0 < stretch ticks := by
  rw [UInt8.pos_iff_ne_zero] at h ⊢
  exact mt (stretch_eq_zero_iff ticks).mp h

/-! ## The timer's thread -/

namespace Task

/-- The next access switches the buzzer off. -/
def silencing : Task → Bool
  | .swapSound on _ _ => !on
  | _ => false

/-- The task of a timer: it counts, and switches the buzzer off only where its
count of the sound timer has reached zero. -/
def CountsDown : Task → Prop
  | .done => True
  | .write w next => w = .countDelay ∧ next.silencing = false ∧ next.CountsDown
  | .countSound expired next =>
    (expired.silencing = true ∧ expired.CountsDown) ∧ next.silencing = false ∧ next.CountsDown
  | .swapSound on changed unchanged =>
    on = false ∧ (changed.silencing = false ∧ changed.CountsDown) ∧
      unchanged.silencing = false ∧ unchanged.CountsDown
  | .readSound _ next | .readKeys _ next | .send _ next => next.silencing = false ∧ next.CountsDown

end Task

/-- What matters of two threads for a beep: the buzzer, its timer, and whether the
timer's thread is about to switch the buzzer off. -/
structure Beep where
  sound : Bool
  ticks : UInt8
  ending : Bool

def Channel.beep (c : Channel) (ending : Bool) : Beep := ⟨c.shared.sound, c.shared.soundTimer, ending⟩

def Threads.beep (t : Threads) : Beep := t.channel.beep (t.task .timer).silencing

/-- What one access of the timer's thread can do to a beep: nothing, or count its
timer down and begin to end it at zero, or end it. -/
theorem Task.CountsDown.step {t : Task} (h : t.CountsDown) (c : Channel) :
    let before := c.beep t.silencing
    let after := (t.step c).2.beep (t.step c).1.silencing
    (t.step c).1.CountsDown ∧
      (after = before ∨
       (before.ending = false ∧ after = ⟨before.sound, countDown before.ticks, before.ticks == 1⟩) ∨
       (before.ending = true ∧ after = { before with sound := false, ending := false })) := by
  cases t with
  | done => exact ⟨trivial, .inl rfl⟩
  | write w next =>
    obtain ⟨rfl, hnext, hcounts⟩ := h
    refine ⟨hcounts, .inl ?_⟩
    simp only [Task.step, hnext]
    rfl
  | countSound expired next =>
    obtain ⟨⟨hexpired, hcounts⟩, hnext, hcounts'⟩ := h
    rw [Task.step_countSound]
    by_cases hone : c.shared.soundTimer = 1
    · rw [if_pos hone]
      refine ⟨hcounts, .inr (.inl ⟨rfl, ?_⟩)⟩
      simp [Channel.beep, hexpired, hone, Channel.update]
    · rw [if_neg hone]
      refine ⟨hcounts', .inr (.inl ⟨rfl, ?_⟩)⟩
      simp [Channel.beep, hnext, hone, Channel.update]
  | swapSound on changed unchanged =>
    obtain ⟨rfl, ⟨hchanged, hcounts⟩, hunchanged, hcounts'⟩ := h
    rw [Task.step_swapSound]
    by_cases hwas : c.shared.sound = false
    · rw [if_pos hwas]
      exact ⟨hcounts', .inr (.inr ⟨rfl, by simp [Channel.beep, hunchanged, Channel.update]⟩)⟩
    · rw [if_neg hwas]
      exact ⟨hcounts, .inr (.inr ⟨rfl, by simp [Channel.beep, hchanged, Channel.update]⟩)⟩
  | readSound draft next | readKeys draft next => exact ⟨h, .inl rfl⟩
  | send message next =>
    refine ⟨h.2, .inl ?_⟩
    simp only [Task.step, h.1, Channel.beep, Channel.push_shared]
    rfl

theorem Job.tick_countsDown : Job.tick.task.CountsDown :=
  ⟨rfl, rfl, ⟨rfl, rfl, ⟨rfl, rfl, trivial⟩, rfl, trivial⟩, rfl, trivial⟩

/-! ## The processor's thread -/

/-- What the processor's thread may know of a beep, and how its own accesses
change what it knows. -/
structure Outline (K : Type) where
  /-- What knowing it says. -/
  Fact : K → Beep → Prop
  /-- What is known once the sound timer was set. -/
  store : UInt8 → K → K
  /-- What is known once the buzzer was set. -/
  swap : Bool → K → K
  /-- Where in its task the thread may be with no more than this. -/
  Place : K → Task → Prop

namespace Outline

variable {K : Type}

def write (o : Outline K) : Write → K → K
  | .soundTimer ticks, k => o.store ticks k
  | _, k => k

/-- Beginning with what it knows, the thread may be wherever the task leads it. -/
def Annotates (o : Outline K) : Task → K → Prop
  | .done, k => o.Place k .done
  | .write w next, k => o.Place k (.write w next) ∧ o.Annotates next (o.write w k)
  | .countSound _ _, _ => False
  | .swapSound on changed unchanged, k =>
    o.Place k (.swapSound on changed unchanged) ∧ o.Annotates changed (o.swap on k) ∧
      o.Annotates unchanged (o.swap on k)
  | .readSound _ next, k | .readKeys _ next, k | .send _ next, k => o.Annotates next k

/-- The outline is kept by every access of either thread, made where the two
threads are apart. Putting a message together and sending it changes no place. -/
structure Correct (o : Outline K) (Apart : Task → Beep → Prop) : Prop where
  sending : ∀ {k m next}, o.Place k next →
    o.Place k (.readSound m next) ∧ o.Place k (.readKeys m next) ∧ o.Place k (.send m next)
  store : ∀ {k b ticks next}, Apart (.write (.soundTimer ticks) next) b → o.Fact k b →
    o.Fact (o.store ticks k) { b with ticks }
  swap : ∀ {k b on}, o.Fact k b → o.Fact (o.swap on k) { b with sound := on }
  count : ∀ {k b}, b.ending = false → o.Fact k b → o.Fact k ⟨b.sound, countDown b.ticks, b.ticks == 1⟩
  silence : ∀ {k b task}, o.Place k task → Apart task b → b.ending = true → o.Fact k b →
    o.Fact k { b with sound := false, ending := false }

structure Holds (o : Outline K) (t : Threads) : Prop where
  timer : (t.task .timer).CountsDown
  processor : ∃ k, o.Fact k t.beep ∧ o.Annotates (t.task .processor) k

section

variable {o : Outline K} {Apart : Task → Beep → Prop}

theorem Annotates.place (ho : o.Correct Apart) {task : Task} {k : K} (h : o.Annotates task k) :
    o.Place k task := by
  induction task with
  | done => exact h
  | write | swapSound => exact h.1
  | countSound => exact h.elim
  | readSound _ _ ih => exact (ho.sending (ih h)).1
  | readKeys _ _ ih => exact (ho.sending (ih h)).2.1
  | send _ _ ih => exact (ho.sending (ih h)).2.2

theorem Annotates.step (ho : o.Correct Apart) {task : Task} {k : K} (h : o.Annotates task k) {c : Channel}
    {ending : Bool} (hapart : Apart task (c.beep ending)) (hfact : o.Fact k (c.beep ending)) :
    ∃ k', o.Fact k' ((task.step c).2.beep ending) ∧ o.Annotates (task.step c).1 k' := by
  cases task with
  | done => exact ⟨k, hfact, h⟩
  | write w next =>
    cases w with
    | soundTimer ticks => exact ⟨_, ho.store hapart hfact, h.2⟩
    | _ => exact ⟨k, hfact, h.2⟩
  | countSound => exact h.elim
  | swapSound on changed unchanged =>
    refine ⟨o.swap on k, ?_, ?_⟩
    · rw [Task.step_swapSound]
      exact ho.swap hfact
    · rw [Task.step_swapSound]
      split
      · exact h.2.2
      · exact h.2.1
  | readSound | readKeys => exact ⟨k, hfact, h⟩
  | send message next =>
    refine ⟨k, ?_, h⟩
    simpa only [Task.step, Channel.beep, Channel.push_shared] using hfact

theorem Holds.step (ho : o.Correct Apart) {t : Threads} (h : o.Holds t)
    (hapart : Apart (t.task .processor) t.beep) (p : Party) : o.Holds (t.step p) := by
  obtain ⟨htimer, k, hfact, hannotates⟩ := h
  cases p with
  | processor =>
    have hother : (t.step .processor).task .timer = t.task .timer := Threads.step_task_of_ne t (by decide)
    obtain ⟨k', hfact', hannotates'⟩ := hannotates.step ho hapart hfact
    refine ⟨hother ▸ htimer, k', ?_, ?_⟩
    · rwa [Threads.beep, hother]
    · rwa [Threads.step_task_self]
  | timer =>
    have hother : (t.step .timer).task .processor = t.task .processor := Threads.step_task_of_ne t (by decide)
    obtain ⟨hcounts, heffect⟩ := htimer.step t.channel
    rw [← Threads.step_task_self] at hcounts heffect
    refine ⟨hcounts, k, ?_, hother ▸ hannotates⟩
    rcases heffect with hafter | ⟨hending, hafter⟩ | ⟨hending, hafter⟩
    · have hbeep : (t.step .timer).beep = t.beep := hafter
      rwa [hbeep]
    · have hbeep : (t.step .timer).beep = ⟨t.beep.sound, countDown t.beep.ticks, t.beep.ticks == 1⟩ := hafter
      rw [hbeep]
      exact ho.count hending hfact
    · have hbeep : (t.step .timer).beep = { t.beep with sound := false, ending := false } := hafter
      rw [hbeep]
      exact ho.silence (hannotates.place ho) hapart hending hfact

/-- A job begins where the thread is done, knowing what it knew at the end of the job before. -/
theorem Holds.start {t : Threads} (h : o.Holds t) {job : Job}
    (hjob : job.party = .processor → ∀ k, o.Place k .done → o.Annotates job.task k) :
    o.Holds (t.move (.start job)) := by
  by_cases hdone : t.task job.party = .done
  · rw [Threads.move_start t job hdone]
    obtain ⟨htimer, k, hfact, hannotates⟩ := h
    cases hparty : job.party with
    | processor =>
      have hother : (t.assign .processor job.task).task .timer = t.task .timer :=
        Threads.assign_task_of_ne t _ (by decide)
      rw [hparty] at hdone
      rw [hdone] at hannotates
      refine ⟨hother ▸ htimer, k, ?_, ?_⟩
      · rwa [Threads.beep, hother]
      · rw [Threads.assign_task_self]
        exact hjob hparty k hannotates
    | timer =>
      have hother : (t.assign .timer job.task).task .processor = t.task .processor :=
        Threads.assign_task_of_ne t _ (by decide)
      have htick : job = .tick := by
        cases job with
        | tick => rfl
        | _ => cases hparty
      subst htick
      -- The tick has yet to count, and no tick was under way: neither is about to end a beep.
      have hbeep : (t.assign .timer Job.tick.task).beep = t.beep := by
        have hquiet : (t.task .timer).silencing = false := by rw [← hparty, hdone]; rfl
        simp only [Threads.beep, hquiet]
        rfl
      refine ⟨?_, k, hbeep ▸ hfact, hother ▸ hannotates⟩
      rw [Threads.assign_task_self]
      exact Job.tick_countsDown
  · have hsame : t.move (.start job) = t := if_neg hdone
    rw [hsame]
    exact h

/-- **Two threads keep a correct outline**, if they are apart whenever one of
them moves and the outline is that of every job begun. -/
theorem Holds.run (ho : o.Correct Apart) {moves : List Move} {t : Threads} (h : o.Holds t)
    (hapart : t.Throughout (fun t _ => Apart (t.task .processor) t.beep) moves)
    (hjobs : ∀ job, .start job ∈ moves → job.party = .processor →
      ∀ k, o.Place k .done → o.Annotates job.task k) :
    o.Holds (t.run moves) := by
  induction moves generalizing t with
  | nil => exact h
  | cons move moves ih =>
    have hmove : o.Holds (t.move move) := by
      cases move with
      | start job => exact h.start (hjobs job List.mem_cons_self)
      | step p => exact h.step ho hapart.1 p
    exact ih hmove hapart.2 fun job hjob => hjobs job (List.mem_cons_of_mem _ hjob)

theorem Holds.idle {t : Threads} (h : o.Holds t) (hidle : t.Idle) :
    ∃ k, o.Place k .done ∧ o.Fact k (t.channel.beep false) := by
  obtain ⟨-, k, hfact, hannotates⟩ := h
  rw [hidle .processor] at hannotates
  rw [Threads.beep, hidle .timer] at hfact
  exact ⟨k, hannotates, hfact⟩

theorem Holds.resting {k : K} {c : Channel} (hplace : o.Place k .done)
    (hfact : o.Fact k (c.beep false)) : o.Holds (Threads.resting c) :=
  ⟨trivial, k, hfact, hplace⟩

theorem annotates_sendScreen (s : Screen) {next : Task} {k : K} (h : o.Annotates next k) :
    o.Annotates (.sendScreen s next) k := by
  unfold Task.sendScreen
  split <;> exact h

end

end Outline

/-! ## No beep sticks -/

/-- What the processor's thread knows of a buzzer that is not to stay on. -/
inductive Watch where
  | unsure
  /-- If the buzzer is on, its timer runs or the timer's thread is about to end it. -/
  | covered
  | off
deriving DecidableEq

/-- A job ends with the buzzer off or covered. -/
def watch : Outline Watch where
  Fact
    | .unsure, _ => True
    | .covered, b => b.sound = true → b.ticks ≠ 0 ∨ b.ending = true
    | .off, b => b.sound = false
  store ticks k := if k = .off then .off else if ticks = 0 then .unsure else .covered
  swap on _ := if on then .unsure else .off
  Place k task := task = .done → k ≠ .unsure

theorem watch_correct : watch.Correct fun _ _ => True where
  sending _ := ⟨nofun, nofun, nofun⟩
  store {k b ticks next} _ hfact := by
    cases k with
    | off => exact hfact
    | unsure | covered =>
      by_cases hzero : ticks = 0
      · simp [watch, hzero]
      · simp [watch, hzero]
  swap {k b on} _ := by cases on <;> simp [watch]
  count {k b} hending hfact := by
    cases k with
    | unsure => trivial
    | off => exact hfact
    | covered =>
      intro hsound
      have hticks : b.ticks ≠ 0 := by simpa [hending] using hfact hsound
      by_cases hzero : countDown b.ticks = 0
      · exact .inr (by simp [eq_one_of_countDown hticks hzero])
      · exact .inl hzero
  silence {k b task} _ _ _ _ := by
    cases k with
    | unsure => trivial
    | covered => exact nofun
    | off => rfl

theorem watch_job {job : Job} (hparty : job.party = .processor) (k : Watch) (hk : watch.Place k .done) :
    watch.Annotates job.task k := by
  cases job with
  | showScreen s => exact Outline.annotates_sendScreen s hk
  | setDelay ticks => exact ⟨nofun, hk⟩
  | beep ticks =>
    -- Nothing is sure between switching the buzzer on and setting its timer; setting it covers the buzzer.
    have hset : watch.Place (watch.store (Buzzer.stretch ticks) (watch.swap (0 < ticks) k)) .done := by
      have hstretch := Buzzer.stretch_eq_zero_iff ticks
      by_cases hzero : ticks = 0
      · simp [watch, hzero]
      · have hpos : 0 < ticks := UInt8.pos_iff_ne_zero.mpr hzero
        simp [watch, hstretch, hzero, hpos]
    exact ⟨nofun, ⟨nofun, hset⟩, ⟨nofun, hset⟩⟩
  | restart s =>
    -- The timer goes to zero first, which may uncover the buzzer until it is switched off.
    have hoff : watch.Annotates (.sendScreen s.clear .done) .off := Outline.annotates_sendScreen _ nofun
    exact ⟨nofun, nofun, nofun, hoff, hoff⟩
  | shutdown => exact ⟨nofun, nofun, ⟨nofun, nofun⟩, nofun, nofun⟩
  | tick => cases hparty

namespace Threads

/-- **No beep sticks.** Whatever the two threads do, in whatever order their
accesses fall, the buzzer is on between operations only while its timer runs. -/
theorem buzzer_never_sticks (link : Link) (journal : Journal) (moves : List Move) :
    let t := (resting { link, journal }).run moves
    t.Idle → t.channel.shared.sound = true → 0 < t.channel.shared.soundTimer := by
  intro t hidle hsound
  have hstart : watch.Holds (resting { link, journal }) := .resting (k := .off) nofun rfl
  have hholds : watch.Holds t :=
    hstart.run watch_correct (throughout_of_forall fun _ _ => trivial) fun _ _ hparty => watch_job hparty
  obtain ⟨k, hk, hfact⟩ := hholds.idle hidle
  cases k with
  | unsure => exact absurd rfl (hk rfl)
  | covered =>
    have hticks : t.channel.shared.soundTimer ≠ 0 := by simpa [Channel.beep] using hfact hsound
    exact UInt8.pos_iff_ne_zero.mpr hticks
  | off => exact absurd (hfact.symm.trans hsound) nofun

/-- The timer ticks in the middle of a restart, and in the middle of the beep after it. -/
theorem buzzer_never_sticks_beep :
    let moves := [.start (.restart .standard), .step .processor, .step .processor] ++ Job.tick.inOneGo ++
      List.replicate 5 (.step .processor) ++
      [.start (.beep 3), .step .processor] ++ Job.tick.inOneGo ++ List.replicate 4 (.step .processor)
    let t := (resting {}).run moves
    t.Idle ∧ t.channel.shared.sound = true ∧ 0 < t.channel.shared.soundTimer := by
  intro moves t
  have hidle : t.Idle := by decide +kernel
  have hsound : t.channel.shared.sound = true := by decide +kernel
  exact ⟨hidle, hsound, buzzer_never_sticks _ _ moves hidle hsound⟩

end Threads

/-! ## No beep is lost that falls apart from the one before -/

/-- The buzzer is on for a timer that the thread has yet to set. -/
def Task.arming : Task → Bool
  | .write (.soundTimer ticks) _ => ticks ≠ 0
  | .write _ next | .readSound _ next | .readKeys _ next | .send _ next => next.arming
  | _ => false

/-- What the processor's thread knows of a timer that is to be heard. -/
inductive Hearing where
  | unsure
  /-- If the timer runs, the buzzer is on. -/
  | heard
  | on
  | silent
deriving DecidableEq

/-- A job ends with a timer that is heard or at zero. The buzzer is known to be on
only until its timer is set: the timer's thread may end it any time after. -/
def hearing : Outline Hearing where
  Fact k b := (b.ending = true → b.ticks = 0) ∧
    match k with
    | .unsure => True
    | .heard => b.ticks ≠ 0 → b.sound = true
    | .on => b.sound = true
    | .silent => b.ticks = 0
  store ticks k := if ticks = 0 then .silent else if k = .on then .heard else .unsure
  swap on k := if on then .on else if k = .silent then .silent else .unsure
  Place k task := (task = .done → k = .heard ∨ k = .silent) ∧ (k = .on → task.arming = true)

theorem hearing_correct : hearing.Correct fun task b => ¬ (b.ending = true ∧ task.arming = true) where
  sending h := ⟨⟨nofun, h.2⟩, ⟨nofun, h.2⟩, ⟨nofun, h.2⟩⟩
  store {k b ticks next} hapart hfact := by
    by_cases hzero : ticks = 0
    · simp [hearing, hzero]
    · have hending : b.ending = false := by simpa [Task.arming, hzero] using hapart
      cases k with
      | on => simpa [hearing, hzero, hending] using hfact.2
      | _ => simp [hearing, hzero, hending]
  swap {k b on} hfact := by
    cases on with
    | true => exact ⟨hfact.1, rfl⟩
    | false =>
      cases k with
      | silent => exact hfact
      | _ => exact ⟨hfact.1, trivial⟩
  count {k b} hending hfact := by
    refine ⟨fun hone => ?_, ?_⟩
    · have hticks : b.ticks = 1 := by simpa using hone
      simp [hticks, countDown]
    · cases k with
      | unsure => trivial
      | heard =>
        intro hticks
        exact hfact.2 (countDown_ne_zero_of_ne hticks)
      | on => exact hfact.2
      | silent =>
        have hzero : b.ticks = 0 := hfact.2
        simp [hzero, countDown]
  silence {k b task} hplace hapart hending hfact := by
    have hzero : b.ticks = 0 := hfact.1 hending
    cases k with
    | unsure => simp [hearing]
    | heard => simp [hearing, hzero]
    | on =>
      -- The end of a beep would take the next one with it.
      exact absurd ⟨hending, hplace.2 rfl⟩ hapart
    | silent => simp [hearing, hzero]

theorem hearing_place {k : Hearing} {task : Task} (hk : k ≠ .on) (htask : task ≠ .done) :
    hearing.Place k task :=
  ⟨fun hdone => absurd hdone htask, fun hon => absurd hon hk⟩

theorem hearing_job {job : Job} (hparty : job.party = .processor) (hjob : job ≠ .shutdown) (k : Hearing)
    (hk : hearing.Place k .done) : hearing.Annotates job.task k := by
  have hon : k ≠ .on := by rcases hk.1 rfl with rfl | rfl <;> decide
  cases job with
  | showScreen s => exact Outline.annotates_sendScreen s hk
  | setDelay ticks => exact ⟨hearing_place hon nofun, hk⟩
  | beep ticks =>
    have hset : hearing.Annotates (.write (.soundTimer (Buzzer.stretch ticks)) .done)
        (hearing.swap (0 < ticks) k) := by
      have hstretch := Buzzer.stretch_eq_zero_iff ticks
      by_cases hzero : ticks = 0
      · have hnot : hearing.swap (0 < ticks) k ≠ .on := by
          cases k <;> simp [hearing, hzero]
        have hsilent : hearing.store (Buzzer.stretch ticks) (hearing.swap (0 < ticks) k) = .silent :=
          if_pos (hstretch.mpr hzero)
        refine ⟨hearing_place hnot nofun, ?_⟩
        show hearing.Place (hearing.store _ _) .done
        rw [hsilent]
        exact ⟨fun _ => .inr rfl, nofun⟩
      · have hpos : 0 < ticks := UInt8.pos_iff_ne_zero.mpr hzero
        simp [Outline.Annotates, Outline.write, hearing, Task.arming, hstretch, hzero, hpos]
    exact ⟨hearing_place hon nofun, hset, hset⟩
  | restart s =>
    have hclear : hearing.Annotates (.sendScreen s.clear .done) .silent :=
      Outline.annotates_sendScreen _ ⟨fun _ => .inr rfl, nofun⟩
    have hsilent : ∀ task, task ≠ .done → hearing.Place .silent task := fun _ => hearing_place nofun
    exact ⟨hearing_place hon nofun, hearing_place hon nofun, hsilent _ nofun, hclear, hclear⟩
  | shutdown => exact absurd rfl hjob
  | tick => cases hparty

namespace Threads

/-- The timer's thread is not about to end a beep while the processor's thread is
in the middle of the next one. -/
def Apart (t : Threads) (_ : Move) : Prop :=
  ¬ ((t.task .timer).silencing = true ∧ (t.task .processor).arming = true)

instance (t : Threads) (move : Move) : Decidable (t.Apart move) := inferInstanceAs (Decidable (¬ _))

/-- **A beep is heard until its timer runs out**, over every run in which none
falls together with the end of the one before and the emulator is not shut down:
between operations the buzzer is on as long as its timer runs. -/
theorem beep_heard (link : Link) (journal : Journal) (moves : List Move) (hmoves : .start .shutdown ∉ moves)
    (hapart : (resting { link, journal }).Throughout Apart moves) :
    let t := (resting { link, journal }).run moves
    t.Idle → 0 < t.channel.shared.soundTimer → t.channel.shared.sound = true := by
  intro t hidle hpos
  have hstart : hearing.Holds (resting { link, journal }) :=
    .resting (k := .silent) ⟨fun _ => .inr rfl, nofun⟩ ⟨nofun, rfl⟩
  have hholds : hearing.Holds t := by
    refine hstart.run hearing_correct hapart fun job hmem hparty => hearing_job hparty ?_
    rintro rfl
    exact hmoves hmem
  have hticks : t.channel.shared.soundTimer ≠ 0 := UInt8.pos_iff_ne_zero.mp hpos
  obtain ⟨k, hk, hfact⟩ := hholds.idle hidle
  rcases hk.1 rfl with rfl | rfl
  · exact hfact.2 hticks
  · exact absurd hfact.2 hticks

/-- The timer ticks after the buzzer went on and before its timer is set. -/
theorem beep_heard_tick :
    let moves := [.start (.beep 3), .step .processor] ++ Job.tick.inOneGo ++ List.replicate 4 (.step .processor)
    let t := (resting {}).run moves
    .start .shutdown ∉ moves ∧ (resting {}).Throughout Apart moves ∧ t.Idle ∧
      0 < t.channel.shared.soundTimer ∧ t.channel.shared.sound = true := by
  intro moves t
  have hmoves : .start .shutdown ∉ moves := by decide +kernel
  have hapart : (resting {}).Throughout Apart moves := by decide +kernel
  have hidle : t.Idle := by decide +kernel
  have htimer : t.channel.shared.soundTimer = Buzzer.stretch 3 := rfl
  have hpos : 0 < t.channel.shared.soundTimer := by
    rw [htimer]
    exact Buzzer.stretch_pos (by decide)
  exact ⟨hmoves, hapart, hidle, hpos, beep_heard _ _ moves hmoves hapart hidle hpos⟩

/-! ### A beep that falls together with the end of the one before -/

/-- A beep with a tick of the timer inside it: the buzzer is on already, and its
timer not set yet. -/
def beepAroundTick (ticks : UInt8) : List Move :=
  [.start (.beep ticks), .step .processor] ++ Job.tick.inOneGo ++ [.step .processor]

/-- The tick that ends one beep silences the next, and the timer of that one runs unheard. -/
theorem run_beepAroundTick {c : Channel} (hsound : c.shared.sound = true) (htimer : c.shared.soundTimer = 1)
    (ticks : UInt8) (hpos : 0 < ticks) :
    let t := (resting c).run (beepAroundTick ticks)
    t.Idle ∧ t.channel.shared.soundTimer = Buzzer.stretch ticks ∧ t.channel.shared.sound = false := by
  let set : Task := .write (.soundTimer (Buzzer.stretch ticks)) .done
  have hstart : (resting c).move (.start (.beep ticks)) =
      (resting c).assign .processor (.updateSound true set) := by
    rw [move_start _ _ rfl]
    simp only [Job.task, hpos, decide_true]
    rfl
  have hswitch : (resting c).run [.start (.beep ticks), .step .processor] = (resting c).assign .processor set := by
    -- The buzzer is on from the beep before, so there is nothing to send.
    have hsame : (Task.updateSound true set).step c = (set, c) := by
      rw [Task.updateSound, Task.step_swapSound, if_pos hsound]
      simp only [Channel.update, ← hsound]
    show ((resting c).move (.start (.beep ticks))).step .processor = _
    rw [hstart, step_assign, show (resting c).channel = c from rfl, hsame]
    rfl
  have hall : (resting c).run (beepAroundTick ticks) =
      resting ((Timer.tick c).update (Write.soundTimer (Buzzer.stretch ticks)).apply) := by
    rw [beepAroundTick, run_append, run_append, hswitch, run_tick _ rfl]
    show ((resting (Timer.tick c)).assign .processor set).step .processor = _
    rw [step_assign]
    exact assign_resting _ _
  have hoff : (Timer.tick c).shared.sound = false := by rw [tick_of_last htimer]
  simp only [hall]
  exact ⟨fun _ => rfl, rfl, hoff⟩

/-- **A beep may be lost.** It is begun during the last tick of the one before:
both threads are idle, its timer runs, and the buzzer is off. -/
theorem beep_lost :
    let moves := almostOver ++ beepAroundTick 3
    let t := (resting {}).run moves
    .start .shutdown ∉ moves ∧ t.Idle ∧ 0 < t.channel.shared.soundTimer ∧ t.channel.shared.sound = false := by
  obtain ⟨c, hc, hsound, htimer⟩ := run_almostOver
  obtain ⟨hidle, hticks, hoff⟩ := run_beepAroundTick hsound htimer 3 (by decide)
  have hpos : 0 < Buzzer.stretch 3 := Buzzer.stretch_pos (by decide)
  simp only [run_append, hc]
  exact ⟨by decide +kernel, hidle, hticks ▸ hpos, hoff⟩

end Threads

end Chip8
