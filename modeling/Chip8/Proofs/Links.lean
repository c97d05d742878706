/-
The link has no say in what a machine does. Whatever a link takes or refuses, in
whatever order, the machine does the same and offers it the same
(`link_unseen`): not even a jump that halts or starts over, which sends in the
middle of what it does, goes another way.

Two machines that differ in their links stay side by side (`operate_over`) under
the relation `Apart`. It keeps account of both channels since the run began: what
was sent, in which the link decided about each message as it came, and what was
logged, in which there is one warning for each message that was refused. What the
links told the machines apart in is in these warnings and nowhere else.
-/
import Chip8.Proofs.Twins

namespace Chip8

/-! ## What is sent and logged -/

namespace Channel

/-- From `c` to `d` the sends and the entries were added. The link decided about
each message when it came, and each one it refused was logged, once. -/
structure Grows (c : Channel) (sent : List Send) (logged : List LogEntry) (d : Channel) : Prop where
  link : d.link = c.link
  sends : d.journal.sends.toList = c.journal.sends.toList ++ sent
  log : d.journal.log.toList = c.journal.log.toList ++ logged
  decided : ∀ (k : Nat) (s : Send), sent[k]? = some s →
    s.accepted = c.link.accepts (c.journal.sends.size + k) s.payload
  warned : logged.count refusal = sent.countP (!·.accepted)

namespace Grows

variable {c d : Channel} {sent : List Send} {logged : List LogEntry}

theorem refl (c : Channel) : c.Grows [] [] c where
  link := rfl
  sends := (List.append_nil _).symm
  log := (List.append_nil _).symm
  decided k s hs := by cases hs
  warned := rfl

theorem aside (h : c.Grows sent logged d) {e : Channel} (hlink : e.link = d.link)
    (hsends : e.journal.sends = d.journal.sends) (hlog : e.journal.log = d.journal.log) :
    c.Grows sent logged e where
  link := hlink.trans h.link
  sends := by rw [hsends, h.sends]
  log := by rw [hlog, h.log]
  decided := h.decided
  warned := h.warned

theorem note (h : c.Grows sent logged d) {entry : LogEntry} (hentry : entry ≠ refusal) :
    c.Grows sent (logged ++ [entry]) (d.note entry.level entry.origin entry.text) where
  link := h.link
  sends := h.sends
  log := by simp [Channel.note, Journal.note, h.log]
  decided := h.decided
  warned := by
    rw [List.count_append, h.warned, List.count_singleton, beq_false_of_ne hentry]
    rfl

theorem size (h : c.Grows sent logged d) : d.journal.sends.size = c.journal.sends.size + sent.length := by
  simpa using congrArg List.length h.sends

/-- A message that is pushed is decided about at once, and logged if it is refused. -/
theorem push (h : c.Grows sent logged d) (m : Message) :
    ∃ accepted, c.Grows (sent ++ [⟨m, accepted⟩]) (logged ++ if accepted then [] else [refusal]) (d.push m) := by
  let accepted := d.link.accepts d.journal.sends.size m.encode
  have hdecided : ∀ (k : Nat) (s : Send), (sent ++ [⟨m, accepted⟩])[k]? = some s →
      s.accepted = c.link.accepts (c.journal.sends.size + k) s.payload := by
    intro k s hs
    by_cases hk : k < sent.length
    · rw [List.getElem?_append_left hk] at hs
      exact h.decided k s hs
    · -- It is the last one, for which the link knew how many had come before.
      rw [List.getElem?_append_right (Nat.le_of_not_lt hk), List.getElem?_singleton] at hs
      split at hs
      · next hlast =>
        cases hs
        have hbefore : c.journal.sends.size + k = d.journal.sends.size := by
          rw [h.size]
          omega
        rw [hbefore, ← h.link]
        rfl
      · cases hs
  refine ⟨accepted, ?_⟩
  by_cases htaken : accepted = true
  · have hpush : d.push m = { d with journal := d.journal.send m true } := if_pos htaken
    rw [htaken] at hdecided ⊢
    rw [hpush]
    exact {
      link := h.link
      sends := by simp [Journal.send, h.sends]
      log := by simp [Journal.send, h.log]
      decided := hdecided
      warned := by simp [h.warned] }
  · have hrefused : accepted = false := by simpa using htaken
    have hpush : d.push m =
        { d with journal := d.journal.send m false }.note .warn .channel Fault.sendRefused.message :=
      if_neg htaken
    rw [hrefused] at hdecided ⊢
    rw [hpush]
    exact {
      link := h.link
      sends := by simp [Channel.note, Journal.note, Journal.send, h.sends]
      log := by simp [Channel.note, Journal.note, Journal.send, h.log, refusal]
      decided := hdecided
      warned := by simp [h.warned] }

end Grows

/-! ## Channels over different links -/

/-- The channels have come from `c₀` and `d₀` by accesses that were the same, over
links that may not be: the same messages were offered, and the same entries were
logged but for the refusals. -/
structure Apart (c₀ d₀ c d : Channel) : Prop where
  shared : d.shared = c.shared
  printed : d.journal.printed = c.journal.printed
  grown : ∃ sent sent' logged logged', c₀.Grows sent logged c ∧ d₀.Grows sent' logged' d ∧
    sent'.map Send.message = sent.map Send.message ∧
    logged'.filter (· ≠ refusal) = logged.filter (· ≠ refusal)

variable {c₀ d₀ c d : Channel}

theorem Apart.push (h : Apart c₀ d₀ c d) (m : Message) : Apart c₀ d₀ (c.push m) (d.push m) := by
  obtain ⟨sent, sent', logged, logged', hc, hd, hsent, hlogged⟩ := h.grown
  obtain ⟨a, hc'⟩ := hc.push m
  obtain ⟨b, hd'⟩ := hd.push m
  have hfilter : ∀ (entries : List LogEntry) (accepted : Bool),
      (entries ++ if accepted then [] else [refusal]).filter (· ≠ refusal) = entries.filter (· ≠ refusal) := by
    intro entries accepted
    cases accepted <;> simp
  refine ⟨by rw [push_shared, push_shared, h.shared], by rw [push_printed, push_printed, h.printed],
    _, _, _, _, hc', hd', ?_, ?_⟩
  · simp only [List.map_append, hsent, List.map_cons, List.map_nil]
  · rw [hfilter, hfilter, hlogged]

theorem Apart.note (h : Apart c₀ d₀ c d) {entry : LogEntry} (hentry : entry ≠ refusal) :
    Apart c₀ d₀ (c.note entry.level entry.origin entry.text) (d.note entry.level entry.origin entry.text) := by
  obtain ⟨sent, sent', logged, logged', hc, hd, hsent, hlogged⟩ := h.grown
  refine ⟨h.shared, h.printed, _, _, _, _, hc.note hentry, hd.note hentry, hsent, ?_⟩
  rw [List.filter_append, List.filter_append, hlogged]

theorem Apart.update (h : Apart c₀ d₀ c d) (f : SharedState → SharedState) :
    Apart c₀ d₀ (c.update f) (d.update f) := by
  obtain ⟨sent, sent', logged, logged', hc, hd, hsent, hlogged⟩ := h.grown
  exact ⟨congrArg f h.shared, h.printed, _, _, _, _, hc.aside rfl rfl rfl, hd.aside rfl rfl rfl, hsent, hlogged⟩

/-- No access tells links apart. -/
theorem apart_congruence (c₀ d₀ : Channel) : Congruence (Apart c₀ d₀) where
  shared h := h.shared
  update h f := h.update f
  note h _ _ _ hentry := h.note hentry
  push h m := h.push m

end Channel

open Channel (Apart refusal)

namespace Machine

/-- The machine over another link. -/
def overLink (m : Machine) (link : Link) : Machine := m.updateChannel fun c => { c with link }

theorem fetched_apart {c₀ d₀ : Channel} {m n : Machine} (h : Over (Apart c₀ d₀) m n) (word : UInt16) :
    Apart c₀ d₀ (m.fetched word).channel (n.fetched word).channel := by
  obtain ⟨d, rfl, hd⟩ := h
  obtain ⟨sent, sent', logged, logged', hc, hd', hsent, hlogged⟩ := hd.grown
  simp only [fetched_eq]
  refine ⟨hd.shared, ?_, sent, sent', logged, logged', hc.aside rfl rfl rfl, hd'.aside rfl rfl rfl, hsent, hlogged⟩
  exact congrArg (· ++ m.traceLines word) hd.printed

theorem operateAll_apart {c₀ d₀ : Channel} {m n : Machine} (h : Over (Apart c₀ d₀) m n)
    (operations : List Operation) :
    Over (Apart c₀ d₀) (m.operateAll operations) (n.operateAll operations) := by
  induction operations generalizing m n with
  | nil => exact h
  | cons o operations ih =>
    exact ih (operate_over (Channel.apart_congruence c₀ d₀) h fun _ _ => fetched_apart h)

/-- **The link has no say.** Two machines that differ in their links alone, to which
the same happens: whatever the links take or refuse, the next step comes out the
same at any point, the processor, the screen, the shared state and the printed
lines are the same, and the links were offered the same messages, so none is
offered again because it was refused. The logs are the same but for the refusals,
and each channel has logged one for every message that its own link refused. -/
theorem link_unseen (m : Machine) (link : Link) (operations : List Operation) :
    let n := m.overLink link
    let after := m.operateAll operations
    let after' := n.operateAll operations
    (∀ random, (after'.step random).2 = (after.step random).2) ∧
      after'.cpu = after.cpu ∧ after'.screen = after.screen ∧
      after'.channel.shared = after.channel.shared ∧
      after'.channel.journal.printed = after.channel.journal.printed ∧
      ∃ sent sent' logged logged',
        m.channel.Grows sent logged after.channel ∧ n.channel.Grows sent' logged' after'.channel ∧
        sent'.map Send.payload = sent.map Send.payload ∧
        logged'.filter (· ≠ refusal) = logged.filter (· ≠ refusal) := by
  intro n after after'
  have hstart : Over (Apart m.channel n.channel) m n :=
    ⟨n.channel, rfl, rfl, rfl, [], [], [], [], .refl _, .refl _, rfl, rfl⟩
  have hafter : Over (Apart m.channel n.channel) after after' := operateAll_apart hstart operations
  have hresult : ∀ random, (after'.step random).2 = (after.step random).2 := by
    intro random
    have hcongruence := Channel.apart_congruence m.channel n.channel
    exact (step_over hcongruence.bond hafter random (fetched_apart hafter)
      fun _ _ => by rw [hafter.twins.shared hcongruence]).1
  obtain ⟨d, hd, hapart⟩ := hafter
  obtain ⟨sent, sent', logged, logged', hc, hd', hsent, hlogged⟩ := hapart.grown
  have hpayloads : sent'.map Send.payload = sent.map Send.payload := by
    have hencoded := congrArg (List.map Message.encode) hsent
    rwa [List.map_map, List.map_map] at hencoded
  have hcpu := congrArg Machine.cpu hd
  have hscreen := congrArg Machine.screen hd
  have hchannel : after'.channel = d := congrArg Machine.channel hd
  rw [← hchannel] at hapart hd'
  exact ⟨hresult, hcpu, hscreen, hapart.shared, hapart.printed,
    sent, sent', logged, logged', hc, hd', hpayloads, hlogged⟩

end Machine

end Chip8
