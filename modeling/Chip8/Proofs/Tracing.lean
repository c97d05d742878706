/-
The trace only watches, and what it prints is true (`trace_faithful`).

It only watches: a machine that prints and one that does not are twins over
channels that are the same but for the printed lines (`Channel.Unprinted`), and
stay so, also when the settings are replaced on the way.

What it prints is known before the step is taken (`lineNext?`), one line for each
word that is fetched and does not jump to where it is. To tell such a jump the
machine compares the word with one it puts together from the address; that this
is right for every address a word can be fetched from is `isJumpTo_iff`. On the
line of an indexed jump a reader finds the register that is added
(`offsetNamed_trace`): no character in front of the operand is a plus sign.
-/
import Chip8.Proofs.Dialects
import Chip8.Proofs.StepOutcome

namespace Chip8

open Text

/-! ## Reading a line -/

theorem plus_notMem_toDigits (base n : Nat) (hbase : 1 < base) : '+' ∉ Nat.toDigits base n := by
  induction n using Nat.strongRecOn with
  | ind n ih =>
    rw [Nat.toDigits_eq_if hbase]
    split
    · simp
    · have hrest := ih (n / base) (Nat.div_lt_self (by omega) hbase)
      simp [hrest]

theorem plus_notMem_hex (width n : Nat) : '+' ∉ (hex width n).toList := by
  have hdigits := plus_notMem_toDigits 16 n (by decide)
  simp [hex, alignRight, hdigits]

namespace Listing

/-- What a reader takes for the offset of an indexed jump: the digit after the
first plus sign of the line and a `v`. -/
def offsetNamed (line : String) : Option Nat :=
  match line.toList.dropWhile (· ≠ '+') with
  | '+' :: 'v' :: digit :: _ => "0123456789ABCDEF".toList.idxOf? digit
  | _ => none

/-- The register is found behind any text without a plus sign. -/
theorem offsetNamed_append {start : String} (h : '+' ∉ start.toList) (r : Register) (rest : String) :
    offsetNamed (start ++ "+v" ++ hexUpper r.val ++ rest) = some r.val := by
  have hupper : hexUpper r.val = String.ofList [r.val.digitChar.toUpper] := by
    rw [hexUpper, Nat.toDigits_of_lt_base r.isLt]
    rfl
  have hskip : ∀ x ∈ start.toList, decide (x ≠ '+') = true := by
    intro x hx
    simp only [decide_eq_true_eq]
    rintro rfl
    exact h hx
  have hread : ∀ r : Register, "0123456789ABCDEF".toList.idxOf? r.val.digitChar.toUpper = some r.val := by decide
  have hline : (start ++ "+v" ++ hexUpper r.val ++ rest).toList.dropWhile (· ≠ '+') =
      '+' :: 'v' :: r.val.digitChar.toUpper :: rest.toList := by
    rw [hupper]
    simp only [String.toList_append, String.toList_ofList, List.append_assoc]
    rw [List.dropWhile_append_of_pos hskip]
    rfl
  simp only [offsetNamed, hline]
  exact hread r

/-- **The trace of an indexed jump names the register that is added**, for a style
without a plus sign. -/
theorem offsetNamed_trace (l : Listing) (d : Dialect) (cycle : Nat) (address : UInt16) (target : Address)
    (hstyle : '+' ∉ l.valid.before.toList) :
    offsetNamed (({ l with jumpsFromV0 := d.jumpsFromV0 } : Listing).trace cycle address
      (Instruction.jumpIndexed target).toWord) = some (Processor.jumpRegister d target).val := by
  have hline : ({ l with jumpsFromV0 := d.jumpsFromV0 } : Listing).line (Instruction.jumpIndexed target).toWord =
      l.valid.apply (Instruction.listed "jmp"
        ("$" ++ hex 3 target.val ++ "+v" ++ hexUpper (Processor.jumpRegister d target).val)) := by
    simp only [line, Instruction.ofWord?_toWord, assembly_jumpIndexed]
  let start := Style.dim.apply (alignRight 3 ' ' (toString cycle)) ++ " " ++ hex 3 address.toNat ++ ": " ++
    (l.valid.before ++ (alignLeft 7 "jmp" ++ ("$" ++ hex 3 target.val)))
  have hstart : '+' ∉ start.toList := by
    have hcycle := plus_notMem_toDigits 10 cycle (by decide)
    have haddress := plus_notMem_hex 3 address.toNat
    have htarget := plus_notMem_hex 3 target.val
    have hmnemonic : '+' ∉ (alignLeft 7 "jmp").toList := by decide
    simp [start, Style.apply, Style.dim, alignRight, hcycle, haddress, htarget, hstyle, hmnemonic]
  have htrace : ∃ rest, ({ l with jumpsFromV0 := d.jumpsFromV0 } : Listing).trace cycle address
      (Instruction.jumpIndexed target).toWord =
        start ++ "+v" ++ hexUpper (Processor.jumpRegister d target).val ++ rest := by
    simp only [trace, hline, Style.apply, Instruction.listed, alignLeft, start, String.append_assoc]
    exact ⟨_, rfl⟩
  obtain ⟨rest, htrace⟩ := htrace
  rw [htrace]
  exact offsetNamed_append hstart _ rest

end Listing

/-! ## Channels that differ in what was printed -/

namespace Channel

/-- The channels are the same but for the printed lines. -/
def Unprinted (c d : Channel) : Prop := ∃ printed, d = { c with journal := { c.journal with printed } }

theorem unprinted_congruence : Congruence Unprinted where
  shared h := by
    obtain ⟨_, rfl⟩ := h
    rfl
  update h f := by
    obtain ⟨printed, rfl⟩ := h
    exact ⟨printed, rfl⟩
  note h _ _ _ _ := by
    obtain ⟨printed, rfl⟩ := h
    exact ⟨printed, rfl⟩
  push {c d} h m := by
    obtain ⟨printed, rfl⟩ := h
    refine ⟨printed, ?_⟩
    show (if c.link.accepts c.journal.sends.size m.encode then _ else _) = _
    unfold push
    split <;> rfl

/-- A channel that has printed the lines, beside itself. -/
def HasPrinted (lines : Array String) (c d : Channel) : Prop := d = c ∧ c.journal.printed = lines

/-- No access prints anything. -/
theorem hasPrinted_congruence (lines : Array String) : Congruence (HasPrinted lines) where
  shared h := by rw [h.1]
  update h _ := ⟨by rw [h.1], h.2⟩
  note h _ _ _ _ := ⟨by rw [h.1], h.2⟩
  push h m := ⟨by rw [h.1], by rw [push_printed, h.2]⟩

end Channel

open Channel (Unprinted HasPrinted unprinted_congruence hasPrinted_congruence)

/-! ## What is printed -/

/-- The word is a jump to the address. -/
def Instruction.isJumpTo (word address : UInt16) : Bool :=
  match ofWord? word with
  | some (.jump target) => target.val = address.toNat
  | _ => false

namespace Machine

/-- Wherever a word can be fetched, comparing it with the one word that jumps there
tells whether it does. -/
theorem isJumpTo_iff {word address : UInt16} (ha : address.toNat ≤ 0xFFE) :
    Instruction.isJumpTo word address = true ↔ word = selfJump address := by
  unfold Instruction.isJumpTo
  split
  · next target htarget => rw [decide_eq_true_eq, eq_selfJump_iff ha htarget]
  · next hother =>
    have hword := ne_selfJump ha fun target htarget => hother target htarget
    simp [hword]

/-- The line that the next step prints, if there is one: the trace of the word
that it fetches, with the cycle counted and the register that the dialect adds. -/
def lineNext? (m : Machine) : Option String :=
  match m.cpu.memory.readWord m.cpu.pc with
  | some word =>
    if m.cpu.settings.debug && !Instruction.isJumpTo word m.cpu.pc then
      some <| ({ m.cpu.tracer with jumpsFromV0 := m.cpu.settings.dialect.jumpsFromV0 }).trace
        (m.cpu.cycle + 1) m.cpu.pc word
    else none
  | none => none

/-- The lines that an operation prints. -/
def prints (m : Machine) : Operation → List String
  | .act (.step _) => m.lineNext?.toList
  | _ => []

/-- The lines that operations print, one after the other. -/
def printsAll (m : Machine) : List Operation → List String
  | [] => []
  | o :: operations => m.prints o ++ (m.operate o).printsAll operations

theorem traceLines_toList {m : Machine} {word : UInt16} (hword : m.cpu.memory.readWord m.cpu.pc = some word) :
    (m.traceLines word).toList = m.lineNext?.toList := by
  have hself : (word != selfJump m.cpu.pc) = !Instruction.isJumpTo word m.cpu.pc := by
    rw [Bool.eq_iff_iff, bne_iff_ne, Bool.not_eq_true', ← Bool.not_eq_true, ne_eq,
      isJumpTo_iff (Memory.le_of_readWord hword)]
  simp only [traceLines, traces, lineNext?, hword, hself]
  split <;> rfl

theorem execute_printed (m : Machine) (random : UInt8) (i : Instruction) :
    (m.execute random i).1.channel.journal.printed = m.channel.journal.printed := by
  -- A machine beside itself: the relation is there for what it says of the one channel.
  have hself : Twins (HasPrinted m.channel.journal.printed) m.cpu.settings m.cpu.tracer.jumpsFromV0 m m :=
    ⟨m.channel, rfl, rfl, rfl⟩
  obtain ⟨-, _, -, -, hprinted⟩ :=
    execute_twins (hasPrinted_congruence _).bond hself random (.refl _ i) fun _ _ => rfl
  exact hprinted

theorem fetched_printed {m : Machine} {word : UInt16} (hword : m.cpu.memory.readWord m.cpu.pc = some word) :
    (m.fetched word).channel.journal.printed.toList =
      m.channel.journal.printed.toList ++ m.lineNext?.toList := by
  rw [fetched_eq, ← traceLines_toList hword]
  exact Array.toList_append

theorem step_printed (m : Machine) (random : UInt8) :
    (m.step random).1.channel.journal.printed.toList =
      m.channel.journal.printed.toList ++ m.lineNext?.toList := by
  rcases step_cases m random with ⟨hword, hs⟩ | ⟨word, i, hword, -, hs⟩ | ⟨word, hword, -, -, hs⟩ |
    ⟨word, hword, -, -, hs⟩
  · simp [hs, lineNext?, hword]
  · rw [hs, execute_printed, fetched_printed hword]
  · rw [hs, fetched_printed hword]
  · rw [hs]
    exact fetched_printed hword

/-- Only a step prints. -/
theorem operate_printed (m : Machine) (o : Operation) :
    (m.operate o).channel.journal.printed.toList = m.channel.journal.printed.toList ++ m.prints o := by
  by_cases ho : ∃ random, o = .act (.step random)
  · obtain ⟨random, rfl⟩ := ho
    exact m.step_printed random
  · have hquiet : m.prints o = [] := by
      unfold prints
      split
      · exact absurd ⟨_, rfl⟩ ho
      · rfl
    have hself : Over (HasPrinted m.channel.journal.printed) m m := ⟨m.channel, rfl, rfl, rfl⟩
    obtain ⟨_, -, -, hprinted⟩ := operate_over (hasPrinted_congruence _) hself (o := o)
      fun random hstep => absurd ⟨random, hstep⟩ ho
    rw [hprinted, hquiet, List.append_nil]

theorem operateAll_printed (m : Machine) (operations : List Operation) :
    (m.operateAll operations).channel.journal.printed.toList =
      m.channel.journal.printed.toList ++ m.printsAll operations := by
  induction operations generalizing m with
  | nil => exact (List.append_nil _).symm
  | cons o operations ih =>
    show ((m.operate o).operateAll operations).channel.journal.printed.toList = _
    rw [ih, operate_printed, printsAll, List.append_assoc]

end Machine

/-! ## The same machine with other lines -/

/-- The operation, with settings that print nothing. -/
def Operation.silenced : Operation → Operation
  | .replaceSettings s => .replaceSettings { s with debug := false }
  | o => o

theorem Operation.silenced_of_ne {o : Operation} (h : ∀ s, o ≠ .replaceSettings s) : o.silenced = o := by
  unfold silenced
  split
  · exact absurd rfl (h _)
  · rfl

/-- Operations that agree once they are silenced are the same, or replace settings
that differ in whether they print. -/
theorem Operation.silenced_cases {o o' : Operation} (h : o'.silenced = o.silenced) :
    (∃ s debug, o = .replaceSettings s ∧ o' = .replaceSettings { s with debug }) ∨
      (o' = o ∧ ∀ s, o ≠ .replaceSettings s) := by
  by_cases ho : ∃ s, o = .replaceSettings s
  · obtain ⟨s, rfl⟩ := ho
    cases o' with
    | replaceSettings t =>
      refine .inl ⟨s, t.debug, rfl, ?_⟩
      cases s
      cases t
      simpa [silenced] using h
    | _ => cases h
  · have hother : ∀ s, o ≠ .replaceSettings s := fun s hs => ho ⟨s, hs⟩
    rw [silenced_of_ne hother] at h
    cases o' with
    | replaceSettings t => exact absurd h.symm (hother _)
    | _ => exact .inr ⟨h, hother⟩

/-- What is seen, the printed lines apart. -/
def Observation.unprinted (o : Observation) : Observation :=
  { o with channel := { o.channel with journal := { o.channel.journal with printed := #[] } } }

namespace Machine

/-- The machine with printing turned on or off. -/
def withDebug (m : Machine) (debug : Bool) : Machine :=
  m.updateProcessor fun c => { c with settings := { c.settings with debug } }

/-- The second machine is the first one, except in whether it prints and in what
was printed. -/
def Watches (m n : Machine) : Prop :=
  ∃ debug fromV0, Twins Unprinted { m.cpu.settings with debug } fromV0 m n

theorem Watches.observe {m n : Machine} (h : Watches m n) : n.observe.unprinted = m.observe.unprinted := by
  obtain ⟨_, _, _, rfl, _, rfl⟩ := h
  rfl

theorem Watches.stack {m n : Machine} (h : Watches m n) : n.cpu.stack = m.cpu.stack := by
  obtain ⟨_, _, _, rfl, _, rfl⟩ := h
  rfl

theorem fetched_unprinted {settings : Settings} {fromV0 : Bool} {m n : Machine}
    (h : Twins Unprinted settings fromV0 m n) (word : UInt16) :
    Unprinted (m.fetched word).channel (n.fetched word).channel := by
  obtain ⟨_, rfl, _, rfl⟩ := h
  simp only [fetched_eq]
  exact ⟨_, rfl⟩

theorem step_watches {m n : Machine} (h : Watches m n) (random : UInt8) :
    (n.step random).2 = (m.step random).2 := by
  obtain ⟨debug, fromV0, htwins⟩ := h
  exact (step_twins unprinted_congruence.bond htwins random (fun word _ => fetched_unprinted htwins word)
    (fun _ _ => ⟨rfl, rfl, .inl rfl⟩) fun _ _ => by rw [htwins.shared unprinted_congruence]).1

/-- Settings stay what they are until they are replaced. -/
theorem operate_settings (m : Machine) {o : Operation} (ho : ∀ s, o ≠ .replaceSettings s) :
    (m.operate o).cpu.settings = m.cpu.settings := by
  -- A machine beside itself, under its own settings.
  obtain ⟨_, hself, -⟩ := operate_twins Channel.Congruence.eq (m := m) (n := m) ⟨m.channel, rfl, rfl⟩
    (fun i => .refl _ i) ho fun _ _ _ => rfl
  exact congrArg (·.cpu.settings) hself

theorem operate_watches {m n : Machine} (h : Watches m n) {o o' : Operation} (ho : o'.silenced = o.silenced) :
    Watches (m.operate o) (n.operate o') := by
  obtain ⟨debug, fromV0, htwins⟩ := h
  rcases Operation.silenced_cases ho with ⟨s, debug, rfl, rfl⟩ | ⟨rfl, hsettings⟩
  · exact ⟨debug, fromV0, htwins.replaceSettings s { s with debug }⟩
  · refine ⟨debug, n.listsAfter o', ?_⟩
    rw [m.operate_settings hsettings]
    exact operate_twins unprinted_congruence htwins (fun _ => ⟨rfl, rfl, .inl rfl⟩) hsettings
      fun _ _ => fetched_unprinted htwins

theorem operateAll_watches {m n : Machine} (h : Watches m n) {operations operations' : List Operation}
    (hsame : operations'.map Operation.silenced = operations.map Operation.silenced) :
    Watches (m.operateAll operations) (n.operateAll operations') := by
  induction operations generalizing m n operations' with
  | nil =>
    rw [List.map_eq_nil_iff.mp hsame]
    exact h
  | cons o operations ih =>
    obtain ⟨o', rest, rfl, ho, hrest⟩ := List.map_eq_cons_iff.mp hsame
    exact ih (operate_watches h ho) hrest

/-! ## Indexed jumps -/

/-- No operation changes the style of the trace. -/
theorem operate_style (m : Machine) (o : Operation) :
    (m.operate o).cpu.tracer.valid = m.cpu.tracer.valid := by
  cases o with
  | act a =>
    cases a with
    | step random => exact (m.step_sameSetup random).valid
    | _ => rfl
  | load rom =>
    rcases m.cpu.load_cases rom with ⟨memory, -, -, -, hload⟩ | ⟨memory, fault, -, -, hload⟩
    · simp only [operate, updateProcessor, hload]
    · simp only [operate, updateProcessor, hload]
  | reset =>
    rw [operate, reset_cpu]
    exact m.cpu.sameSetup_reset.valid
  | setRegister register value =>
    simp only [operate, updateProcessor, Processor.setRegister]
    split <;> rfl
  | flip x y =>
    simp only [operate]
    split <;> rfl
  | _ => rfl

theorem operateAll_style (m : Machine) (operations : List Operation) :
    (m.operateAll operations).cpu.tracer.valid = m.cpu.tracer.valid :=
  operateAll_keeps (P := fun n => n.cpu.tracer.valid = m.cpu.tracer.valid)
    (fun n o hn => (n.operate_style o).trans hn) rfl operations

/-- The line of an indexed jump names the register whose value is added to the address. -/
theorem lineNext?_jumpIndexed {m : Machine} (hstyle : '+' ∉ m.cpu.tracer.valid.before.toList)
    (hdebug : m.cpu.settings.debug = true) {target : Address}
    (hword : m.cpu.memory.readWord m.cpu.pc = some (Instruction.jumpIndexed target).toWord) (random : UInt8) :
    ∃ (line : String) (register : Register), m.lineNext? = some line ∧
      Listing.offsetNamed line = some register.val ∧
      (m.step random).1.cpu.pc = UInt16.ofNat target.val + UInt16.ofNat (m.cpu.get register).toNat := by
  have hi := (Instruction.jumpIndexed target).ofWord?_toWord
  have hother : Instruction.isJumpTo (Instruction.jumpIndexed target).toWord m.cpu.pc = false := by
    rw [Instruction.isJumpTo, hi]
  refine ⟨({ m.cpu.tracer with jumpsFromV0 := m.cpu.settings.dialect.jumpsFromV0 } : Listing).trace
    (m.cpu.cycle + 1) m.cpu.pc (Instruction.jumpIndexed target).toWord,
    Processor.jumpRegister m.cpu.settings.dialect target, ?_, ?_, ?_⟩
  · simp only [lineNext?, hword, hdebug, hother]
    rfl
  · exact Listing.offsetNamed_trace _ _ _ _ _ hstyle
  · rw [step_of_instruction random hword hi]
    show ((m.fetched (Instruction.jumpIndexed target).toWord).cpu.jumpIndexed target).pc = _
    rw [fetched_cpu]
    rfl

/-- **The trace only watches, and what it prints is true.** Two machines that differ
in whether they print, to which the same happens, settings that differ in nothing
else included: at any point the next step comes out the same, and the same is seen
but for the printed lines, down to the stale slots of the call stack. A run adds to
these one line for each word that is fetched while printing is on, unless it jumps
to where it is. On the line of an indexed jump the register that is named is the one
whose value the jump adds, for a style without a plus sign such as the default. -/
theorem trace_faithful (m : Machine) (debug : Bool) (operations operations' : List Operation)
    (hsame : operations'.map Operation.silenced = operations.map Operation.silenced) :
    let after := m.operateAll operations
    let after' := (m.withDebug debug).operateAll operations'
    (∀ random, (after'.step random).2 = (after.step random).2) ∧
      after'.observe.unprinted = after.observe.unprinted ∧ after'.cpu.stack = after.cpu.stack ∧
      after.channel.journal.printed.toList = m.channel.journal.printed.toList ++ m.printsAll operations ∧
      ('+' ∉ m.cpu.tracer.valid.before.toList → ∀ (random : UInt8) (target : Address),
        after.cpu.settings.debug = true →
        after.cpu.memory.readWord after.cpu.pc = some (Instruction.jumpIndexed target).toWord →
        ∃ (line : String) (register : Register), after.lineNext? = some line ∧
          Listing.offsetNamed line = some register.val ∧
          (after.step random).1.cpu.pc =
            UInt16.ofNat target.val + UInt16.ofNat (after.cpu.get register).toNat) := by
  intro after after'
  have hstart : Watches m (m.withDebug debug) :=
    ⟨debug, m.cpu.tracer.jumpsFromV0, m.channel, rfl, m.channel.journal.printed, rfl⟩
  have hwatches : Watches after after' := operateAll_watches hstart hsame
  refine ⟨step_watches hwatches, hwatches.observe, hwatches.stack, m.operateAll_printed operations, ?_⟩
  intro hstyle random target hdebug hword
  refine lineNext?_jumpIndexed ?_ hdebug hword random
  rw [m.operateAll_style operations]
  exact hstyle

/-- Memory that is `B3` throughout is all indexed jumps to `3B3`, which add v3 in
this dialect. Turning the trace off, or replacing the settings by ones without it,
shows nowhere else. -/
theorem trace_faithful_jumpIndexed :
    let m : Machine :=
      { cpu := {
          settings := { debug := true, dialect := ⟨false, false⟩ }
          memory := { Memory.new 0x50 0x200 with cells := Vector.replicate memorySize 0xB3 }
          v := Vector.ofFn fun r => UInt8.ofNat r.val } }
    let operations : List Operation := [.act (.step 0), .replaceSettings { debug := true }, .act (.step 0)]
    let operations' : List Operation := [.act (.step 0), .replaceSettings {}, .act (.step 0)]
    operations'.map Operation.silenced = operations.map Operation.silenced ∧
      ((m.withDebug false).operateAll operations').observe.unprinted =
        (m.operateAll operations).observe.unprinted ∧
      (m.step 0).1.cpu.pc = 0x3B6 ∧
      ∃ line, m.lineNext? = some line ∧ Listing.offsetNamed line = some 3 := by
  intro m operations operations'
  have hsame : operations'.map Operation.silenced = operations.map Operation.silenced := rfl
  have hword : m.cpu.memory.readWord m.cpu.pc = some (Instruction.jumpIndexed ⟨0x3B3, by decide⟩).toWord := by
    simp only [m, Memory.readWord, Vector.getElem_replicate]
    decide
  have hpc : (m.step 0).1.cpu.pc = 0x3B6 := by
    rw [step_of_instruction 0 hword (Instruction.ofWord?_toWord _)]
    show ((m.fetched _).cpu.jumpIndexed ⟨0x3B3, by decide⟩).pc = 0x3B6
    rw [fetched_cpu]
    decide
  have hregister : ∀ r : Register,
      UInt16.ofNat 0x3B3 + UInt16.ofNat ((Vector.ofFn fun r : Fin 16 => UInt8.ofNat r.val).get r).toNat = 0x3B6 →
      r.val = 3 := by decide
  obtain ⟨-, hseen, -⟩ := trace_faithful m false operations operations' hsame
  obtain ⟨-, -, -, -, hnamed⟩ := trace_faithful m true [] [] rfl
  obtain ⟨line, register, hline, hoffset, hadded⟩ := hnamed (by decide) 0 ⟨0x3B3, by decide⟩ rfl hword
  rw [hregister register (hadded.symm.trans hpc)] at hoffset
  exact ⟨hsame, hseen, hpc, line, hline, hoffset⟩

end Machine

end Chip8
