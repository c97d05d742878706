/-
A whole run of the program, as a function of its arguments and its host: what
it prints, what it sends, and how it exits.

The log shows entries of level info and above, except those of the channel and
the timer, which are the business of whoever watches the link.
-/
import Chip8.CommandLine.Parse
import Chip8.Machine
import Chip8.Network

namespace Chip8.CommandLine

open Text

/-- What the program asks of its host. -/
structure Host where
  contents : String → Except HostFault (List UInt8)
  network : Network
  random : Nat → UInt8
  /-- How many instructions the host waits for before it gives up. -/
  patience : Nat

/-- What a run of the program leaves behind. -/
structure Report where
  exitCode : Nat
  out : String := ""
  err : String := ""
  sent : List (List UInt8) := []
deriving DecidableEq, Repr

/-- A line of the log. -/
def logLine (e : LogEntry) : String :=
  "[" ++ alignLeft 5 e.level.name ++ " " ++ e.origin.name ++ "] " ++ e.text ++ "\n"

/-- Whether the log shows an entry. -/
def shown (e : LogEntry) : Bool :=
  e.level != .trace && e.origin != .channel && e.origin != .timer

/-- The error that ends a run, in bold red. -/
def banner (text : String) : String :=
  "\x1b[31m\x1b[1m" ++ text ++ "\x1b[0m\x1b[39m\n"

/-- The machine that the options ask for, with its program loaded and its link
open, or the fault that kept it from starting. -/
def boot (host : Host) (o : Options) (file : String) : Machine × Except Fault Unit :=
  let m : Machine := { cpu := Processor.new 0x50 o.start o.settings }
  let m := m.note .info .program o.settings.record
  match m.cpu.loadFile (host.contents file) with
  | (cpu, .error fault) => ({ m with cpu }, .error fault)
  | (cpu, .ok ()) =>
    let m := { m with cpu }.note .info .program
      ("loaded " ++ file ++ " at " ++ hex 3 o.start.toNat)
    match host.network.connect o.screenAddress with
    | .error cause => (m, .error (.host cause))
    | .ok (peer, port) =>
      let m := m.note .info .channel ("pushing peripheral state to " ++ peer ++ ":" ++ toString port)
      (m.note .info .channel ("listening for key state on 0.0.0.0:" ++ toString o.keystatePort), .ok ())

/-- Shows the blank screen and runs the program to its end; a fault shuts the
peripheral down. -/
def play (host : Host) (m : Machine) : Machine × Option (Except Fault Unit) :=
  let m := m.showScreen.updateChannel Timer.noteStart
  match m.runFor host.random host.patience 0 with
  | (m, some (.error fault)) => (m.updateChannel Channel.shutdown, some (.error fault))
  | (m, some (.ok ())) => (m.updateChannel Timer.noteStop, some (.ok ()))
  | (m, none) => (m, none)

/-- What is left of a run that ended. -/
def reportOf (m : Machine) (result : Except Fault Unit) : Report :=
  let j := m.channel.journal
  let log := String.join ((j.log.toList.filter shown).map logLine)
  let out := String.join (j.printed.toList.map (· ++ "\n"))
  match result with
  | .ok () => { exitCode := 0, out, err := log, sent := j.delivered }
  | .error fault => { exitCode := 1, out, err := log ++ banner fault.message, sent := j.delivered }

/-- What the arguments ask for: a file to run, or a report at once. -/
def plan (arguments : List String) : Except Report (Options × String) :=
  match parse arguments with
  | .error e => .error { exitCode := 2, err := "chirpnet: " ++ e.message ++ "\n" }
  | .ok o =>
    match o.help, o.file with
    | false, some file => .ok (o, file)
    | _, _ => .error { exitCode := 0, err := usage }

/-- The whole program; `none` when it was still running as the host gave up. -/
def run (host : Host) (arguments : List String) : Option Report :=
  match plan arguments with
  | .error report => some report
  | .ok (o, file) =>
    match boot host o file with
    | (m, .error fault) => some (reportOf m (.error fault))
    | (m, .ok ()) =>
      match play host m with
      | (m, some result) => some (reportOf m result)
      | (_, none) => none

end Chip8.CommandLine
