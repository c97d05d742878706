/-
The program itself: it does what a session says, with real files, real sockets
and a real clock. Everything it decides is decided by the modules it imports;
here is only when things happen.

One loop does all the work. It takes a key datagram if one has come, ticks the
timer when its time is up, runs an instruction, and then sends, prints and
logs what the journal has gained.
-/
import Chip8.CommandLine.Session
import Chip8.Keypad
import Std.Async.DNS
import Std.Async.UDP

namespace Chip8.Program

open Std.Net
open Std.Async
open CommandLine

/-- The bytes of a file. -/
def romOf (file : String) : IO (Except HostFault (List UInt8)) := do
  try
    return .ok (← IO.FS.readBinFile file).data.toList
  catch
    | .noFileOrDirectory .. => return .error .fileNotFound
    | e => return .error (.other e.toString)

/-- The dotted address of a host. -/
def lookUp (host : String) : IO IPv4Addr := do
  if let some address := IPv4Addr.ofString host then return address
  for address in ← (DNS.getAddrInfo host "").block do
    if let .v4 address := address then return address
  throw (IO.userError "failed to lookup address information")

/-- Every address of this host, at a port. -/
def everywhere (port : UInt16) : SocketAddress := .v4 { addr := ⟨#v[0, 0, 0, 0]⟩, port }

/-- A socket that sends to the screen. -/
def openScreen (host : String) (port : UInt16) : IO UDP.Socket := do
  let socket ← UDP.Socket.mk
  socket.bind (everywhere 0)
  socket.connect (.v4 { addr := ← lookUp host, port })
  return socket

/-- A socket that key state arrives on. -/
def openKeypad (o : Options) : IO UDP.Socket := do
  let socket ← UDP.Socket.mk
  socket.bind (everywhere (UInt16.ofNat o.keystatePort))
  if let some group := o.multicast then
    if let some address := IPv4Addr.ofString (".".intercalate (group.map toString)) then
      socket.setMembership (.v4 address) none .enterGroup
  return socket

/-- A datagram that is awaited. -/
abbrev Awaited := AsyncTask (ByteArray × Option SocketAddress)

/-- Awaits the next datagram. -/
def await (keypad : UDP.Socket) : IO Awaited := (keypad.recv 256).toIO

/-- A running machine: what of its journal is out already, the datagram it
awaits if it still listens, and when the next instruction and tick are due. -/
structure Live where
  machine : Machine
  shown : Journal
  awaited : Option Awaited
  nextStep : Nat
  nextTick : Nat

/-- Sends, prints and logs what the journal has gained. A payload that cannot
be sent is dropped. -/
def flush (screen : UDP.Socket) (live : Live) : IO Live := do
  let gained := live.machine.channel.journal.since live.shown
  for send in gained.sends do
    try (screen.send (ByteArray.mk send.payload.toArray)).block
    catch e => IO.eprint (logLine ⟨.warn, .channel, e.toString⟩)
  for line in gained.printed do IO.println line
  for entry in gained.log do if CommandLine.shown entry then IO.eprint (logLine entry)
  return { live with shown := live.machine.channel.journal }

/-- Takes a key datagram, if one has come. A malformed one ends the listening. -/
def listen (keypad : UDP.Socket) (live : Live) : IO Live := do
  let some task := live.awaited | return live
  if !(← IO.hasFinished task) then return live
  match task.get with
  | .error _ => return { live with awaited := none }
  | .ok (bytes, _) =>
    let (shared, result) := Keypad.receive live.machine.channel.shared bytes.data.toList
    let machine := live.machine.updateChannel (·.update fun _ => shared)
    match result with
    | .ok _ => return { live with machine, awaited := some (← await keypad) }
    | .error _ => return { live with machine, awaited := none }

/-- Nanoseconds from one tick of the timer to the next. -/
def frame : Nat := 1000000000 / 60

/-- Ticks the timer if its time is up. -/
def tickIfDue (live : Live) : IO Live := do
  if (← IO.monoNanosNow) < live.nextTick then return live
  return { live with machine := live.machine.updateChannel Timer.tick, nextTick := live.nextTick + frame }

/-- Waits until a moment, if it is still to come. -/
def sleepUntil (moment : Nat) : IO Unit := do
  let now ← IO.monoNanosNow
  if now < moment then IO.sleep (UInt32.ofNat ((moment - now) / 1000000))

/-- Runs instructions until the program halts or fails. -/
partial def loop (screen keypad : UDP.Socket) (cycle : Nat) (live : Live) :
    IO (Live × Except Fault Unit) := do
  let live ← tickIfDue (← listen keypad live)
  let (machine, result) := live.machine.step (UInt8.ofNat (← IO.rand 0 255))
  match result with
  | .error fault =>
    return (← flush screen { live with machine := machine.updateChannel Channel.shutdown }, .error fault)
  | .ok .halted => return (← flush screen { live with machine }, .ok ())
  | .ok _ =>
    let live ← flush screen { live with machine }
    sleepUntil live.nextStep
    loop screen keypad cycle { live with nextStep := live.nextStep + cycle }

/-- Writes a report, and gives its exit code. -/
def finish (r : Report) : IO UInt32 := do
  IO.print r.out
  IO.eprint r.err
  return UInt32.ofNat r.exitCode

/-- The socket to the screen and the socket of the keypad. -/
def openSockets (o : Options) : IO (Except HostFault (UDP.Socket × UDP.Socket)) := do
  let .ok (host, port) := Network.parseAddress o.screenAddress | return .error .invalidAddress
  try return .ok (← openScreen host (UInt16.ofNat port), ← openKeypad o)
  catch e => return .error (.other e.toString)

/-- Runs a machine that is ready, on real sockets. -/
def session (o : Options) (m : Machine) : IO UInt32 := do
  match ← openSockets o with
  | .error cause => finish (reportOf m (.error (.host cause)))
  | .ok (screen, keypad) =>
    let now ← IO.monoNanosNow
    let live ← flush screen
      { machine := m.showScreen, shown := {}, awaited := some (← await keypad)
        nextStep := now, nextTick := now + frame }
    match ← loop screen keypad (o.cycle * 1000) live with
    | (_, .ok ()) => return 0
    | (_, .error fault) =>
      IO.eprint (banner fault.message)
      return 1

/-- The program with its arguments. -/
def run (arguments : List String) : IO UInt32 := do
  match plan arguments with
  | .error report => finish report
  | .ok (o, file) =>
    let rom ← romOf file
    match boot { contents := fun _ => rom, network := .reachable, random := fun _ => 0, patience := 0 } o file with
    | (m, .error fault) => finish (reportOf m (.error fault))
    | (m, .ok ()) => session o m

end Chip8.Program

/-- The program. -/
def main (arguments : List String) : IO UInt32 := Chip8.Program.run arguments
