/-
The options of the command line: what they are, what they mean for the
machine, and the help text that lists them.
-/
import Chip8.Settings
import Chip8.Text.Decimal

namespace Chip8.CommandLine

open Text

/-- Options that are given or not. -/
inductive Flag where
  | help
  | debug
  | cosmac
  | noCompat
  | noHalt
  | restart
  | eti660
deriving DecidableEq, Repr

/-- Options that take an argument. -/
inductive Parameter where
  | cycle
  | screenAddress
  | keystatePort
  | multicast
deriving DecidableEq, Repr

/-- An option of either kind. -/
inductive Choice where
  | flag (f : Flag)
  | parameter (p : Parameter)
deriving DecidableEq, Repr

/-- The option of a long name. -/
def Choice.ofName? : String → Option Choice
  | "help" => some (.flag .help)
  | "debug" => some (.flag .debug)
  | "cosmac" => some (.flag .cosmac)
  | "no-compat" => some (.flag .noCompat)
  | "no-halt" => some (.flag .noHalt)
  | "restart" => some (.flag .restart)
  | "eti660" => some (.flag .eti660)
  | "cycle" => some (.parameter .cycle)
  | "screen-address" => some (.parameter .screenAddress)
  | "keystate-port" => some (.parameter .keystatePort)
  | "multicast" => some (.parameter .multicast)
  | _ => none

/-- The option of a letter. -/
def Choice.ofLetter? : Char → Option Choice
  | 'h' => some (.flag .help)
  | 'd' => some (.flag .debug)
  | 'c' => some (.flag .cosmac)
  | 'n' => some (.flag .noCompat)
  | 'x' => some (.flag .noHalt)
  | 'r' => some (.flag .restart)
  | 'e' => some (.flag .eti660)
  | 't' => some (.parameter .cycle)
  | 's' => some (.parameter .screenAddress)
  | 'k' => some (.parameter .keystatePort)
  | 'm' => some (.parameter .multicast)
  | _ => none

/-- Everything the command line can ask for. -/
structure Options where
  file : Option String := none
  help : Bool := false
  debug : Bool := false
  cosmac : Bool := false
  noCompat : Bool := false
  noHalt : Bool := false
  restart : Bool := false
  eti660 : Bool := false
  /-- Microseconds that each instruction takes. -/
  cycle : Nat := 3000
  screenAddress : String := "127.0.0.1:9999"
  keystatePort : Nat := 9998
  /-- The four numbers of a multicast group. -/
  multicast : Option (List Nat) := none
deriving DecidableEq, Repr

namespace Options

/-- Turns a flag on. -/
def raise (o : Options) : Flag → Options
  | .help => { o with help := true }
  | .debug => { o with debug := true }
  | .cosmac => { o with cosmac := true }
  | .noCompat => { o with noCompat := true }
  | .noHalt => { o with noHalt := true }
  | .restart => { o with restart := true }
  | .eti660 => { o with eti660 := true }

/-- How the machine is set up. Starting over on a loop implies not ending on it. -/
def settings (o : Options) : Settings :=
  { debug := o.debug
    endOnLoop := !(o.noHalt || o.restart)
    restartOnLoop := o.restart
    dialect := { strictCosmac := o.cosmac, romCompatibility := !o.noCompat } }

/-- Where the program is loaded. -/
def start (o : Options) : UInt16 := if o.eti660 then 0x600 else 0x200

/-- Where the peripheral is, as text. -/
def connectionRecord (o : Options) : String :=
  Text.record "IoConfig"
    [("screen_address", quoted o.screenAddress), ("keystate_port", toString o.keystatePort),
     ("multicast", match o.multicast with
       | none => "None"
       | some group => "Some(" ++ ".".intercalate (group.map toString) ++ ")")]

end Options

/-- The help text. -/
def usage : String := "Usage: chirpnet [OPTIONS]

Positional arguments:
  file                       Load a ROM to run on Chirpnet.

Optional arguments:
  -h, --help                 Print this help message.
  -d, --debug                Print each instruction as it runs.
  -c, --cosmac               Use strict COSMAC VIP behavior for shifts, Fx1E, and DMA.
  -n, --no-compat            Disable the ROM compatibility quirks for indexed jumps and DMA.
  -x, --no-halt              Keep running when the program jumps to itself.
  -r, --restart              Restart the program when it jumps to itself (implies --no-halt).
  -e, --eti660               Load the ROM at 0x600, for the ETI-660.
  -t, --cycle MICROS         Set the time each instruction takes. (default: 3000)
  -s, --screen-address ADDR  Send screen and sound state to this address. (default: 127.0.0.1:9999)
  -k, --keystate-port PORT   Receive key state on this port. (default: 9998)
  -m, --multicast GROUP      Join a multicast group (the keypad uses 230.0.0.0) for key state.
"

end Chip8.CommandLine
