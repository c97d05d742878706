/-
Reading the command line, from the left; the first thing wrong decides.

`--name` and `--name=value` are long options, `-abc` is a cluster of letters,
`--` ends the options and everything else is a free argument. The argument of
a letter is the rest of its cluster, or else the next argument, whatever it
looks like. An option given twice counts the second time.
-/
import Chip8.CommandLine.Options

namespace Chip8.CommandLine

open Text

/-- Why a command line is refused. -/
inductive UsageError where
  | unrecognized (option : String)
  | missingArgument (option : String)
  | unwantedArgument (option : String)
  | invalidArgument (option reason : String)
  | unexpectedFree (argument : String)
  | missingFile
deriving DecidableEq, Repr

/-- The wording of a refusal. -/
def UsageError.message : UsageError → String
  | .unrecognized option => "unrecognized option `" ++ option ++ "`"
  | .missingArgument option => "missing argument to option `" ++ option ++ "`"
  | .unwantedArgument option => "option `" ++ option ++ "` does not accept an argument"
  | .invalidArgument option reason => "invalid argument to option `" ++ option ++ "`: " ++ reason
  | .unexpectedFree argument => "unexpected free argument `" ++ argument ++ "`"
  | .missingFile => "missing required free argument"

/-- One number of a dotted address: at most 255, in one to three digits, with no
zero in front of others. -/
def readOctet? (text : String) : Option Nat :=
  let cs := text.toList
  if cs.isEmpty || 3 < cs.length || (1 < cs.length && cs.head? == some '0') || !cs.all Char.isDigit then
    none
  else (readDigits 255 0 cs).toOption

/-- The four numbers of a dotted address. -/
def readGroup? (text : String) : Option (List Nat) := do
  let octets ← (text.splitOn ".").mapM readOctet?
  if octets.length = 4 then some octets else none

/-- Gives an option its argument. -/
def assign (o : Options) (p : Parameter) (typed value : String) : Except UsageError Options :=
  let number (limit : Nat) : Except UsageError Nat :=
    (readNat limit value).mapError fun e => .invalidArgument typed e.message
  match p with
  | .cycle => return { o with cycle := ← number 18446744073709551615 }
  | .screenAddress => return { o with screenAddress := value }
  | .keystatePort => return { o with keystatePort := ← number 65535 }
  | .multicast =>
    match readGroup? value with
    | some group => return { o with multicast := some group }
    | none => throw (.invalidArgument typed "invalid IPv4 address syntax")

/-- Takes a free argument: the first is the file, and there is no second. -/
def takeFree (o : Options) (argument : String) : Except UsageError Options :=
  match o.file with
  | none => return { o with file := some argument }
  | some _ => throw (.unexpectedFree argument)

/-- What an argument is, by its first characters. -/
inductive Shape where
  /-- The end of the options. -/
  | terminator
  /-- A long option, with the text after its equals sign if it has one. -/
  | long (name : String) (value? : Option String)
  /-- A cluster of letters. -/
  | cluster (letters : List Char)
  | free
deriving DecidableEq, Repr

/-- The shape of an argument. -/
def shapeOf (argument : String) : Shape :=
  match argument.toList with
  | ['-', '-'] => .terminator
  | '-' :: '-' :: cs =>
    match cs.dropWhile (· != '=') with
    | [] => .long (String.ofList cs) none
    | _ :: value => .long (String.ofList (cs.takeWhile (· != '='))) (some (String.ofList value))
  | '-' :: c :: cs => .cluster (c :: cs)
  | _ => .free

/-- Reads what is left of a cluster, then the arguments after it. -/
def parseFrom (o : Options) (letters : List Char) (arguments : List String) :
    Except UsageError Options :=
  match letters, arguments with
  | c :: cs, arguments =>
    let typed := String.ofList ['-', c]
    match Choice.ofLetter? c with
    | none => throw (.unrecognized typed)
    | some (.flag f) => parseFrom (o.raise f) cs arguments
    | some (.parameter p) =>
      match cs, arguments with
      | _ :: _, arguments => do parseFrom (← assign o p typed (String.ofList cs)) [] arguments
      | [], value :: rest => do parseFrom (← assign o p typed value) [] rest
      | [], [] => throw (.missingArgument typed)
  | [], [] => return o
  | [], argument :: rest =>
    match shapeOf argument with
    | .terminator => rest.foldlM takeFree o
    | .free => do parseFrom (← takeFree o argument) [] rest
    | .cluster letters => parseFrom o letters rest
    | .long name value? =>
      let typed := "--" ++ name
      match Choice.ofName? name, value? with
      | none, _ => throw (.unrecognized typed)
      | some (.flag f), none => parseFrom (o.raise f) [] rest
      | some (.flag _), some _ => throw (.unwantedArgument typed)
      | some (.parameter p), some value => do parseFrom (← assign o p typed value) [] rest
      | some (.parameter p), none =>
        match rest with
        | value :: rest => do parseFrom (← assign o p typed value) [] rest
        | [] => throw (.missingArgument typed)
termination_by (arguments.length, letters.length)
decreasing_by all_goals simp_wf; omega

/-- Reads a command line. A file is required, unless help is asked for. -/
def parse (arguments : List String) : Except UsageError Options := do
  let o ← parseFrom {} [] arguments
  if o.help || o.file.isSome then return o else throw .missingFile

end Chip8.CommandLine
