/-
Messages to the peripheral, and their form on the wire: a MessagePack map of
five entries, in the order of the fields. `encode` writes the shortest form;
`decode` takes every form that says the same, and ignores what follows.
-/
import Chip8.Wire.Reader

namespace Chip8

open Wire

/-- What the peripheral is told: the buzzer, the keys, and the screen if it changed. -/
structure Message where
  sound : Bool
  keys : UInt16
  /-- The packed screen, or none when only the buzzer or the keys changed. -/
  screen : Option (List UInt8)
  width : UInt8
  height : UInt8
deriving DecidableEq, Repr

namespace Message

/-- The fields of a message. -/
inductive Key where
  | sound
  | keys
  | screen
  | width
  | height
deriving DecidableEq, Repr

/-- The name of a field on the wire. -/
def Key.name : Key → List Char
  | .sound => ['s', 'o', 'u', 'n', 'd']
  | .keys => ['k', 'e', 'y', 's']
  | .screen => ['s', 'c', 'r', 'e', 'e', 'n']
  | .width => ['s', 'c', 'r', 'e', 'e', 'n', 'W', 'i', 'd', 't', 'h']
  | .height => ['s', 'c', 'r', 'e', 'e', 'n', 'H', 'e', 'i', 'g', 'h', 't']

/-- The name of a field as bytes; all of its characters are ASCII. -/
def Key.bytes (k : Key) : List UInt8 := k.name.map fun c => UInt8.ofNat c.toNat

/-- The fields in the order they are written. -/
def Key.all : List Key := [.sound, .keys, .screen, .width, .height]

/-- The field of a name. -/
def Key.ofBytes? (bytes : List UInt8) : Option Key := Key.all.find? (·.bytes == bytes)

/-- The field of a position. -/
def Key.ofPosition? (n : Nat) : Option Key := Key.all[n]?

/-- The packed screen, or nil. -/
def writeScreen : Option (List UInt8) → List UInt8
  | none => [0xC0]
  | some bytes => writeBin bytes

/-- The message as it goes over the wire. -/
def encode (m : Message) : List UInt8 :=
  0x85 ::
    (writeStr Key.sound.bytes ++ writeBool m.sound ++
     writeStr Key.keys.bytes ++ writeNat m.keys.toNat ++
     writeStr Key.screen.bytes ++ writeScreen m.screen ++
     writeStr Key.width.bytes ++ writeNat m.width.toNat ++
     writeStr Key.height.bytes ++ writeNat m.height.toNat)

/-- The fields read so far. -/
structure Draft where
  sound : Option Bool := none
  keys : Option UInt16 := none
  screen : Option (Option (List UInt8)) := none
  width : Option UInt8 := none
  height : Option UInt8 := none
deriving DecidableEq, Repr

/-- Whether a field was read. -/
def Draft.has (d : Draft) : Key → Bool
  | .sound => d.sound.isSome
  | .keys => d.keys.isSome
  | .screen => d.screen.isSome
  | .width => d.width.isSome
  | .height => d.height.isSome

/-- The message, if every field was read. -/
def Draft.message? (d : Draft) : Option Message := do
  return { sound := ← d.sound, keys := ← d.keys, screen := ← d.screen,
           width := ← d.width, height := ← d.height }

/-- Reads a byte in any form of a number. -/
def takeByte : Reader UInt8 := UInt8.ofNat <$> takeBelow 0x100

/-- Reads a packed screen: nil, bytes, text as its bytes, or an array of bytes. -/
def takeScreen : Reader (Option (List UInt8)) := do
  match ← takeMarker with
  | .nil => return none
  | .str e | .bin e => do
    let n ← takeExtent e
    return some (← takeBytes n)
  | .array e => do
    let n ← takeExtent e
    return some (← takeMany takeByte n [])
  | .unsigned e | .map e | .ext e => do
    let _ ← takeExtent e
    throw .unfit
  | .signed k | .float k => do
    let _ ← takeBytes k
    throw .unfit
  | .negative | .bool _ => throw .unfit
  | .reserved => throw .typeMismatch

/-- Reads the value of a field. -/
def takeField (d : Draft) : Key → Reader Draft
  | .sound => return { d with sound := some (← takeBool) }
  | .keys => return { d with keys := some (UInt16.ofNat (← takeBelow 0x10000)) }
  | .screen => return { d with screen := some (← takeScreen) }
  | .width => return { d with width := some (← takeByte) }
  | .height => return { d with height := some (← takeByte) }

/-- Reads the key of an entry: a name or a position. A key of no field is none. -/
def takeKey : Reader (Option Key) := do
  match ← takeMarker with
  | .str e | .bin e => do
    let n ← takeExtent e
    return Key.ofBytes? (← takeBytes n)
  | .unsigned e => return Key.ofPosition? (← takeExtent e)
  | .array e | .map e | .ext e => do
    let _ ← takeExtent e
    throw .unfit
  | .signed k | .float k => do
    let _ ← takeBytes k
    throw .unfit
  | .negative | .bool _ | .nil => throw .unfit
  | .reserved => throw .typeMismatch

/-- Reads an entry. A field must not come twice; the value of an unknown field
is passed over. -/
def takeEntry (d : Draft) : Reader Draft := do
  match ← takeKey with
  | some key => if d.has key then throw .unfit else takeField d key
  | none =>
    skip (depthLimit - 1)
    return d

/-- Reads so many entries. -/
def takeEntries : Nat → Draft → Reader Draft
  | 0, d => return d
  | n + 1, d => do takeEntries n (← takeEntry d)

/-- Reads fields by position, as long as there are values for them. -/
def takeInOrder : Nat → List Key → Draft → Reader Draft
  | 0, [], d => return d
  | _ + 1, [], _ => throw .lengthMismatch
  | 0, _ :: _, _ => throw .unfit
  | n + 1, key :: keys, d => do takeInOrder n keys (← takeField d key)

/-- The finished message; a missing field makes it unfit. -/
def finish (d : Draft) : Reader Message :=
  match d.message? with
  | some m => return m
  | none => throw .unfit

/-- Whether some bytes are UTF-8 text. -/
def isText (bytes : List UInt8) : Bool := (ByteArray.mk bytes.toArray).validateUTF8

/-- Reads a message: a map by names or positions, or an array in order. -/
def takeMessage : Reader Message := do
  match ← takeMarker with
  | .map e => do
    let n ← takeExtent e
    finish (← takeEntries n {})
  | .array e => do
    let n ← takeExtent e
    finish (← takeInOrder n Key.all {})
  | .str e => do
    let n ← takeExtent e
    let bytes ← takeBytes n
    throw (if isText bytes then .unfit else .invalidText)
  | .bin e => do
    let n ← takeExtent e
    let _ ← takeBytes n
    throw .unfit
  | .unsigned e | .ext e => do
    let _ ← takeExtent e
    throw .unfit
  | .signed k | .float k => do
    let _ ← takeBytes k
    throw .unfit
  | .negative | .bool _ | .nil => throw .unfit
  | .reserved => throw .typeMismatch

/-- The message at the front of some bytes. -/
def decode (bytes : List UInt8) : Except ReadError Message := (takeMessage bytes).map (·.1)

end Message

end Chip8
