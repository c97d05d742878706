/-
Reading MessagePack off the front of some bytes. A `Reader` gives a value and
the bytes after it, or the reason it found none; bytes are read from the left
and the first thing wrong decides.

A value may be read as a scalar (`takeScalar`), which refuses everything else
at its marker, or passed over whole (`skip`), which follows arrays, maps and
extensions inside one another down to a depth.
-/
import Chip8.Wire.Marker

namespace Chip8.Wire

/-- Why bytes are not the value asked for. -/
inductive ReadError where
  /-- The bytes end where a value should begin. -/
  | invalidMarkerRead
  /-- The bytes end inside a value. -/
  | invalidDataRead
  /-- A marker of a kind that cannot stand here. -/
  | typeMismatch
  /-- A value that does not fit what is asked for. -/
  | unfit
  /-- An array longer than what is asked for. -/
  | lengthMismatch
  /-- Text that is not UTF-8. -/
  | invalidText
  /-- Values nested too deep. -/
  | depthLimitExceeded
deriving DecidableEq, Repr

/-- A value off the front of some bytes, and the bytes after it. -/
abbrev Reader := StateT (List UInt8) (Except ReadError)

/-- The next marker. -/
def takeMarker : Reader Marker := fun
  | [] => .error .invalidMarkerRead
  | b :: rest => .ok (.ofByte b, rest)

/-- The next so many bytes. -/
def takeBytes (n : Nat) : Reader (List UInt8) := fun bytes =>
  let (front, rest) := bytes.splitAt n
  if front.length = n then .ok (front, rest) else .error .invalidDataRead

/-- The number or length a marker speaks of. -/
def takeExtent : Extent → Reader Nat
  | .inline n => pure n
  | .following k => ofBigEndian <$> takeBytes k

/-- A number, a truth value or nothing. -/
inductive Scalar where
  | nil
  | bool (value : Bool)
  | integer (value : Int)
  | float
deriving DecidableEq, Repr

/-- The signed number that so many bytes hold. -/
def ofTwosComplement (bytes : List UInt8) : Int :=
  Int.bmod (ofBigEndian bytes) (Nat.pow 256 bytes.length)

/-- Reads a scalar; any other value is refused at its marker. -/
def takeScalar : Reader Scalar := do
  match ← takeMarker with
  | .nil => return .nil
  | .bool b => return .bool b
  | .unsigned e => return .integer (← takeExtent e)
  | .negative => return .integer (-1)
  | .signed k => return .integer (ofTwosComplement (← takeBytes k))
  | .float k =>
    let _ ← takeBytes k
    return .float
  | _ => throw .typeMismatch

/-- Reads a truth value. -/
def takeBool : Reader Bool := do
  match ← takeScalar with
  | .bool b => return b
  | _ => throw .unfit

/-- Reads a number below `limit`, in any form. -/
def takeBelow (limit : Nat) : Reader Nat := do
  match ← takeScalar with
  | .integer i => if 0 ≤ i ∧ i < limit then return i.toNat else throw .unfit
  | _ => throw .unfit

/-- Reads the same thing so many times, after what is done already, newest first. -/
def takeMany {α : Type} (read : Reader α) : Nat → (done : List α) → Reader (List α)
  | 0, done => return done.reverse
  | n + 1, done => do takeMany read n ((← read) :: done)

/-- Does the same thing so many times. -/
def repeatM (act : Reader Unit) : Nat → Reader Unit
  | 0 => pure ()
  | n + 1 => do
    act
    repeatM act n

/-- How deep values nest, the outermost one counted. -/
def depthLimit : Nat := 1024

/-- Passes over a value, whatever it is. The budget is one more than the levels
that may still be opened. -/
def skip : (budget : Nat) → Reader Unit
  | 0 => throw .depthLimitExceeded
  | budget + 1 => do
    match ← takeMarker with
    | .nil | .bool _ | .negative => return
    | .unsigned e => discard (takeExtent e)
    | .signed k | .float k => discard (takeBytes k)
    | .str e | .bin e => do
      let n ← takeExtent e
      discard (takeBytes n)
    | .array e => do
      let n ← takeExtent e
      if budget = 0 then throw .depthLimitExceeded
      repeatM (skip budget) n
    | .map e => do
      let n ← takeExtent e
      if budget = 0 then throw .depthLimitExceeded
      repeatM (skip budget) (2 * n)
    | .ext e => do
      let n ← takeExtent e
      if budget = 0 then throw .depthLimitExceeded
      let _ ← takeBytes 1
      discard (takeBytes n)
    | .reserved => throw .typeMismatch

end Chip8.Wire
