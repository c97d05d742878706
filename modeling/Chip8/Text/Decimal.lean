/-
Reading a decimal number that must not pass a limit. The digits are read from
the left and the first thing wrong decides: a character that is no digit, or
the digit that takes the number past the limit. One plus sign may stand in
front.
-/

namespace Chip8.Text

/-- Why a text is not a number within the limit. -/
inductive NumberError where
  | empty
  | invalidDigit
  | tooLarge
deriving DecidableEq, Repr

/-- The wording of a refused number. -/
def NumberError.message : NumberError → String
  | .empty => "cannot parse integer from empty string"
  | .invalidDigit => "invalid digit found in string"
  | .tooLarge => "number too large to fit in target type"

/-- The value of a decimal digit. -/
def digit? (c : Char) : Option Nat :=
  if c.isDigit then some (c.toNat - '0'.toNat) else none

/-- Reads the digits that follow a number read so far. -/
def readDigits (limit : Nat) : Nat → List Char → Except NumberError Nat
  | acc, [] => .ok acc
  | acc, c :: cs =>
    match digit? c with
    | none => .error .invalidDigit
    | some d => if acc * 10 + d ≤ limit then readDigits limit (acc * 10 + d) cs else .error .tooLarge

/-- Reads a whole text as a number of at most `limit`. -/
def readNat (limit : Nat) (text : String) : Except NumberError Nat :=
  match text.toList with
  | [] => .error .empty
  | ['+'] => .error .invalidDigit
  | '+' :: cs => readDigits limit 0 cs
  | cs => readDigits limit 0 cs

end Chip8.Text
