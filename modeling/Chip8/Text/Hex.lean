/-
Columns and hexadecimal digits. Every address, word and register the machine
shows is written by `hex` (lower case, filled with zeros to a width) or
`hexUpper` (upper case, as many digits as it takes).
-/

namespace Chip8.Text

/-- The text pushed to the right edge of a column of `width` characters. -/
def alignRight (width : Nat) (fill : Char) (text : String) : String :=
  String.ofList (List.replicate (width - text.length) fill) ++ text

/-- The text at the left edge of a column of `width` characters. -/
def alignLeft (width : Nat) (text : String) : String :=
  text ++ String.ofList (List.replicate (width - text.length) ' ')

/-- Lower-case hexadecimal digits, with zeros in front up to `width` of them. -/
def hex (width n : Nat) : String :=
  alignRight width '0' (String.ofList (Nat.toDigits 16 n))

/-- Upper-case hexadecimal digits, as many as the number has. -/
def hexUpper (n : Nat) : String :=
  String.ofList ((Nat.toDigits 16 n).map Char.toUpper)

end Chip8.Text
