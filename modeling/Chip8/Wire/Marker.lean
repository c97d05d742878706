/-
MessagePack: the byte a value begins with, and the shortest ways to write
numbers and bytes.

A marker says what kind of value it begins and where its number or length is:
in the marker itself or in the bytes that follow (`Extent`).
-/

namespace Chip8.Wire

/-- Where a number or a length is found. -/
inductive Extent where
  /-- In the marker. -/
  | inline (n : Nat)
  /-- In the next so many bytes, the highest first. -/
  | following (bytes : Nat)
deriving DecidableEq, Repr

/-- What a first byte announces. -/
inductive Marker where
  | unsigned (value : Extent)
  /-- A small negative number, held in the marker. -/
  | negative
  /-- A signed number in the next so many bytes. -/
  | signed (bytes : Nat)
  /-- A floating-point number in the next so many bytes. -/
  | float (bytes : Nat)
  | nil
  | bool (value : Bool)
  | str (length : Extent)
  | bin (length : Extent)
  | array (length : Extent)
  | map (length : Extent)
  | ext (length : Extent)
  /-- The one byte that begins nothing. -/
  | reserved
deriving DecidableEq, Repr

/-- The marker a byte is. -/
def Marker.ofByte (byte : UInt8) : Marker :=
  let b := byte.toNat
  if b < 0x80 then .unsigned (.inline b)
  else if b < 0x90 then .map (.inline (b - 0x80))
  else if b < 0xA0 then .array (.inline (b - 0x90))
  else if b < 0xC0 then .str (.inline (b - 0xA0))
  else match b with
    | 0xC0 => .nil
    | 0xC1 => .reserved
    | 0xC2 => .bool false
    | 0xC3 => .bool true
    | 0xC4 => .bin (.following 1)
    | 0xC5 => .bin (.following 2)
    | 0xC6 => .bin (.following 4)
    | 0xC7 => .ext (.following 1)
    | 0xC8 => .ext (.following 2)
    | 0xC9 => .ext (.following 4)
    | 0xCA => .float 4
    | 0xCB => .float 8
    | 0xCC => .unsigned (.following 1)
    | 0xCD => .unsigned (.following 2)
    | 0xCE => .unsigned (.following 4)
    | 0xCF => .unsigned (.following 8)
    | 0xD0 => .signed 1
    | 0xD1 => .signed 2
    | 0xD2 => .signed 4
    | 0xD3 => .signed 8
    | 0xD4 => .ext (.inline 1)
    | 0xD5 => .ext (.inline 2)
    | 0xD6 => .ext (.inline 4)
    | 0xD7 => .ext (.inline 8)
    | 0xD8 => .ext (.inline 16)
    | 0xD9 => .str (.following 1)
    | 0xDA => .str (.following 2)
    | 0xDB => .str (.following 4)
    | 0xDC => .array (.following 2)
    | 0xDD => .array (.following 4)
    | 0xDE => .map (.following 2)
    | 0xDF => .map (.following 4)
    | _ => .negative

/-- A number in so many bytes, the highest first. -/
def bigEndian : (bytes : Nat) → (n : Nat) → List UInt8
  | 0, _ => []
  | k + 1, n => UInt8.ofNat (n / Nat.pow 256 k) :: bigEndian k n

/-- The number some bytes hold, the highest first. -/
def ofBigEndian (bytes : List UInt8) : Nat :=
  bytes.foldl (fun acc b => acc * 256 + b.toNat) 0

/-- The lowest byte comes last. -/
theorem bigEndian_succ_eq (k n : Nat) :
    bigEndian (k + 1) n = bigEndian k (n / 256) ++ [UInt8.ofNat n] := by
  induction k generalizing n with
  | zero => simp [bigEndian]
  | succ k ih =>
    rw [bigEndian, ih]
    simp only [bigEndian, List.cons_append, Nat.pow_eq, Nat.pow_succ, Nat.div_div_eq_div_mul, Nat.mul_comm]

/-- Bytes written from the highest down read back as the number, if it fits. -/
theorem ofBigEndian_bigEndian (k n : Nat) (h : n < Nat.pow 256 k) : ofBigEndian (bigEndian k n) = n := by
  induction k generalizing n with
  | zero => simp_all [bigEndian, ofBigEndian]
  | succ k ih =>
    have hn : n / 256 < Nat.pow 256 k := by
      rw [Nat.pow_eq] at h ⊢
      rw [Nat.pow_succ] at h
      omega
    have := ih (n / 256) hn
    unfold ofBigEndian at this ⊢
    rw [bigEndian_succ_eq, List.foldl_append, this]
    simp only [List.foldl_cons, List.foldl_nil, UInt8.toNat_ofNat']
    omega

/-- A number takes the bytes it is given. -/
@[simp] theorem length_bigEndian (k n : Nat) : (bigEndian k n).length = k := by
  induction k with
  | zero => rfl
  | succ k ih => simp [bigEndian, ih]

/-- A truth value. -/
def writeBool (b : Bool) : List UInt8 := [if b then 0xC3 else 0xC2]

/-- A number below 65536, in the fewest bytes. -/
def writeNat (n : Nat) : List UInt8 :=
  if n < 0x80 then bigEndian 1 n
  else if n < 0x100 then 0xCC :: bigEndian 1 n
  else 0xCD :: bigEndian 2 n

/-- A text of fewer than 32 bytes. -/
def writeStr (bytes : List UInt8) : List UInt8 := UInt8.ofNat (0xA0 + bytes.length) :: bytes

/-- Fewer than 2^32 bytes, under the shortest header that holds their number. -/
def writeBin (bytes : List UInt8) : List UInt8 :=
  let n := bytes.length
  (if n < 0x100 then 0xC4 :: bigEndian 1 n
   else if n < 0x10000 then 0xC5 :: bigEndian 2 n
   else 0xC6 :: bigEndian 4 n) ++ bytes

end Chip8.Wire
