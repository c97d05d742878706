/-
What is written reads back. `Reads r bytes a` says that the reader `r` takes
exactly `bytes` off the front of whatever follows them, and gives `a`; it
composes along the reader's own structure (`Reads.bind`), so each part of a
message is read by the part of the reader it was written for.

`takeMessage_encode`: a message reads back from its encoding, whatever follows
it, as long as its screen has fewer than 2^32 bytes.
-/
import Chip8.Message

namespace Chip8.Wire

/-- `r` takes exactly `bytes` and gives `a`, whatever follows. -/
def Reads {α : Type} (r : Reader α) (bytes : List UInt8) (a : α) : Prop :=
  ∀ rest, r (bytes ++ rest) = .ok (a, rest)

theorem Reads.pure {α : Type} (a : α) : Reads (pure a) [] a := fun _ => rfl

theorem Reads.bind {α β : Type} {r : Reader α} {f : α → Reader β} {xs ys : List UInt8} {a : α} {b : β}
    (hr : Reads r xs a) (hf : Reads (f a) ys b) : Reads (r >>= f) (xs ++ ys) b := by
  intro rest
  rw [List.append_assoc]
  show (r (xs ++ (ys ++ rest)) >>= fun p => f p.1 p.2) = .ok (b, rest)
  rw [hr]
  exact hf rest

/-- Giving something else for what was read takes no more bytes. -/
theorem Reads.bind_nil {α β : Type} {r : Reader α} {f : α → Reader β} {xs : List UInt8} {a : α} {b : β}
    (hr : Reads r xs a) (hf : Reads (f a) [] b) : Reads (r >>= f) xs b := by
  simpa using hr.bind hf

theorem Reads.map {α β : Type} {r : Reader α} {xs : List UInt8} {a : α} (hr : Reads r xs a) (f : α → β) :
    Reads (f <$> r) xs (f a) := by
  intro rest
  show (r (xs ++ rest) >>= fun p => Except.ok (f p.1, p.2)) = .ok (f a, rest)
  rw [hr]
  rfl

/-! ## Numbers, truth values and bytes -/

theorem reads_takeMarker (b : UInt8) : Reads takeMarker [b] (.ofByte b) := fun _ => rfl

/-- A marker is read first; what it announces comes next. -/
theorem Reads.marker {β : Type} {b : UInt8} {marker : Marker} {f : Marker → Reader β} {ys : List UInt8}
    {a : β} (hb : Marker.ofByte b = marker) (hf : Reads (f marker) ys a) :
    Reads (takeMarker >>= f) (b :: ys) a :=
  (hb ▸ reads_takeMarker b).bind hf

theorem reads_takeBytes (bytes : List UInt8) : Reads (takeBytes bytes.length) bytes bytes := by
  intro rest
  simp [takeBytes]

theorem reads_takeExtent_inline (n : Nat) : Reads (takeExtent (.inline n)) [] n := fun _ => rfl

theorem reads_takeExtent_following {k n : Nat} (h : n < Nat.pow 256 k) :
    Reads (takeExtent (.following k)) (bigEndian k n) n := by
  have hbytes := reads_takeBytes (bigEndian k n)
  rw [length_bigEndian] at hbytes
  have := hbytes.map ofBigEndian
  rwa [ofBigEndian_bigEndian k n h] at this

theorem ofByte_number {n : Nat} (h : n < 0x80) :
    Marker.ofByte (UInt8.ofNat n) = .unsigned (.inline n) := by
  have : (UInt8.ofNat n).toNat = n := by simp; omega
  simp only [Marker.ofByte, this, if_pos h]

theorem ofByte_text {n : Nat} (h : n < 32) :
    Marker.ofByte (UInt8.ofNat (0xA0 + n)) = .str (.inline n) := by
  have hb : (UInt8.ofNat (0xA0 + n)).toNat = 0xA0 + n := by simp; omega
  simp only [Marker.ofByte, hb]
  rw [if_neg (by omega), if_neg (by omega), if_neg (by omega), if_pos (by omega), Nat.add_sub_cancel_left]

theorem reads_takeScalar_writeNat {n : Nat} (h : n < 0x10000) :
    Reads takeScalar (writeNat n) (.integer n) := by
  unfold takeScalar writeNat
  split
  next hn =>
    have hbyte : bigEndian 1 n = [UInt8.ofNat n] := by simp [bigEndian]
    rw [hbyte]
    exact .marker (ofByte_number hn) ((reads_takeExtent_inline n).bind_nil (.pure _))
  next =>
    split
    next hn =>
      exact .marker rfl ((reads_takeExtent_following (k := 1) hn).bind_nil (.pure _))
    next =>
      exact .marker rfl ((reads_takeExtent_following (k := 2) h).bind_nil (.pure _))

theorem reads_takeBelow_writeNat {n limit : Nat} (h : n < 0x10000) (hlimit : n < limit) :
    Reads (takeBelow limit) (writeNat n) n := by
  refine (reads_takeScalar_writeNat h).bind_nil ?_
  have : (0 : Int) ≤ (n : Int) ∧ (n : Int) < (limit : Int) := by omega
  simp only [if_pos this]
  exact .pure _

theorem reads_takeBool_writeBool (b : Bool) : Reads takeBool (writeBool b) b := by
  cases b with
  | false => exact ((reads_takeMarker 0xC2).bind_nil (.pure (Scalar.bool false))).bind_nil (.pure _)
  | true => exact ((reads_takeMarker 0xC3).bind_nil (.pure (Scalar.bool true))).bind_nil (.pure _)

end Chip8.Wire

namespace Chip8.Message

open Wire

/-! ## The parts of a message -/

theorem reads_takeScreen_writeScreen {screen : Option (List UInt8)}
    (h : ∀ bytes, screen = some bytes → bytes.length < 4294967296) :
    Reads takeScreen (writeScreen screen) screen := by
  cases screen with
  | none => exact .marker rfl (.pure none)
  | some bytes =>
    have hlength := h bytes rfl
    have hbody : Reads (takeBytes bytes.length >>= fun b => Pure.pure (some b)) bytes (some bytes) :=
      (reads_takeBytes bytes).bind_nil (.pure _)
    show Reads takeScreen (writeBin bytes) (some bytes)
    simp only [writeBin]
    split
    next hn => exact .marker rfl ((reads_takeExtent_following (k := 1) hn).bind hbody)
    next =>
      split
      next hn => exact .marker rfl ((reads_takeExtent_following (k := 2) hn).bind hbody)
      next => exact .marker rfl ((reads_takeExtent_following (k := 4) hlength).bind hbody)

theorem Key.length_bytes_lt (key : Key) : key.bytes.length < 32 := by
  cases key <;> decide

/-- A field is found by the name it is written under. -/
theorem Key.ofBytes?_bytes (key : Key) : Key.ofBytes? key.bytes = some key := by
  cases key <;> decide

theorem reads_takeKey_writeStr (key : Key) : Reads takeKey (writeStr key.bytes) (some key) := by
  refine .marker (ofByte_text key.length_bytes_lt) ?_
  refine (reads_takeExtent_inline _).bind ((reads_takeBytes key.bytes).bind_nil ?_)
  rw [key.ofBytes?_bytes]
  exact .pure _

theorem reads_takeByte_writeNat (b : UInt8) : Reads takeByte (writeNat b.toNat) b := by
  have hb : b.toNat < 0x100 := b.toNat_lt
  have hread : Reads takeByte (writeNat b.toNat) (UInt8.ofNat b.toNat) :=
    (reads_takeBelow_writeNat (by omega) hb).map UInt8.ofNat
  rwa [UInt8.ofNat_toNat] at hread

/-- An entry is a field's name and its value; the field must be new. -/
theorem reads_takeEntry {d d' : Draft} {key : Key} {bytes : List UInt8} (hnew : d.has key = false)
    (hfield : Reads (takeField d key) bytes d') : Reads (takeEntry d) (writeStr key.bytes ++ bytes) d' := by
  refine (reads_takeKey_writeStr key).bind ?_
  simpa only [hnew, Bool.false_eq_true, if_false] using hfield

/-- An entry, then the entries after it. -/
theorem reads_takeEntries_cons {n : Nat} {d d' e : Draft} {key : Key} {bytes later : List UInt8}
    (hnew : d.has key = false) (hfield : Reads (takeField d key) bytes d')
    (hlater : Reads (takeEntries n d') later e) :
    Reads (takeEntries (n + 1) d) (writeStr key.bytes ++ (bytes ++ later)) e := by
  rw [← List.append_assoc]
  exact (reads_takeEntry hnew hfield).bind hlater

/-! ## The message -/

/-- **A message reads back** from its encoding, whatever follows. -/
theorem takeMessage_encode {m : Message} (h : ∀ bytes, m.screen = some bytes → bytes.length < 4294967296) :
    Reads takeMessage m.encode m := by
  unfold encode
  simp only [List.append_assoc]
  have hkeys : m.keys.toNat < 0x10000 := m.keys.toNat_lt
  have hentries : Reads (takeEntries 5 {})
      (writeStr Key.sound.bytes ++ (writeBool m.sound ++ (writeStr Key.keys.bytes ++ (writeNat m.keys.toNat ++
        (writeStr Key.screen.bytes ++ (writeScreen m.screen ++ (writeStr Key.width.bytes ++
          (writeNat m.width.toNat ++ (writeStr Key.height.bytes ++ (writeNat m.height.toNat ++ []))))))))))
      ⟨some m.sound, some m.keys, some m.screen, some m.width, some m.height⟩ := by
    refine reads_takeEntries_cons rfl ((reads_takeBool_writeBool m.sound).bind_nil (.pure _)) ?_
    refine reads_takeEntries_cons rfl
      ((reads_takeBelow_writeNat hkeys hkeys).bind_nil (.pure _)) ?_
    refine reads_takeEntries_cons rfl ((reads_takeScreen_writeScreen h).bind_nil (.pure _)) ?_
    refine reads_takeEntries_cons rfl ((reads_takeByte_writeNat m.width).bind_nil (.pure _)) ?_
    refine reads_takeEntries_cons rfl ((reads_takeByte_writeNat m.height).bind_nil (.pure _)) ?_
    simp only [UInt16.ofNat_toNat]
    exact .pure _
  simp only [List.append_nil] at hentries
  exact .marker rfl ((reads_takeExtent_inline 5).bind (hentries.bind_nil (.pure m)))

/-- Decoding an encoded message gives it back; bytes after it are ignored. -/
theorem decode_encode {m : Message} (h : ∀ bytes, m.screen = some bytes → bytes.length < 4294967296)
    (rest : List UInt8) : decode (m.encode ++ rest) = .ok m := by
  simp only [decode, takeMessage_encode h rest]
  rfl

end Chip8.Message
