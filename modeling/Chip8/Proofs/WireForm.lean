/-
What a message looks like on the wire, and that this says which message it is.

MessagePack has several forms for one number and for one length: in the marker,
or in one, two, four or eight bytes after it (`Header`). `Message.Written` is the
form a message has to take: a map of its five fields in their order, each under
its name, every number and length in the shortest form there is, and nil for a
screen that is absent. It is said with markers alone, apart from the functions
that write them.

`wire_round_trip`: a message is written in that form, reads back from it
whatever follows, and shares it with no other message.
-/
import Chip8.Proofs.RoundTrip

namespace Chip8.Wire

/-- A number or a length, in one of the forms that a kind of marker has for it. -/
inductive Header (kind : Extent → Marker) (n : Nat) : List UInt8 → Prop
  | inline {b : UInt8} (hb : Marker.ofByte b = kind (.inline n)) : Header kind n [b]
  | following {b : UInt8} {k : Nat} (hb : Marker.ofByte b = kind (.following k)) (hn : n < Nat.pow 256 k) :
    Header kind n (b :: bigEndian k n)

/-- A form that no other form is shorter than. -/
def Shortest (Form : List UInt8 → Prop) (bytes : List UInt8) : Prop :=
  Form bytes ∧ ∀ other, Form other → bytes.length ≤ other.length

section

variable {kind : Extent → Marker} {n : Nat} {b : UInt8}

theorem Header.length_pos {bytes : List UInt8} (h : Header kind n bytes) : 0 < bytes.length := by
  cases h <;> exact Nat.succ_pos _

theorem shortest_inline (hb : Marker.ofByte b = kind (.inline n)) : Shortest (Header kind n) [b] :=
  ⟨.inline hb, fun _ h => h.length_pos⟩

/-- Bytes after the marker are as few as they can be, if no marker holds the
number and no fewer bytes do. -/
theorem shortest_following {k : Nat} (hb : Marker.ofByte b = kind (.following k)) (hn : n < Nat.pow 256 k)
    (hinline : ∀ c, Marker.ofByte c ≠ kind (.inline n))
    (hfewer : ∀ c j, Marker.ofByte c = kind (.following j) → j < k → Nat.pow 256 j ≤ n) :
    Shortest (Header kind n) (b :: bigEndian k n) := by
  refine ⟨.following hb hn, fun other h => ?_⟩
  cases h with
  | inline hc => exact absurd hc (hinline _)
  | @following c j hc hj =>
    have hkj : k ≤ j := by
      rcases Nat.lt_or_ge j k with hlt | hge
      · exact absurd hj (Nat.not_lt.mpr (hfewer c j hc hlt))
      · exact hge
    simpa using hkj

end

/-! ## The forms there are -/

/-- Where numbers and the lengths of bytes may be found. -/
def Marker.sized : Marker → Bool
  | .unsigned (.inline n) => n < 0x80
  | .unsigned (.following k) => k == 1 || k == 2 || k == 4 || k == 8
  | .bin (.inline _) => false
  | .bin (.following k) => k == 1 || k == 2 || k == 4
  | _ => true

theorem Marker.sized_ofByte {b : UInt8} {marker : Marker} (h : Marker.ofByte b = marker) :
    marker.sized = true := by
  have hall : ∀ n, n < 256 → (Marker.ofByte (UInt8.ofNat n)).sized = true := by decide +kernel
  have hb := hall b.toNat b.toNat_lt
  rwa [UInt8.ofNat_toNat, h] at hb

theorem unsigned_inline_lt {c : UInt8} {n : Nat} (h : Marker.ofByte c = .unsigned (.inline n)) : n < 0x80 := by
  simpa [Marker.sized] using Marker.sized_ofByte h

theorem unsigned_following {c : UInt8} {k : Nat} (h : Marker.ofByte c = .unsigned (.following k)) :
    k = 1 ∨ k = 2 ∨ k = 4 ∨ k = 8 := by
  simpa [Marker.sized, or_assoc] using Marker.sized_ofByte h

theorem bin_not_inline (c : UInt8) (n : Nat) : Marker.ofByte c ≠ .bin (.inline n) :=
  fun h => nomatch Marker.sized_ofByte h

theorem bin_following {c : UInt8} {k : Nat} (h : Marker.ofByte c = .bin (.following k)) :
    k = 1 ∨ k = 2 ∨ k = 4 := by
  simpa [Marker.sized, or_assoc] using Marker.sized_ofByte h

/-- A number below 65536 is written in the fewest bytes. -/
theorem shortest_writeNat {n : Nat} (h : n < 0x10000) : Shortest (Header .unsigned n) (writeNat n) := by
  unfold writeNat
  split
  next hn =>
    have hbyte : bigEndian 1 n = [UInt8.ofNat n] := by simp [bigEndian]
    rw [hbyte]
    exact shortest_inline (ofByte_number hn)
  next hn =>
    have hinline (c : UInt8) : Marker.ofByte c ≠ .unsigned (.inline n) := fun hc => hn (unsigned_inline_lt hc)
    split
    next hn =>
      refine shortest_following (k := 1) rfl hn hinline fun c j hc hj => ?_
      rcases unsigned_following hc with rfl | rfl | rfl | rfl <;> omega
    next hn =>
      refine shortest_following (k := 2) rfl h hinline fun c j hc hj => ?_
      rcases unsigned_following hc with rfl | rfl | rfl | rfl
      · exact Nat.not_lt.mp hn
      all_goals omega

/-- Bytes are written under the shortest header that holds their number. -/
theorem shortest_writeBin {bytes : List UInt8} (h : bytes.length < 4294967296) :
    ∃ header, Shortest (Header .bin bytes.length) header ∧ writeBin bytes = header ++ bytes := by
  refine ⟨_, ?_, rfl⟩
  have hinline (c : UInt8) := bin_not_inline c bytes.length
  split
  next hn =>
    refine shortest_following (k := 1) rfl hn hinline fun c j hc hj => ?_
    rcases bin_following hc with rfl | rfl | rfl <;> omega
  next hone =>
    split
    next hn =>
      refine shortest_following (k := 2) rfl hn hinline fun c j hc hj => ?_
      rcases bin_following hc with rfl | rfl | rfl
      · exact Nat.not_lt.mp hone
      all_goals omega
    next htwo =>
      refine shortest_following (k := 4) rfl h hinline fun c j hc hj => ?_
      rcases bin_following hc with rfl | rfl | rfl
      · exact Nat.not_lt.mp hone
      · exact Nat.not_lt.mp htwo
      · omega

end Chip8.Wire

namespace Chip8.Message

open Wire

/-! ## The form of a message -/

/-- The screen is one that a length of four bytes can announce. -/
def Fits (m : Message) : Prop := ∀ bytes, m.screen = some bytes → bytes.length < 4294967296

/-- The value of a field. -/
def Value (m : Message) : Key → List UInt8 → Prop
  | .sound, value => ∃ b, Marker.ofByte b = .bool m.sound ∧ value = [b]
  | .keys, value => Shortest (Header .unsigned m.keys.toNat) value
  | .screen, value =>
    match m.screen with
    | none => ∃ b, Marker.ofByte b = .nil ∧ value = [b]
    | some bytes => ∃ header, Shortest (Header .bin bytes.length) header ∧ value = header ++ bytes
  | .width, value => Shortest (Header .unsigned m.width.toNat) value
  | .height, value => Shortest (Header .unsigned m.height.toNat) value

/-- Some fields one after the other, each as its name and its value. -/
inductive Entries (m : Message) : List Key → List UInt8 → Prop
  | nil : Entries m [] []
  | cons {key : Key} {keys : List Key} {header value later : List UInt8}
    (hname : Shortest (Header .str key.bytes.length) header) (hvalue : m.Value key value)
    (hlater : Entries m keys later) : Entries m (key :: keys) (header ++ key.bytes ++ value ++ later)

/-- The form a message takes on the wire. -/
def Written (m : Message) (bytes : List UInt8) : Prop :=
  ∃ header entries, Shortest (Header .map Key.all.length) header ∧ m.Entries Key.all entries ∧
    bytes = header ++ entries

/-- An entry as it is written. -/
theorem Entries.write {m : Message} {key : Key} {keys : List Key} {value later : List UInt8}
    (hvalue : m.Value key value) (hlater : m.Entries keys later) :
    m.Entries (key :: keys) (writeStr key.bytes ++ (value ++ later)) := by
  have hname : Shortest (Header .str key.bytes.length) [UInt8.ofNat (0xA0 + key.bytes.length)] :=
    shortest_inline (ofByte_text key.length_bytes_lt)
  simpa [writeStr] using Entries.cons hname hvalue hlater

theorem value_sound (m : Message) : m.Value .sound (writeBool m.sound) := by
  refine ⟨_, ?_, rfl⟩
  cases m.sound <;> rfl

theorem value_screen {m : Message} (h : m.Fits) : m.Value .screen (writeScreen m.screen) := by
  unfold Value
  dsimp only
  split
  next hnone => exact ⟨0xC0, rfl, by rw [hnone]; rfl⟩
  next bytes hsome =>
    rw [hsome]
    exact shortest_writeBin (h bytes hsome)

theorem written_encode {m : Message} (h : m.Fits) : m.Written m.encode := by
  have hkeys : m.keys.toNat < 0x10000 := m.keys.toNat_lt
  have hwidth : m.width.toNat < 0x100 := m.width.toNat_lt
  have hheight : m.height.toNat < 0x100 := m.height.toNat_lt
  have hentries : m.Entries Key.all
      (writeStr Key.sound.bytes ++ (writeBool m.sound ++ (writeStr Key.keys.bytes ++ (writeNat m.keys.toNat ++
        (writeStr Key.screen.bytes ++ (writeScreen m.screen ++ (writeStr Key.width.bytes ++
          (writeNat m.width.toNat ++ (writeStr Key.height.bytes ++ (writeNat m.height.toNat ++ [])))))))))) :=
    .write m.value_sound <| .write (shortest_writeNat hkeys) <| .write (value_screen h) <|
      .write (shortest_writeNat (by omega)) <| .write (shortest_writeNat (by omega)) .nil
  refine ⟨[0x85], _, shortest_inline rfl, hentries, ?_⟩
  simp [encode]

/-! ## There and back -/

/-- **A message survives the wire.** It is written in the form it has to take,
reads back from it whatever follows, and no other message is written the same. -/
theorem wire_round_trip (m : Message) (hm : m.Fits) :
    m.Written m.encode ∧ (∀ rest, decode (m.encode ++ rest) = .ok m) ∧
      ∀ other : Message, other.Fits → other.encode = m.encode → other = m := by
  refine ⟨written_encode hm, decode_encode hm, fun other hother hsame => ?_⟩
  have hback : decode (other.encode ++ []) = .ok m := hsame ▸ decode_encode hm []
  exact Except.ok.inj ((decode_encode hother []).symm.trans hback)

/-- A screen of 256 bytes is the first that needs a length of two, and the keys are past a byte as well. -/
theorem wire_round_trip_standard :
    let m : Message :=
      { sound := true, keys := 0x8100, screen := some (List.replicate 256 0), width := 64, height := 32 }
    m.Fits ∧ m.Written m.encode ∧ (∀ rest, decode (m.encode ++ rest) = .ok m) ∧
      ∀ other : Message, other.Fits → other.encode = m.encode → other = m := by
  intro m
  have hm : m.Fits := by
    rintro _ ⟨⟩
    rw [List.length_replicate]
    decide
  exact ⟨hm, wire_round_trip m hm⟩

end Chip8.Message
