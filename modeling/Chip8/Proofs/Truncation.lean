/-
Bytes that break off in the middle of a message.

A reader looks at its bytes from the left and never ahead, so what it has found
does not depend on what may follow. `Steady` says so: a value that was read, and
every refusal but the one that the bytes have ended, stands when more bytes come.
This holds of the reader of messages on any bytes at all, well formed or not
(`steady_takeMessage`), because it composes along a reader's structure.

Hence a message cannot be read from a part of it: a part that gave a message, or
was refused for what it holds, would give the same when the rest of the message
comes, and the whole is read to its last byte. All that is left to find is that
the bytes have ended (`truncation_detected`), wherever the cut is.
-/
import Chip8.Proofs.WireForm

namespace Chip8.Wire

/-- The bytes ended before the value did. -/
def ReadError.AtEnd (e : ReadError) : Prop := e = .invalidMarkerRead ∨ e = .invalidDataRead

/-- What the reader says of some bytes stands whatever follows them, unless it ran
out of bytes. -/
structure Steady {α : Type} (r : Reader α) : Prop where
  found {bytes rest : List UInt8} {a : α} (h : r bytes = .ok (a, rest)) (more : List UInt8) :
    r (bytes ++ more) = .ok (a, rest ++ more)
  refused {bytes : List UInt8} {e : ReadError} (h : r bytes = .error e) (hend : ¬ e.AtEnd) (more : List UInt8) :
    r (bytes ++ more) = .error e

theorem bind_apply {α β : Type} (r : Reader α) (f : α → Reader β) (bytes : List UInt8) :
    (r >>= f) bytes = r bytes >>= fun p => f p.1 p.2 := rfl

namespace Steady

variable {α β : Type}

theorem pure (a : α) : Steady (Pure.pure a : Reader α) where
  found h more := by
    cases h
    rfl
  refused h := nomatch h

theorem throw (e : ReadError) : Steady (MonadExcept.throw e : Reader α) where
  found h := nomatch h
  refused h _ _ := by
    cases h
    rfl

theorem bind {r : Reader α} {f : α → Reader β} (hr : Steady r) (hf : ∀ a, Steady (f a)) : Steady (r >>= f) where
  found {bytes rest b} h more := by
    rw [bind_apply] at h ⊢
    cases hread : r bytes with
    | error e =>
      rw [hread] at h
      cases h
    | ok p =>
      rw [hread] at h
      rw [hr.found hread more]
      exact (hf p.1).found h more
  refused {bytes e} h hend more := by
    rw [bind_apply] at h ⊢
    cases hread : r bytes with
    | error e' =>
      rw [hread] at h
      cases h
      rw [hr.refused hread hend more]
      rfl
    | ok p =>
      rw [hread] at h
      rw [hr.found hread more]
      exact (hf p.1).refused h hend more

theorem map {r : Reader α} (hr : Steady r) (f : α → β) : Steady (f <$> r) := by
  rw [map_eq_pure_bind]
  exact hr.bind fun a => .pure (f a)

theorem discard {r : Reader α} (hr : Steady r) : Steady (Functor.discard r) := hr.map _

/-- A part of what is read to the last byte is not enough. -/
theorem runs_out {r : Reader α} (hr : Steady r) {part more : List UInt8} {a : α}
    (hread : r (part ++ more) = .ok (a, [])) (hmore : more ≠ []) : ∃ e, r part = .error e ∧ e.AtEnd := by
  cases hpart : r part with
  | ok p =>
    -- What the part left over would be left over in the end, and `more` with it.
    have hwhole := hr.found hpart more
    rw [hread, Except.ok.injEq, Prod.mk.injEq] at hwhole
    exact absurd (List.append_eq_nil_iff.mp hwhole.2.symm).2 hmore
  | error e =>
    refine ⟨e, rfl, Classical.byContradiction fun hend => ?_⟩
    rw [hr.refused hpart hend more] at hread
    cases hread

end Steady

/-! ## Values -/

theorem steady_takeMarker : Steady takeMarker where
  found {bytes rest marker} h more := by
    cases bytes with
    | nil => cases h
    | cons b bs =>
      cases h
      rfl
  refused {bytes e} h hend := by
    cases bytes with
    | nil =>
      cases h
      exact absurd (.inl rfl) hend
    | cons b bs => cases h

theorem takeBytes_of_le {n : Nat} {bytes : List UInt8} (h : n ≤ bytes.length) :
    takeBytes n bytes = .ok (bytes.take n, bytes.drop n) := by
  simp [takeBytes, h]

theorem takeBytes_of_lt {n : Nat} {bytes : List UInt8} (h : bytes.length < n) :
    takeBytes n bytes = .error .invalidDataRead := by
  have hshort : min n bytes.length ≠ n := by omega
  simp [takeBytes, hshort]

theorem steady_takeBytes (n : Nat) : Steady (takeBytes n) where
  found {bytes rest front} h more := by
    rcases Nat.lt_or_ge bytes.length n with hlt | hle
    · rw [takeBytes_of_lt hlt] at h
      cases h
    · rw [takeBytes_of_le hle] at h
      cases h
      rw [takeBytes_of_le (by rw [List.length_append]; omega), List.take_append_of_le_length hle,
        List.drop_append_of_le_length hle]
  refused {bytes e} h hend := by
    rcases Nat.lt_or_ge bytes.length n with hlt | hle
    · rw [takeBytes_of_lt hlt] at h
      cases h
      exact absurd (.inr rfl) hend
    · rw [takeBytes_of_le hle] at h
      cases h

theorem steady_takeExtent (e : Extent) : Steady (takeExtent e) := by
  cases e with
  | inline n => exact .pure n
  | following k => exact (steady_takeBytes k).map ofBigEndian

theorem steady_takeScalar : Steady takeScalar := by
  refine steady_takeMarker.bind fun marker => ?_
  cases marker with
  | nil | bool | negative => exact .pure _
  | unsigned e => exact (steady_takeExtent e).bind fun _ => .pure _
  | signed k | float k => exact (steady_takeBytes k).bind fun _ => .pure _
  | str | bin | array | map | ext | reserved => exact .throw _

theorem steady_takeBool : Steady takeBool := by
  refine steady_takeScalar.bind fun scalar => ?_
  cases scalar with
  | bool b => exact .pure b
  | nil | integer | float => exact .throw _

theorem steady_takeBelow (limit : Nat) : Steady (takeBelow limit) := by
  refine steady_takeScalar.bind fun scalar => ?_
  cases scalar with
  | integer i =>
    dsimp only
    split
    · exact .pure _
    · exact .throw _
  | nil | bool | float => exact .throw _

theorem steady_takeMany {α : Type} {read : Reader α} (h : Steady read) (n : Nat) (done : List α) :
    Steady (takeMany read n done) := by
  induction n generalizing done with
  | zero => exact .pure _
  | succ n ih => exact h.bind fun a => ih (a :: done)

theorem steady_repeatM {act : Reader Unit} (h : Steady act) (n : Nat) : Steady (repeatM act n) := by
  induction n with
  | zero => exact .pure _
  | succ n ih => exact h.bind fun _ => ih

theorem steady_skip (budget : Nat) : Steady (skip budget) := by
  induction budget with
  | zero => exact .throw _
  | succ budget ih =>
    refine steady_takeMarker.bind fun marker => ?_
    cases marker with
    | nil | bool | negative => exact .pure _
    | unsigned e => exact (steady_takeExtent e).discard
    | signed k | float k => exact (steady_takeBytes k).discard
    | str e | bin e => exact (steady_takeExtent e).bind fun n => (steady_takeBytes n).discard
    | array e | map e =>
      refine (steady_takeExtent e).bind fun n => ?_
      dsimp only
      split
      · exact .throw _
      · exact steady_repeatM ih _
    | ext e =>
      refine (steady_takeExtent e).bind fun n => ?_
      dsimp only
      split
      · exact .throw _
      · exact (steady_takeBytes 1).bind fun _ => (steady_takeBytes n).discard
    | reserved => exact .throw _

end Chip8.Wire

namespace Chip8.Message

open Wire

/-! ## The parts of a message -/

theorem steady_takeByte : Steady takeByte := (steady_takeBelow 0x100).map UInt8.ofNat

theorem steady_takeScreen : Steady takeScreen := by
  refine steady_takeMarker.bind fun marker => ?_
  cases marker with
  | nil => exact .pure _
  | str e | bin e => exact (steady_takeExtent e).bind fun n => (steady_takeBytes n).bind fun _ => .pure _
  | array e => exact (steady_takeExtent e).bind fun n => (steady_takeMany steady_takeByte n []).bind fun _ => .pure _
  | unsigned e | map e | ext e => exact (steady_takeExtent e).bind fun _ => .throw _
  | signed k | float k => exact (steady_takeBytes k).bind fun _ => .throw _
  | negative | bool | reserved => exact .throw _

theorem steady_takeField (d : Draft) (key : Key) : Steady (takeField d key) := by
  cases key with
  | sound => exact steady_takeBool.bind fun _ => .pure _
  | keys => exact (steady_takeBelow 0x10000).bind fun _ => .pure _
  | screen => exact steady_takeScreen.bind fun _ => .pure _
  | width | height => exact steady_takeByte.bind fun _ => .pure _

theorem steady_takeKey : Steady takeKey := by
  refine steady_takeMarker.bind fun marker => ?_
  cases marker with
  | str e | bin e => exact (steady_takeExtent e).bind fun n => (steady_takeBytes n).bind fun _ => .pure _
  | unsigned e => exact (steady_takeExtent e).bind fun _ => .pure _
  | array e | map e | ext e => exact (steady_takeExtent e).bind fun _ => .throw _
  | signed k | float k => exact (steady_takeBytes k).bind fun _ => .throw _
  | negative | bool | nil | reserved => exact .throw _

theorem steady_takeEntry (d : Draft) : Steady (takeEntry d) := by
  refine steady_takeKey.bind fun key => ?_
  cases key with
  | some key =>
    dsimp only
    split
    · exact .throw _
    · exact steady_takeField d key
  | none => exact (steady_skip _).bind fun _ => .pure d

theorem steady_takeEntries (n : Nat) (d : Draft) : Steady (takeEntries n d) := by
  induction n generalizing d with
  | zero => exact .pure d
  | succ n ih => exact (steady_takeEntry d).bind ih

theorem steady_takeInOrder (n : Nat) (keys : List Key) (d : Draft) : Steady (takeInOrder n keys d) := by
  induction keys generalizing n d with
  | nil =>
    cases n with
    | zero => exact .pure d
    | succ n => exact .throw _
  | cons key keys ih =>
    cases n with
    | zero => exact .throw _
    | succ n => exact (steady_takeField d key).bind (ih n)

theorem steady_finish (d : Draft) : Steady (finish d) := by
  unfold finish
  split
  · exact .pure _
  · exact .throw _

/-- More bytes change nothing about a message that was read, nor about bytes that were
refused for what they hold. -/
theorem steady_takeMessage : Steady takeMessage := by
  refine steady_takeMarker.bind fun marker => ?_
  cases marker with
  | map e => exact (steady_takeExtent e).bind fun n => (steady_takeEntries n {}).bind steady_finish
  | array e => exact (steady_takeExtent e).bind fun n => (steady_takeInOrder n Key.all {}).bind steady_finish
  | str e | bin e => exact (steady_takeExtent e).bind fun n => (steady_takeBytes n).bind fun _ => .throw _
  | unsigned e | ext e => exact (steady_takeExtent e).bind fun _ => .throw _
  | signed k | float k => exact (steady_takeBytes k).bind fun _ => .throw _
  | negative | bool | nil | reserved => exact .throw _

/-! ## Parts of a message -/

/-- A message less some of its last bytes ends too early for its reader. -/
theorem decode_part {m : Message} (hm : m.Fits) {part : List UInt8} (hpart : part <+: m.encode)
    (hne : part ≠ m.encode) : ∃ e, decode part = .error e ∧ e.AtEnd := by
  obtain ⟨more, hmore⟩ := hpart
  have hread : takeMessage (part ++ more) = .ok (m, []) := by
    rw [hmore]
    simpa using takeMessage_encode hm []
  have hcut : more ≠ [] := by
    rintro rfl
    exact hne (by simpa using hmore)
  obtain ⟨e, he, hend⟩ := steady_takeMessage.runs_out hread hcut
  refine ⟨e, ?_, hend⟩
  rw [decode, he]
  rfl

/-- **A part of a message is never taken for a message.** Whatever is missing at the end,
the reader finds that the bytes have ended, at a marker or within a value; it never gives a
message, nor another refusal. So no message is written as the beginning of another one. -/
theorem truncation_detected (m : Message) (hm : m.Fits) :
    (∀ part, part <+: m.encode → part ≠ m.encode →
      decode part = .error .invalidMarkerRead ∨ decode part = .error .invalidDataRead) ∧
    ∀ other : Message, other.Fits → other.encode <+: m.encode → other = m := by
  constructor
  · intro part hpart hne
    obtain ⟨e, he, rfl | rfl⟩ := decode_part hm hpart hne
    · exact .inl he
    · exact .inr he
  · intro other hother hprefix
    have hback : decode other.encode = .ok other := by simpa using decode_encode hother []
    by_cases heq : other.encode = m.encode
    · have hm' : decode m.encode = .ok m := by simpa using decode_encode hm []
      rw [heq, hm'] at hback
      exact (Except.ok.inj hback).symm
    · obtain ⟨e, he, -⟩ := decode_part hm hprefix heq
      rw [hback] at he
      cases he

/-- A screen of 300 bytes: the message is cut within the length of the screen, behind the
name of the next field, and before its last byte. With one byte less of the screen, it is
not the beginning of the message either. -/
theorem truncation_detected_screen :
    let m : Message :=
      { sound := true, keys := 0x8100, screen := some (List.replicate 300 0), width := 64, height := 200 }
    let other : Message := { m with screen := some (List.replicate 299 0) }
    m.Fits ∧ other.Fits ∧ m.encode.length = 354 ∧
      (∀ n ∈ [25, 338, 353], decode (m.encode.take n) = .error .invalidMarkerRead ∨
        decode (m.encode.take n) = .error .invalidDataRead) ∧
      ¬ other.encode <+: m.encode := by
  intro m other
  have hfits (n : Nat) (hn : n < 4294967296) : { m with screen := some (List.replicate n 0) }.Fits := by
    rintro _ ⟨⟩
    rwa [List.length_replicate]
  have hm : m.Fits := hfits 300 (by decide)
  have hother : other.Fits := hfits 299 (by decide)
  have hlength : m.encode.length = 354 := by decide +kernel
  obtain ⟨hparts, hunique⟩ := truncation_detected m hm
  refine ⟨hm, hother, hlength, fun n hn => hparts _ (List.take_prefix _ _) fun heq => ?_, fun hprefix => ?_⟩
  · have hshort : ∀ n ∈ [25, 338, 353], n < 354 := by decide
    have hsame := congrArg List.length heq
    rw [List.length_take, hlength] at hsame
    have := hshort n hn
    omega
  · have hscreen := congrArg Message.screen (hunique other hother hprefix)
    have hlengths := congrArg List.length (Option.some.inj hscreen)
    rw [List.length_replicate, List.length_replicate] at hlengths
    cases hlengths

end Chip8.Message
