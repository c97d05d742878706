/-
The key listener on a stream of datagrams. A datagram of two bytes overwrites the keys,
and any other one ends the listener without a change. So of all that comes before the
first malformed datagram only the last one counts, and nothing counts that comes after it
(`listen_stops_at_malformed`).

A datagram is cut to 256 bytes before it is looked at. That makes no malformed one well
formed, but its length is reported as 256 at most.
-/
import Chip8.Proofs.Halting

namespace Chip8.Keypad

/-- The keys that are held after some datagrams of two bytes, as a number: what the last
one says, or those that were held before. -/
def keysAfter (old : Nat) (datagrams : List (List UInt8)) : Nat :=
  (datagrams.getLast?.map Wire.ofBigEndian).getD old

theorem keysAfter_cons (old : Nat) (datagram : List UInt8) (rest : List (List UInt8)) :
    keysAfter old (datagram :: rest) = keysAfter (Wire.ofBigEndian datagram) rest := by
  rw [keysAfter, keysAfter, List.getLast?_cons]
  cases rest.getLast? with
  | none => rfl
  | some last => rfl

/-! ## One datagram -/

variable (s : SharedState)

theorem receive_of_two_bytes {datagram : List UInt8} (h : datagram.length = 2) :
    ∃ keys : UInt16, keys.toNat = Wire.ofBigEndian datagram ∧ receive s datagram = (s.setKeys keys, .ok keys) := by
  match datagram, h with
  | [high, low], _ =>
    refine ⟨wordOfBytes high low, ?_, rfl⟩
    rw [toNat_wordOfBytes]
    simp [Wire.ofBigEndian]

theorem parse_of_malformed {bytes : List UInt8} (h : bytes.length ≠ 2) :
    parse bytes = .error (.malformedKeys bytes.length) := by
  match bytes with
  | [] | [_] | _ :: _ :: _ :: _ => rfl
  | [_, _] => exact absurd rfl h

theorem receive_of_malformed {datagram : List UInt8} (h : datagram.length ≠ 2) :
    receive s datagram = (s, .error (.malformedKeys (min 256 datagram.length))) := by
  have hlength : (datagram.take maxDatagram).length = min 256 datagram.length := List.length_take
  have hcut : (datagram.take maxDatagram).length ≠ 2 := by omega
  rw [receive, parse_of_malformed hcut, hlength]

/-! ## Streams -/

variable {s}

theorem listen_malformed (hrunning : s.running = true) {bad : List UInt8} (hbad : bad.length ≠ 2)
    (rest : List (List UInt8)) :
    listen s (bad :: rest) = (s, .failed (.malformedKeys (min 256 bad.length))) := by
  rw [listen, if_pos hrunning, receive_of_malformed s hbad]

/-- Datagrams of two bytes are taken one after the other, and the listener goes on. -/
theorem listen_append (hrunning : s.running = true) {before : List (List UInt8)}
    (hbefore : ∀ datagram ∈ before, datagram.length = 2) :
    ∃ keys : UInt16, keys.toNat = keysAfter s.keys.toNat before ∧
      ∀ rest, listen s (before ++ rest) = listen (s.setKeys keys) rest := by
  induction before generalizing s with
  | nil => exact ⟨s.keys, rfl, fun _ => rfl⟩
  | cons datagram before ih =>
    obtain ⟨first, hfirst, hreceive⟩ := receive_of_two_bytes s (hbefore datagram List.mem_cons_self)
    have hrunning' : (s.setKeys first).running = true := hrunning
    obtain ⟨keys, hkeys, hlisten⟩ :=
      ih hrunning' fun datagram hmem => hbefore datagram (List.mem_cons_of_mem _ hmem)
    refine ⟨keys, ?_, fun rest => ?_⟩
    · rw [keysAfter_cons, ← hfirst]
      exact hkeys
    · rw [List.cons_append, listen, if_pos hrunning, hreceive]
      exact hlisten rest

/-- The listener's whole life: it listens and logs that, and sends and prints nothing. -/
theorem run_eq (c : Channel) (port : String) (datagrams : List (List UInt8)) :
    ∃ log, run c port datagrams =
      ({ c with shared := (listen c.shared datagrams).1, journal := { c.journal with log } },
       (listen c.shared datagrams).2) := by
  cases hlisten : listen c.shared datagrams with
  | mk shared ending =>
    have hnoted : listen (c.note .info .channel ("listening for key state on 0.0.0.0:" ++ port)).shared
        datagrams = (shared, ending) := hlisten
    simp only [run, hnoted]
    cases ending with
    | stopped | failed | waiting => exact ⟨_, rfl⟩

/-- A stream with a malformed datagram has a first one. -/
theorem exists_first_malformed {datagrams : List (List UInt8)}
    (h : ∃ datagram ∈ datagrams, datagram.length ≠ 2) :
    ∃ before bad later, datagrams = before ++ bad :: later ∧
      (∀ datagram ∈ before, datagram.length = 2) ∧ bad.length ≠ 2 := by
  obtain ⟨bad, hfound⟩ : ∃ bad, datagrams.find? (fun datagram => datagram.length != 2) = some bad :=
    Option.isSome_iff_exists.mp (List.find?_isSome.mpr (by simpa using h))
  obtain ⟨hbad, before, later, heq, hbefore⟩ := List.find?_eq_some_iff_append.mp hfound
  exact ⟨before, bad, later, heq, by simpa using hbefore, by simpa using hbad⟩

/-- **The listener ends with the first malformed datagram.** It reports how long that one
is, up to 256 bytes; the keys are what the last datagram before it says, or as they were
if there is none; nothing else changes, and it does not matter what comes after. A listener
whose machine has stopped ends at once and looks at no datagram. Nothing is ever sent. -/
theorem listen_stops_at_malformed (c : Channel) (port : String) (datagrams : List (List UInt8)) :
    (c.shared.running = true → (∃ datagram ∈ datagrams, datagram.length ≠ 2) →
      ∃ before bad later, datagrams = before ++ bad :: later ∧
        (∀ datagram ∈ before, datagram.length = 2) ∧ bad.length ≠ 2 ∧
        ∃ keys : UInt16, keys.toNat = keysAfter c.shared.keys.toNat before ∧
          ∀ rest, listen c.shared (before ++ bad :: rest) =
            ({ c.shared with keys }, .failed (.malformedKeys (min 256 bad.length)))) ∧
    (c.shared.running = false → listen c.shared datagrams = (c.shared, .stopped)) ∧
    ∃ log, run c port datagrams =
      ({ c with shared := (listen c.shared datagrams).1, journal := { c.journal with log } },
       (listen c.shared datagrams).2) := by
  refine ⟨fun hrunning hmalformed => ?_, fun hstopped => listen_of_stopped hstopped datagrams,
    run_eq c port datagrams⟩
  obtain ⟨before, bad, later, heq, hbefore, hbad⟩ := exists_first_malformed hmalformed
  obtain ⟨keys, hkeys, hlisten⟩ := listen_append hrunning hbefore
  refine ⟨before, bad, later, heq, hbefore, hbad, keys, hkeys, fun rest => ?_⟩
  have hrunning' : (c.shared.setKeys keys).running = true := hrunning
  rw [hlisten]
  exact listen_malformed hrunning' hbad rest

/-- Two keys, then a datagram of 300 bytes, then all keys at once, which is never read. -/
theorem listen_stops_at_malformed_cut :
    let s : SharedState := { keys := 1, sound := true, delay := 7 }
    let long : List UInt8 := List.replicate 300 0
    let datagrams : List (List UInt8) := [[0x80, 0x01], long, [0xFF, 0xFF]]
    (∃ datagram ∈ datagrams, datagram.length ≠ 2) ∧
      listen s datagrams = ({ s with keys := 0x8001 }, .failed (.malformedKeys 256)) := by
  intro s long datagrams
  have hlong : long.length = 300 := List.length_replicate
  clear_value long
  have hmalformed : ∃ datagram ∈ datagrams, datagram.length ≠ 2 :=
    ⟨long, List.mem_cons_of_mem _ List.mem_cons_self, by omega⟩
  obtain ⟨before, bad, later, heq, hbefore, hbad, keys, hkeys, hlisten⟩ :=
    (listen_stops_at_malformed { shared := s } "0" datagrams).1 rfl hmalformed
  refine ⟨hmalformed, ?_⟩
  match before with
  | [] =>
    obtain ⟨rfl, -⟩ := List.cons.inj heq
    exact absurd rfl hbad
  | [first] =>
    obtain ⟨rfl, hrest⟩ := List.cons.inj heq
    obtain ⟨rfl, -⟩ := List.cons.inj hrest
    have hkeys' : keys = 0x8001 := UInt16.toNat_inj.mp hkeys
    have hended := hlisten [[0xFF, 0xFF]]
    rw [hlong, hkeys'] at hended
    exact hended
  | first :: second :: before =>
    obtain ⟨-, hrest⟩ := List.cons.inj heq
    obtain ⟨rfl, -⟩ := List.cons.inj hrest
    have htwo : long.length = 2 := hbefore long (List.mem_cons_of_mem _ List.mem_cons_self)
    omega

end Chip8.Keypad
