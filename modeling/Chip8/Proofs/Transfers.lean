/-
Bytes moved between registers and memory. Addresses count up from the index and wrap at
the end of memory, so a transfer of up to 4096 bytes meets no cell twice: each byte is
found again where it was written (`Memory.byteAt_writeAll`), and no other cell changes.

Hence writing registers out and reading them back are inverse (`store_load_inverse`), and
the digits that a conversion to decimal writes can be read into the first registers, where
they make up the number again (`decimal_reads_back`).
-/
import Chip8.Proofs.Footprint
import Chip8.Proofs.Sprites

namespace Chip8

/-! ## Memory -/

namespace Memory

variable (m : Memory)

theorem byteAt_congr {i j : Nat} (h : i % memorySize = j % memorySize) : m.byteAt i = m.byteAt j := by
  simp only [byteAt, h]

theorem byteAt_write (a : UInt16) (value : UInt8) : (m.write a value).byteAt a.toNat = value :=
  Vector.getElem_set_self (cell a).isLt

theorem byteAt_writeAll_of_ne (a : UInt16) (data : List UInt8) {n : Nat}
    (h : ∀ k < data.length, n % memorySize ≠ (a.toNat + k) % memorySize) :
    (m.writeAll a data).byteAt n = m.byteAt n :=
  m.getElem_writeAll_of_ne a data (Nat.mod_lt _ (by decide)) h

/-- Data that is not longer than memory is read back byte by byte. -/
theorem byteAt_writeAll (a : UInt16) (data : List UInt8) (hsize : data.length ≤ memorySize) {k : Nat}
    (hk : k < data.length) : (m.writeAll a data).byteAt (a.toNat + k) = data[k] := by
  induction data generalizing m a k with
  | nil => cases hk
  | cons b bs ih =>
    have hnext : (a + 1).toNat = (a.toNat + 1) % 65536 := UInt16.toNat_add a 1
    simp only [List.length_cons, memorySize] at hsize hk
    cases k with
    | zero =>
      -- The bytes after the first do not come around to its cell.
      have hne : ∀ k < bs.length, a.toNat % memorySize ≠ ((a + 1).toNat + k) % memorySize := by
        intro k hlt
        simp only [memorySize]
        omega
      rw [writeAll, Nat.add_zero, byteAt_writeAll_of_ne _ (a + 1) bs hne, byteAt_write]
      rfl
    | succ k =>
      have hcell : (a.toNat + (k + 1)) % memorySize = ((a + 1).toNat + k) % memorySize := by
        simp only [memorySize]
        omega
      rw [writeAll, byteAt_congr _ hcell, ih (m.write a b) (a + 1) (by simp only [memorySize]; omega) (by omega)]
      rfl

theorem writeAll_eq (a : UInt16) (data : List UInt8) :
    m.writeAll a data = { m with cells := (m.writeAll a data).cells } := by
  obtain ⟨hcharset, hprogram⟩ := m.writeAll_bases a data
  rw [← hcharset, ← hprogram]

end Memory

/-! ## Registers -/

namespace Processor

/-- Where a transfer up to vX leaves the index. -/
def passedIndex (d : Dialect) (index : UInt16) (x : Register) : UInt16 :=
  if d.advancesIndex then index + UInt16.ofNat (x.val + 1) else index

theorem toNat_passedIndex (d : Dialect) (index : UInt16) (x : Register) :
    (passedIndex d index x).toNat =
      if d.strictCosmac && !d.romCompatibility then (index.toNat + (x.val + 1)) % 65536 else index.toNat := by
  have hx := x.isLt
  have hpast : (UInt16.ofNat (x.val + 1)).toNat = x.val + 1 := by
    rw [UInt16.toNat_ofNat']
    omega
  rw [passedIndex, apply_ite UInt16.toNat, UInt16.toNat_add, hpast]
  rfl

variable (c : Processor) (x : Register)

theorem passIndex_eq : c.passIndex x = { c with index := passedIndex c.settings.dialect c.index x } := by
  unfold passIndex passedIndex
  split
  · rfl
  · rfl

theorem storeRegisters_eq :
    c.storeRegisters x =
      { c with
        memory := c.memory.writeAll c.index (c.v.toList.take (x.val + 1))
        index := passedIndex c.settings.dialect c.index x } :=
  passIndex_eq _ x

theorem loadRegisters_eq :
    c.loadRegisters x =
      { c with
        v := Vector.ofFn fun r => if r ≤ x then c.memory.byteAt (c.index.toNat + r.val) else c.get r
        index := passedIndex c.settings.dialect c.index x } := by
  simp only [loadRegisters, Memory.read_add]
  exact passIndex_eq _ x

theorem get_loadRegisters (r : Register) :
    (c.loadRegisters x).get r = if r ≤ x then c.memory.byteAt (c.index.toNat + r.val) else c.get r := by
  rw [loadRegisters_eq]
  exact Vector.getElem_ofFn r.isLt

/-- The registers up to vX are in memory from the index on. -/
theorem byteAt_storeRegisters {r : Register} (h : r ≤ x) :
    (c.storeRegisters x).memory.byteAt (c.index.toNat + r.val) = c.get r := by
  have hr := r.isLt
  have hle : r.val ≤ x.val := h
  have hlength : (c.v.toList.take (x.val + 1)).length = min (x.val + 1) 16 := by simp
  have hsize : (c.v.toList.take (x.val + 1)).length ≤ memorySize := by
    simp only [hlength, memorySize]
    omega
  have hin : r.val < (c.v.toList.take (x.val + 1)).length := by omega
  rw [storeRegisters_eq]
  refine (c.memory.byteAt_writeAll c.index _ hsize hin).trans ?_
  simp [get]

/-- **Writing registers out and reading them back are inverse.** Writing them up to vX
puts each where the index and its number say, wrapped at the end of memory, and changes
nothing else; the index stays, or moves behind the last one on a strict machine that is
not held to compatibility. Whatever becomes of the registers then, reading them from the
same place brings these back and leaves memory and the registers above vX as they are. -/
theorem store_load_inverse (c : Processor) (x : Register) :
    let stored := c.storeRegisters x
    stored = { c with memory := { c.memory with cells := stored.memory.cells }, index := stored.index } ∧
      (∀ r ≤ x, stored.memory.byteAt (c.index.toNat + r.val) = c.get r) ∧
      (∀ n, (∀ k ≤ x.val, n % memorySize ≠ (c.index.toNat + k) % memorySize) →
        stored.memory.byteAt n = c.memory.byteAt n) ∧
      (stored.index.toNat =
        if c.settings.dialect.strictCosmac && !c.settings.dialect.romCompatibility then
          (c.index.toNat + (x.val + 1)) % 65536
        else c.index.toNat) ∧
      ∀ v : Registers,
        let changed := { stored with v, index := c.index }
        let loaded := changed.loadRegisters x
        loaded = { changed with v := loaded.v, index := stored.index } ∧
          ∀ r, loaded.get r = if r ≤ x then c.get r else changed.get r := by
  intro stored
  have hstored : stored = { c with
      memory := c.memory.writeAll c.index (c.v.toList.take (x.val + 1))
      index := passedIndex c.settings.dialect c.index x } := c.storeRegisters_eq x
  refine ⟨?_, fun r => c.byteAt_storeRegisters x, fun n hn => ?_, ?_, fun v => ⟨?_, fun r => ?_⟩⟩
  · rw [hstored]
    exact congrArg (fun memory => { c with memory, index := passedIndex c.settings.dialect c.index x })
      (c.memory.writeAll_eq c.index (c.v.toList.take (x.val + 1)))
  · rw [hstored]
    refine c.memory.byteAt_writeAll_of_ne c.index _ fun k hk => hn k ?_
    rw [List.length_take] at hk
    omega
  · rw [hstored]
    exact toNat_passedIndex c.settings.dialect c.index x
  · rw [loadRegisters_eq, hstored]
  · rw [get_loadRegisters]
    split
    · next hle => exact c.byteAt_storeRegisters x hle
    · rfl

/-- Two registers written from the last cell on, by a strict machine whose index is the
greatest there is: the second one goes to the first cell, and the index to the second. -/
theorem store_load_inverse_wrapping :
    let c : Processor :=
      { settings := { dialect := Dialect.ofStrict true }
        index := 0xFFFF, v := ((Vector.replicate 16 0).set 0 7).set 1 9 }
    let stored := c.storeRegisters 1
    let loaded := { stored with v := Vector.replicate 16 3, index := 0xFFFF }.loadRegisters 1
    stored.memory.byteAt 0xFFF = 7 ∧ stored.memory.byteAt 0 = 9 ∧ stored.memory.byteAt 1 = c.memory.byteAt 1 ∧
      stored.index.toNat = 1 ∧ loaded.get 0 = 7 ∧ loaded.get 1 = 9 ∧ loaded.get 2 = 3 := by
  intro c stored loaded
  obtain ⟨-, hbytes, hrest, hindex, hreload⟩ := c.store_load_inverse 1
  obtain ⟨-, hloaded⟩ := hreload (Vector.replicate 16 3)
  have hlast : 0xFFF % memorySize = (c.index.toNat + (0 : Register).val) % memorySize := by decide
  have hfirst : 0 % memorySize = (c.index.toNat + (1 : Register).val) % memorySize := by decide
  refine ⟨?_, ?_, hrest 1 (by decide), hindex.trans (by decide), hloaded 0, hloaded 1, hloaded 2⟩
  · rw [stored.memory.byteAt_congr hlast]
    exact hbytes 0 (by decide)
  · rw [stored.memory.byteAt_congr hfirst]
    exact hbytes 1 (by decide)

/-! ## Decimal digits -/

theorem toNat_digit (n : Nat) : (UInt8.ofNat (n % 10)).toNat = n % 10 := by
  rw [UInt8.toNat_ofNat']
  omega

/-- What a digit of a number below 1000 is worth at its place, the hundreds first. -/
def digitWorth : Nat → Nat
  | 0 => 100
  | 1 => 10
  | _ => 1

/-- The digits of vX are in memory from the index on. -/
theorem byteAt_writeDecimal {k : Nat} (hk : k < 3) :
    ((c.writeDecimal x).memory.byteAt (c.index.toNat + k)).toNat = (c.get x).toNat / digitWorth k % 10 := by
  show ((c.memory.writeAll c.index [_, _, _]).byteAt (c.index.toNat + k)).toNat = _
  rw [c.memory.byteAt_writeAll c.index _ (by simp [memorySize]) hk]
  have hplace : k = 0 ∨ k = 1 ∨ k = 2 := by omega
  obtain rfl | rfl | rfl := hplace
  · exact toNat_digit ((c.get x).toNat / 100)
  · exact toNat_digit ((c.get x).toNat / 10)
  · show _ = (c.get x).toNat / 1 % 10
    rw [Nat.div_one]
    exact toNat_digit (c.get x).toNat

theorem get_loadRegisters_writeDecimal {r : Register} (hr : r ≤ 2) :
    (((c.writeDecimal x).loadRegisters 2).get r).toNat = (c.get x).toNat / digitWorth r.val % 10 := by
  have hlt : r.val < 3 := Nat.lt_succ_of_le hr
  rw [get_loadRegisters, if_pos hr]
  exact c.byteAt_writeDecimal x hlt

/-- **A number converted to decimal reads back.** The conversion of vX touches three cells
and nothing else. Reading three registers from the same place gives three digits that make
up the number that was in vX, even if vX is one of the three and wherever the cells are. -/
theorem decimal_reads_back (c : Processor) (x : Register) :
    let written := c.writeDecimal x
    let loaded := written.loadRegisters 2
    written = { c with memory := { c.memory with cells := written.memory.cells } } ∧
      (∀ n, (∀ k < 3, n % memorySize ≠ (c.index.toNat + k) % memorySize) →
        written.memory.byteAt n = c.memory.byteAt n) ∧
      (∀ r ≤ 2, (loaded.get r).toNat ≤ 9) ∧
      100 * (loaded.get 0).toNat + 10 * (loaded.get 1).toNat + (loaded.get 2).toNat = (c.get x).toNat := by
  intro written loaded
  have hdigit : ∀ r ≤ 2, (loaded.get r).toNat = (c.get x).toNat / digitWorth r.val % 10 :=
    fun r => c.get_loadRegisters_writeDecimal x
  have hx := (c.get x).toNat_lt
  refine ⟨?_, fun n hn => ?_, fun r hr => ?_, ?_⟩
  · exact congrArg (fun memory => { c with memory }) (c.memory.writeAll_eq c.index _)
  · exact c.memory.byteAt_writeAll_of_ne c.index _ hn
  · rw [hdigit r hr]
    omega
  · rw [hdigit 0 (by decide), hdigit 1 (by decide), hdigit 2 (by decide)]
    simp only [Fin.val_zero, Fin.val_one, Fin.val_two, digitWorth]
    omega

/-- 254 in v1, converted at the end of memory: the last digit goes to the first cell, and
v1 is overwritten by its own second digit. -/
theorem decimal_reads_back_wrapping :
    let c : Processor := { index := 0xFFE, v := (Vector.replicate 16 0).set 1 254 }
    let loaded := (c.writeDecimal 1).loadRegisters 2
    (c.writeDecimal 1).memory.byteAt 1 = c.memory.byteAt 1 ∧
      (loaded.get 1).toNat ≤ 9 ∧
      100 * (loaded.get 0).toNat + 10 * (loaded.get 1).toNat + (loaded.get 2).toNat = 254 := by
  intro c loaded
  obtain ⟨-, hrest, hdigits, hnumber⟩ := c.decimal_reads_back 1
  exact ⟨hrest 1 (by decide), hdigits 1 (by decide), hnumber⟩

end Processor

end Chip8
