/-
Memory is one array of 4096 bytes, however it is accessed (`memory_one_array`).

A region is a run of its cells, so what was loaded into one can be read byte by byte,
through the other region where the two overlap, or word by word. Where the regions lie is
settled when memory is made, and nothing moves them (`changeAll_span?`): the glyphs may be
cut off at the end of memory, and the program may have a single byte.

Bytes are taken modulo the size of memory, and so are the two bytes of a word that is
written; a word is read only if both of its bytes are before the end.
-/
import Chip8.Proofs.Actions
import Chip8.Proofs.Restart
import Chip8.Proofs.StepOutcome

namespace Chip8

/-- Where a region lies in memory that was made for two addresses. -/
def Region.place (font program : UInt16) : Region → Option Span
  | .charset => some ⟨font.toNat % 4096, min (font.toNat % 4096 + 80) 4096⟩
  | .program => some ⟨program.toNat % 4096, 4096⟩
  | .unmapped => none

namespace Memory

/-- A change of memory. -/
inductive Change where
  | load (region : Region) (data : List UInt8)
  | clear (region : Region)
  | write (address : UInt16) (value : UInt8)
  | writeWord (address : UInt16) (word : UInt16)
deriving DecidableEq, Repr

/-- Memory after a change, or why it is refused. -/
def change (m : Memory) : Change → Except Fault Memory
  | .load r data => m.loadRegion r data
  | .clear r => .ok (m.clearRegion r)
  | .write address value => .ok (m.write address value)
  | .writeWord address word => .ok (m.writeWord address word)

/-- Memory after some changes, one after the other. -/
def changeAll (m : Memory) (changes : List Change) : Memory :=
  changes.foldl (fun m change => orKeep m (m.change change)) m

/-- What is read from a run of cells, byte by byte. -/
def bytesOf (m : Memory) (s : Span) : List UInt8 :=
  (List.range s.length).map fun k => m.read (UInt16.ofNat (s.start + k))

/-- Memory with data at the start of a run of cells. -/
def withData (m : Memory) (s : Span) (data : List UInt8) : Memory :=
  { m with cells := blit m.cells s.start data }

/-! ## Where the regions lie -/

theorem span?_congr {m n : Memory} (hc : n.charsetBase = m.charsetBase) (hp : n.programBase = m.programBase)
    (r : Region) : n.span? r = m.span? r := by
  cases r with
  | charset => simp only [span?, hc]
  | program => simp only [span?, hp]
  | unmapped => rfl

theorem span?_new (font program : UInt16) (r : Region) : (new font program).span? r = r.place font program := by
  cases r <;> rfl

/-- A region is in memory. -/
theorem span_in_memory {m : Memory} {r : Region} {s : Span} (h : m.span? r = some s) :
    s.start ≤ s.stop ∧ s.stop ≤ memorySize := by
  cases r with
  | charset =>
    cases h
    have := m.charsetBase.isLt
    dsimp only
    omega
  | program =>
    cases h
    have := m.programBase.isLt
    dsimp only
    omega
  | unmapped => cases h

theorem change_span? (m : Memory) (change : Change) (r : Region) :
    (orKeep m (m.change change)).span? r = m.span? r := by
  cases change with
  | load r' data =>
    cases h : m.loadRegion r' data with
    | ok n =>
      obtain ⟨hc, hp⟩ := loadRegion_bases h
      simp only [change, h, orKeep]
      exact span?_congr hc hp r
    | error fault => simp only [change, h, orKeep]
  | clear r' => exact span?_congr (m.clearRegion_charsetBase r') (m.clearRegion_programBase r') r
  | write a value => exact span?_congr rfl rfl r
  | writeWord a word => exact span?_congr rfl rfl r

/-- Nothing moves a region. -/
theorem changeAll_span? (m : Memory) (changes : List Change) (r : Region) :
    (m.changeAll changes).span? r = m.span? r := by
  induction changes generalizing m with
  | nil => rfl
  | cons change changes ih => exact (ih _).trans (m.change_span? change r)

/-! ## Runs of cells -/

theorem read_ofNat (m : Memory) {i : Nat} (hi : i < memorySize) : m.read (UInt16.ofNat i) = m.cells[i] := by
  have hcell : cell (UInt16.ofNat i) = ⟨i, hi⟩ := by
    simp only [memorySize] at hi
    simp only [cell, UInt16.toNat_ofNat', memorySize, Fin.mk.injEq]
    omega
  exact congrArg m.cells.get hcell

@[simp] theorem length_bytesOf (m : Memory) (s : Span) : (m.bytesOf s).length = s.length := by
  rw [bytesOf, List.length_map, List.length_range]

theorem getElem_bytesOf (m : Memory) {s : Span} {k : Nat} (hk : k < (m.bytesOf s).length)
    (hin : s.start + k < memorySize) : (m.bytesOf s)[k] = m.cells[s.start + k] := by
  simp only [bytesOf, List.getElem_map, List.getElem_range, read_ofNat m hin]

/-- A region reads as its run of cells. -/
theorem region?_of_span {m : Memory} {r : Region} {s : Span} (h : m.span? r = some s) :
    m.region? r = some (m.bytesOf s) := by
  obtain ⟨hstart, hstop⟩ := span_in_memory h
  have hbytes : (m.cells.toArray.extract s.start s.stop).toList = m.bytesOf s := by
    refine List.ext_getElem (by simp [Span.length]; omega) fun k hk hk' => ?_
    have hin : s.start + k < memorySize := by
      rw [length_bytesOf, Span.length] at hk'
      omega
    rw [getElem_bytesOf m hk' hin]
    simp
  simp only [region?, h, Option.bind_some, slice?, if_pos (And.intro hstart hstop), hbytes]

/-- Data at the start of a run of cells, and then what was there. -/
theorem bytesOf_withData (m : Memory) {s : Span} (hs : s.stop ≤ memorySize) {data : List UInt8}
    (hfits : data.length ≤ s.length) :
    (m.withData s data).bytesOf s = data ++ (m.bytesOf s).drop data.length := by
  refine List.ext_getElem (by simp; omega) fun k hk hk' => ?_
  have hin : s.start + k < memorySize := by
    rw [length_bytesOf, Span.length] at hk
    omega
  rw [getElem_bytesOf _ hk hin, withData, getElem_blit _ _ _ hin, List.getElem_append]
  by_cases hdata : k < data.length
  · rw [if_pos (by omega), dif_pos hdata, Nat.add_sub_cancel_left]
    simp [hdata]
  · have hback : s.start + (data.length + (k - data.length)) = s.start + k := by omega
    rw [if_neg (by omega), dif_neg hdata, List.getElem_drop, getElem_bytesOf]
    · simp only [hback]
    · rwa [hback]

/-! ## Loading and clearing -/

section

variable {m : Memory} {r : Region} {s : Span} (h : m.span? r = some s)
include h

theorem loadRegion_of_fits {data : List UInt8} (hfits : data.length ≤ s.length) :
    m.loadRegion r data = .ok (m.withData s data) := by
  simp only [loadRegion, h, if_pos hfits, withData]

theorem loadRegion_of_long {data : List UInt8} (hlong : s.length < data.length) :
    m.loadRegion r data = .error (.romTooLarge data.length s.length) := by
  simp only [loadRegion, h, if_neg (Nat.not_le_of_lt hlong)]

theorem region?_withData {data : List UInt8} (hfits : data.length ≤ s.length) :
    (m.withData s data).region? r = some (data ++ (m.bytesOf s).drop data.length) := by
  have hspan : (m.withData s data).span? r = some s := (span?_congr rfl rfl r).trans h
  rw [region?_of_span hspan, m.bytesOf_withData (span_in_memory h).2 hfits]

theorem sameOutside_withData {data : List UInt8} (hfits : data.length ≤ s.length) :
    m.SameOutside (m.withData s data) r := by
  intro i hi hout
  have hoff : ¬ (s.start ≤ i ∧ i < s.start + data.length) := fun hin => hout s h (by
    rw [Span.length] at hfits
    omega)
  rw [withData, getElem_blit _ _ _ hi, if_neg hoff]

theorem region?_clearRegion : (m.clearRegion r).region? r = some (List.replicate s.length 0) := by
  have hspan : (m.clearRegion r).span? r = some s :=
    (span?_congr (m.clearRegion_charsetBase r) (m.clearRegion_programBase r) r).trans h
  have hstop := (span_in_memory h).2
  rw [region?_of_span hspan]
  refine congrArg some (List.ext_getElem (by simp) fun k hk _ => ?_)
  rw [length_bytesOf, Span.length] at hk
  have hin : s.start + k < memorySize := by omega
  have hinside : s.start ≤ s.start + k ∧ s.start + k < s.stop := by omega
  rw [getElem_bytesOf _ _ hin, getElem_clearRegion m r hin, h, List.getElem_replicate]
  exact if_pos hinside

theorem sameOutside_clearRegion : m.SameOutside (m.clearRegion r) r := by
  intro i hi hout
  rw [getElem_clearRegion m r hi, h]
  exact (if_neg (hout s h)).symm

end

/-! ## Words -/

theorem toNat_highByte (word : UInt16) : (highByte word).toNat = word.toNat / 256 := by
  have := word.toNat_lt
  rw [highByte, UInt8.toNat_ofNat']
  omega

theorem toNat_lowByte (word : UInt16) : (lowByte word).toNat = word.toNat % 256 := UInt8.toNat_ofNat'

/-- The two bytes of a word are in different cells, wherever it is. -/
theorem cell_add_one_ne (a : UInt16) : cell (a + 1) ≠ cell a := by
  intro heq
  have hval := congrArg Fin.val heq
  have hnext : (a + 1).toNat = (a.toNat + 1) % 65536 := UInt16.toNat_add a 1
  simp only [cell, hnext, memorySize] at hval
  omega

theorem read_writeWord (m : Memory) (a word b : UInt16) :
    (m.writeWord a word).read b =
      if cell (a + 1) = cell b then lowByte word else if cell a = cell b then highByte word else m.read b := by
  rw [writeWord, read_write, read_write]

theorem toNat_readWord (m : Memory) (a : UInt16) :
    (m.readWord a).map UInt16.toNat =
      if a.toNat ≤ 0xFFE then some (256 * (m.read a).toNat + (m.read (a + 1)).toNat) else none := by
  split
  · next hle => rw [m.readWord_of_le hle, Option.map_some, toNat_wordOfBytes, Nat.mul_comm]
  · next hlt => rw [m.readWord_of_lt (Nat.lt_of_not_le hlt), Option.map_none]

/-! ## One array -/

/-- **Memory is one array of 4096 bytes,** whatever was loaded, cleared and written since it
was made. Its regions lie where they were put, and read as the bytes of their cells. Data
that fits a region goes to its start and changes no byte after it, nor outside the region;
data that does not fit is refused with its length and the room there is, and changes
nothing. Clearing zeroes the region and no other byte. The region that is nowhere takes
everything and changes nothing. A word is read from two bytes before the end of memory, the
high one first, and written to two bytes at any address, the second one at the first cell if
need be; no other byte changes. -/
theorem memory_one_array (font program : UInt16) (changes : List Change) :
    let m := (new font program).changeAll changes
    (∀ r s, r.place font program = some s →
      m.span? r = some s ∧ m.region? r = some (m.bytesOf s) ∧
      (∀ data, data.length ≤ s.length → ∃ n, m.loadRegion r data = .ok n ∧
        n.region? r = some (data ++ (m.bytesOf s).drop data.length) ∧ m.SameOutside n r) ∧
      (∀ data, s.length < data.length →
        m.loadRegion r data = .error (.romTooLarge data.length s.length) ∧
          orKeep m (m.loadRegion r data) = m) ∧
      (m.clearRegion r).region? r = some (List.replicate s.length 0) ∧
      m.SameOutside (m.clearRegion r) r) ∧
    (∀ data, m.loadRegion .unmapped data = .ok m) ∧ m.clearRegion .unmapped = m ∧
    (∀ (a b : UInt16) (value : UInt8), (m.write a value).read b =
      if a.toNat % 4096 = b.toNat % 4096 then value else m.read b) ∧
    (∀ a, (m.readWord a).map UInt16.toNat =
      if a.toNat ≤ 0xFFE then some (256 * (m.read a).toNat + (m.read (a + 1)).toNat) else none) ∧
    ∀ a word : UInt16,
      ((m.writeWord a word).read a).toNat = word.toNat / 256 ∧
      ((m.writeWord a word).read (a + 1)).toNat = word.toNat % 256 ∧
      ∀ b : UInt16, b.toNat % 4096 ≠ a.toNat % 4096 → b.toNat % 4096 ≠ (a + 1).toNat % 4096 →
        (m.writeWord a word).read b = m.read b := by
  intro m
  refine ⟨fun r s hplace => ?_, fun _ => rfl, rfl, fun a b value => ?_, m.toNat_readWord,
    fun a word => ⟨?_, ?_, fun b hfirst hsecond => ?_⟩⟩
  · have hspan : m.span? r = some s := by rw [changeAll_span?, span?_new, hplace]
    refine ⟨hspan, region?_of_span hspan, fun data hfits => ?_, fun data hlong => ?_, region?_clearRegion hspan,
      sameOutside_clearRegion hspan⟩
    · exact ⟨_, loadRegion_of_fits hspan hfits, region?_withData hspan hfits, sameOutside_withData hspan hfits⟩
    · have hrefused := loadRegion_of_long hspan hlong
      exact ⟨hrefused, by rw [hrefused]; rfl⟩
  · simp only [read_write, Fin.ext_iff]
    rfl
  · rw [read_writeWord, if_neg (cell_add_one_ne a), if_pos rfl, toNat_highByte]
  · rw [read_writeWord, if_pos rfl, toNat_lowByte]
  · have hne : ∀ c : UInt16, b.toNat % 4096 ≠ c.toNat % 4096 → cell c ≠ cell b := fun c hc heq =>
      hc (congrArg Fin.val heq).symm
    rw [read_writeWord, if_neg (hne (a + 1) hsecond), if_neg (hne a hfirst)]

/-- Glyphs and program at the last cell of memory: each region has this one byte, and they
are the same. A word at the last address goes to this cell and to the first one. -/
theorem memory_one_array_lastCell :
    let m := (new 0xFFF 0xFFF).changeAll [.clear .charset, .write 0x1FFE 0x12, .load .program [7, 8]]
    let n := m.writeWord 0xFFFF 0xABCD
    Region.place 0xFFF 0xFFF .charset = some ⟨0xFFF, 0x1000⟩ ∧
      (∃ loaded, m.loadRegion .charset [9] = .ok loaded ∧ loaded.region? .charset = some [9]) ∧
      m.loadRegion .program [1, 2] = .error (.romTooLarge 2 1) ∧
      (m.clearRegion .charset).region? .charset = some [0] ∧
      (m.readWord 0xFFF).map UInt16.toNat = none ∧
      (n.read 0xFFFF).toNat = 0xAB ∧ (n.read 0).toNat = 0xCD ∧ n.read 0xFFE = m.read 0xFFE := by
  intro m n
  obtain ⟨hregions, -, -, -, hreadWord, hwriteWord⟩ := memory_one_array 0xFFF 0xFFF
    [.clear .charset, .write 0x1FFE 0x12, .load .program [7, 8]]
  obtain ⟨-, -, hload, -, hclear, -⟩ := hregions .charset ⟨0xFFF, 0x1000⟩ (by decide)
  obtain ⟨-, -, -, hrefused, -⟩ := hregions .program ⟨0xFFF, 0x1000⟩ (by decide)
  obtain ⟨loaded, hloaded, hbytes, -⟩ := hload [9] (by decide)
  obtain ⟨hhigh, hlow, hrest⟩ := hwriteWord 0xFFFF 0xABCD
  have hdrop : (m.bytesOf ⟨0xFFF, 0x1000⟩).drop 1 = [] := List.drop_of_length_le (by rw [length_bytesOf]; decide)
  refine ⟨by decide, ⟨loaded, hloaded, ?_⟩, (hrefused [1, 2] (by decide)).1, hclear, hreadWord 0xFFF, hhigh, hlow,
    hrest 0xFFE (by decide) (by decide)⟩
  rw [hbytes]
  show some ([9] ++ (m.bytesOf ⟨0xFFF, 0x1000⟩).drop 1) = some [9]
  rw [hdrop, List.append_nil]

end Memory

end Chip8
