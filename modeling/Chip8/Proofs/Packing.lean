/-
Packing a screen loses nothing (`pack_lossless`). The bytes are read bit by bit, from
the highest bit of the first one on: bit `k` is the pixel that is stored at place `k`,
and the bits past the last pixel are dark. The rows need not begin at a byte, so the
point of place `k` is found by dividing by the width, and its byte by dividing by eight.

A machine on plain arrays builds these bytes pixel by pixel, each one put into its place
with what is there already; it ends up with the same.
-/
import Chip8.Proofs.Flatten
import Mathlib.Algebra.Order.Floor.Div

namespace Chip8.Screen

/-- Bit `k` of some bytes, counted from the highest bit of the first byte; there is none
past the last byte. -/
def bitAt? (bytes : List UInt8) (k : Nat) : Option Bool :=
  bytes[k / 8]?.map fun byte => byte.toNat.testBit (7 - k % 8)

/-- Every bit of a packed screen is a pixel, or dark. -/
theorem bitAt?_pack (s : Screen) {k : Nat} (hk : k < 8 * s.pack.length) :
    bitAt? s.pack k = some (s.pixels.getD k false) := by
  have hbyte : k / 8 < s.pack.length := Nat.div_lt_of_lt_mul hk
  have hoctet : s.pack[k / 8] = octet fun b => s.pixels.getD (8 * (k / 8) + b) false := by
    simp [pack]
  rw [bitAt?, List.getElem?_eq_getElem hbyte, hoctet, Option.map_some,
    testBit_octet _ (Nat.mod_lt k (by decide)), Nat.div_add_mod]

/-- There is a bit for every pixel. -/
theorem lt_bits_pack (s : Screen) {k : Nat} (hk : k < s.width * s.height) : k < 8 * s.pack.length := by
  rw [length_pack]
  omega

/-- Packed screens of the same size are told apart by their pixels. -/
theorem pack_eq_iff {s t : Screen} (hw : t.width = s.width) (hh : t.height = s.height) :
    t.pack = s.pack ↔ ∀ x y, t.lit x y = s.lit x y := by
  constructor
  · intro hpack x y
    have hsame : t = s := by rw [← unpack_pack t, hpack, hw, hh, unpack_pack]
    rw [hsame]
  · intro hlit
    rw [ext_lit hw hh hlit]

/-- **Packing loses nothing.** A screen of any size packs to as many bytes as its pixels
take, eight to a byte, the last byte filled up. The pixel of place `k` is bit `7 - k % 8`
of byte `k / 8`, and all other bits are dark, so screens of the same size pack to the same
bytes exactly if they have the same pixels. Putting one pixel after the other into bytes
that are zero at first comes to the same, and never goes past the last byte. -/
theorem pack_lossless (s : Screen) :
    s.pack.length = s.width * s.height ⌈/⌉ 8 ∧
    (∀ k < s.width * s.height, bitAt? s.pack k = some (s.lit (k % s.width) (k / s.width))) ∧
    (∀ k, s.width * s.height ≤ k → k < 8 * s.pack.length → bitAt? s.pack k = some false) ∧
    (∀ t : Screen, t.width = s.width → t.height = s.height →
      (t.pack = s.pack ↔ ∀ x y, t.lit x y = s.lit x y)) ∧
    ∀ m : Machine, m.screen = s → m.flatten.pack = .ok s.pack.toArray := by
  refine ⟨s.length_pack, fun k hk => ?_, fun k hpast hk => ?_, fun t => pack_eq_iff, fun m hm => ?_⟩
  · rw [s.bitAt?_pack (s.lt_bits_pack hk), s.lit_mod_div hk]
  · have hdark : s.pixels.getD k false = false := by
      rw [Array.getD_eq_getD_getElem?, Array.getElem?_eq_none (by rwa [s.size_eq]), Option.getD_none]
    rw [s.bitAt?_pack hk, hdark]
  · rw [m.pack_flatten, hm, ← Machine.packedUpTo_full, Array.toArray_toList]

/-- Nine pixels take two bytes. The last one is lit, and the rest of its byte is dark. -/
theorem pack_lossless_corner :
    let s := ((new 3 3 (by decide)).flipAll [(2, 2)]).1
    s.pack.length = 2 ∧ bitAt? s.pack 8 = some true ∧ bitAt? s.pack 15 = some false ∧
      s.pack ≠ (new 3 3 (by decide)).pack ∧ ({ screen := s } : Machine).flatten.pack = .ok #[0x00, 0x80] := by
  intro s
  obtain ⟨hlength, hpixels, hdark, hsame, hloop⟩ := s.pack_lossless
  have hbytes : s.pack.toArray = #[0x00, 0x80] := by decide
  refine ⟨hlength.trans (by decide), (hpixels 8 (by decide)).trans (by decide), hdark 15 (by decide) (by decide),
    fun hpack => ?_, hbytes ▸ hloop { screen := s } rfl⟩
  have hcorner := (hsame (new 3 3 (by decide)) (by decide) (by decide)).mp hpack.symm 2 2
  exact absurd hcorner (by decide)

end Chip8.Screen
