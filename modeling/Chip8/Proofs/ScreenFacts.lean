/-
Facts about the screen. Flipping and clearing keep its size, and which points are
lit says all about a screen of known size (`ext_lit`). Packing loses
nothing: bit `7 - k % 8` of byte `k / 8` is pixel `k` (`testBit_pack`), so
unpacking at the same size gives the screen back (`unpack_pack`).
-/
import Chip8.Screen

namespace Chip8.Screen

/-! ## Size -/

theorem flip?_size {s t : Screen} {x y : Nat} {was : Bool} (h : s.flip? x y = some (t, was)) :
    t.width = s.width ∧ t.height = s.height := by
  unfold flip? at h
  obtain ⟨i, -, hi⟩ := Option.map_eq_some_iff.mp h
  cases hi
  exact ⟨rfl, rfl⟩

theorem flipAll_size (s : Screen) (points : List (Nat × Nat)) :
    (s.flipAll points).1.width = s.width ∧ (s.flipAll points).1.height = s.height := by
  unfold flipAll
  refine List.foldlRecOn (motive := fun r : Screen × Bool => r.1.width = s.width ∧ r.1.height = s.height)
    points _ ⟨rfl, rfl⟩ ?_
  rintro ⟨t, hit⟩ ht ⟨x, y⟩ -
  dsimp only
  split
  · next h =>
    obtain ⟨hw, hh⟩ := flip?_size h
    exact ⟨hw.trans ht.1, hh.trans ht.2⟩
  · exact ht

/-! ## Pixels by their points -/

theorem lit_new {width height : Nat} (fits : width * height < planeLimit) (x y : Nat) :
    (new width height fits).lit x y = false := by
  unfold lit
  split
  · simp [new, Array.getD_eq_getD_getElem?, Array.getElem?_replicate]
    split <;> rfl
  · rfl

/-- The plane is stored row after row, so a place in it is a point. -/
theorem lit_mod_div (s : Screen) {k : Nat} (hk : k < s.width * s.height) :
    s.lit (k % s.width) (k / s.width) = s.pixels.getD k false := by
  have hw : 0 < s.width := Nat.pos_of_mul_pos_right (Nat.zero_lt_of_lt hk)
  have hcolumn : k % s.width < s.width := Nat.mod_lt _ hw
  have hline : k / s.width < s.height := Nat.div_lt_of_lt_mul hk
  have hplace : k / s.width * s.width + k % s.width = k := by
    rw [Nat.mul_comm]
    exact Nat.div_add_mod k s.width
  simp [lit, index?, hcolumn, hline, hplace]

/-- A screen is known by its size and by which points are lit. -/
theorem ext_lit {s t : Screen} (hw : s.width = t.width) (hh : s.height = t.height)
    (hlit : ∀ a b, s.lit a b = t.lit a b) : s = t := by
  have hpixels : s.pixels = t.pixels := by
    have hsize : s.pixels.size = t.pixels.size := by rw [s.size_eq, t.size_eq, hw, hh]
    refine Array.ext hsize fun k hs ht => ?_
    have hk : k < s.width * s.height := s.size_eq ▸ hs
    have hk' : k < t.width * t.height := t.size_eq ▸ ht
    have hpoint := hlit (k % s.width) (k / s.width)
    rw [lit_mod_div s hk, hw, lit_mod_div t hk'] at hpoint
    simpa [hs, ht] using hpoint
  cases s
  cases t
  simp_all

/-! ## Packing -/

/-- The number that the first `n` bits spell, the highest first. -/
def spelled (bit : Nat → Bool) (n : Nat) : Nat :=
  (List.range n).foldl (fun acc k => 2 * acc + (bit k).toNat) 0

theorem spelled_succ (bit : Nat → Bool) (n : Nat) :
    spelled bit (n + 1) = 2 * spelled bit n + (bit n).toNat := by
  simp [spelled, List.range_succ]

theorem spelled_congr {f g : Nat → Bool} {n : Nat} (h : ∀ k < n, f k = g k) : spelled f n = spelled g n := by
  induction n with
  | zero => rfl
  | succ n ih =>
    have hrest : spelled f n = spelled g n := ih fun k hk => h k (by omega)
    rw [spelled_succ, spelled_succ, hrest, h n (by omega)]

theorem spelled_lt (bit : Nat → Bool) (n : Nat) : spelled bit n < Nat.pow 2 n := by
  induction n with
  | zero => simp [spelled]
  | succ n ih =>
    have hbit := Bool.toNat_le (bit n)
    have hpow : Nat.pow 2 (n + 1) = Nat.pow 2 n * 2 := rfl
    rw [spelled_succ, hpow]
    omega

/-- Bit `k` of those spelled stands `n - 1 - k` places from the lowest. -/
theorem testBit_spelled (bit : Nat → Bool) {n k : Nat} (hk : k < n) :
    (spelled bit n).testBit (n - 1 - k) = bit k := by
  induction n with
  | zero => omega
  | succ n ih =>
    rw [spelled_succ]
    by_cases h : k = n
    · subst h
      cases bit k <;> simp [Nat.testBit_zero]
    · have hk : k < n := by omega
      rw [show n + 1 - 1 - k = n - 1 - k + 1 by omega, Nat.testBit_succ,
        show (2 * spelled bit n + (bit n).toNat) / 2 = spelled bit n by
          cases bit n <;> simp only [Bool.toNat_false, Bool.toNat_true] <;> omega]
      exact ih hk

/-- The highest bit of a byte comes first. -/
theorem testBit_octet (bit : Nat → Bool) {k : Nat} (hk : k < 8) :
    (octet bit).toNat.testBit (7 - k) = bit k := by
  have hlt : spelled bit 8 < 256 := spelled_lt bit 8
  have hoctet : (octet bit).toNat = spelled bit 8 := by
    simp only [octet, UInt8.toNat_ofNat']
    exact Nat.mod_eq_of_lt hlt
  rw [hoctet]
  exact testBit_spelled bit hk

theorem octet_congr {f g : Nat → Bool} (h : ∀ k < 8, f k = g k) : octet f = octet g :=
  congrArg UInt8.ofNat (spelled_congr h)

@[simp] theorem length_pack (s : Screen) : s.pack.length = (s.width * s.height + 7) / 8 := by
  simp [pack]

/-- Pixel `k` is bit `7 - k % 8` of byte `k / 8`. -/
theorem testBit_pack (s : Screen) {k : Nat} (hk : k < s.width * s.height) :
    (s.pack.toArray.getD (k / 8) 0).toNat.testBit (7 - k % 8) = s.pixels.getD k false := by
  have hj : k / 8 < (s.width * s.height + 7) / 8 := by omega
  have hbyte : s.pack.toArray.getD (k / 8) 0 = octet fun b => s.pixels.getD (8 * (k / 8) + b) false := by
    simp [pack, Array.getD_eq_getD_getElem?, hj]
  rw [hbyte, testBit_octet _ (Nat.mod_lt _ (by decide)), Nat.div_add_mod]

/-- Unpacking gives back what was packed. -/
theorem unpack_pack (s : Screen) : unpack s.width s.height s.pack = s := by
  have hpixels : (unpack s.width s.height s.pack).pixels = s.pixels := by
    refine Array.ext (by simp [unpack, s.size_eq]) fun k hk hk' => ?_
    have hlt : k < s.width * s.height := by simpa [unpack] using hk
    simp only [unpack, Array.getElem_ofFn]
    rw [testBit_pack s hlt]
    simp [hk']
  cases s
  simp only [unpack] at hpixels ⊢
  simp only [hpixels]

end Chip8.Screen
