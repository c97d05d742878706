/-
The screen: a plane of pixels that a program only ever flips or clears.

Points off the plane are dark and cannot be flipped. `pack` puts eight pixels
into a byte, row after row, the first pixel in the highest bit; the last byte
is filled with dark pixels. `unpack` reads such bytes back.
-/

namespace Chip8

/-- Columns of the standard screen. -/
def standardWidth : Nat := 64

/-- Rows of the standard screen. -/
def standardHeight : Nat := 32

/-- A plane has fewer pixels than this: no more bytes are allocated at once. -/
def planeLimit : Nat := 0x8000000000000000

/-- A plane of pixels, stored row after row from the top left corner. -/
structure Screen where
  width : Nat
  height : Nat
  pixels : Array Bool
  size_eq : pixels.size = width * height
deriving DecidableEq

namespace Screen

/-- A dark screen, of a size for which there is a plane. -/
def new (width height : Nat) (_fits : width * height < planeLimit) : Screen :=
  { width, height, pixels := Array.replicate (width * height) false, size_eq := by simp }

/-- The dark standard screen. -/
def standard : Screen := new standardWidth standardHeight (by decide)

/-- Where the pixel of a point is stored, if the point is on the screen. -/
def index? (s : Screen) (x y : Nat) : Option Nat :=
  if x < s.width ∧ y < s.height then some (y * s.width + x) else none

/-- Whether the pixel at a point is lit. -/
def lit (s : Screen) (x y : Nat) : Bool :=
  match s.index? x y with
  | some i => s.pixels.getD i false
  | none => false

/-- Flips the pixel at a point and tells whether it was lit. A point off the
screen has no pixel. -/
def flip? (s : Screen) (x y : Nat) : Option (Screen × Bool) :=
  (s.index? x y).map fun i =>
    let was := s.pixels.getD i false
    ({ s with pixels := s.pixels.setIfInBounds i (!was), size_eq := by simpa using s.size_eq }, was)

/-- Flips the pixels at some points, one after the other, and tells whether one
of them was lit. Points off the screen are passed over. -/
def flipAll (s : Screen) (points : List (Nat × Nat)) : Screen × Bool :=
  points.foldl (fun (s, hit) (x, y) =>
    match s.flip? x y with
    | some (s, was) => (s, hit || was)
    | none => (s, hit)) (s, false)

/-- Turns every pixel off. -/
def clear (s : Screen) : Screen :=
  { s with pixels := Array.replicate (s.width * s.height) false, size_eq := by simp }

/-- The byte whose bits, from the highest one down, are the given ones. -/
def octet (bit : Nat → Bool) : UInt8 :=
  UInt8.ofNat ((List.range 8).foldl (fun acc k => 2 * acc + (bit k).toNat) 0)

/-- Eight pixels to a byte, the first one in the highest bit. -/
def pack (s : Screen) : List UInt8 :=
  List.ofFn fun j : Fin ((s.width * s.height + 7) / 8) =>
    octet fun k => s.pixels.getD (8 * j.val + k) false

/-- The screen of the given size that packs to the given bytes; bits that are
not there are dark. -/
def unpack (width height : Nat) (bytes : List UInt8) : Screen :=
  let source := bytes.toArray
  { width, height
    pixels := Array.ofFn fun i : Fin (width * height) =>
      (source.getD (i.val / 8) 0).toNat.testBit (7 - i.val % 8)
    size_eq := by simp }

/-- One row of pixels, two characters to a pixel. -/
def renderRow (row : List Bool) : String :=
  row.foldl (fun text p => text ++ if p then "██" else "░░") "" ++ "\n"

/-- The rows from the top down, a line each. -/
def render (s : Screen) : String :=
  if s.width = 0 then "" else
    (List.range s.height).foldl (fun text y =>
      text ++ renderRow (s.pixels.extract (y * s.width) (y * s.width + s.width)).toList) ""

/-- A point on the screen is stored inside the plane. -/
theorem index_lt {s : Screen} {x y i : Nat} (h : s.index? x y = some i) : i < s.pixels.size := by
  unfold index? at h
  split at h
  · rename_i hxy
    cases h
    rw [s.size_eq, Nat.mul_comm s.width]
    calc y * s.width + x < y * s.width + s.width := by omega
      _ = (y + 1) * s.width := by rw [Nat.succ_mul]
      _ ≤ s.height * s.width := Nat.mul_le_mul_right _ hxy.2
  · cases h

/-- Different points are stored at different places. -/
theorem index_inj {s : Screen} {x y x' y' i : Nat} (h : s.index? x y = some i)
    (h' : s.index? x' y' = some i) : x = x' ∧ y = y' := by
  unfold index? at h h'
  split at h
  · rename_i hxy
    split at h'
    · rename_i hxy'
      cases h
      simp only [Option.some.injEq] at h'
      have h1 : (y' * s.width + x') / s.width = y' := by
        rw [Nat.mul_comm, Nat.mul_add_div (by omega), Nat.div_eq_of_lt hxy'.1, Nat.add_zero]
      have h2 : (y * s.width + x) / s.width = y := by
        rw [Nat.mul_comm, Nat.mul_add_div (by omega), Nat.div_eq_of_lt hxy.1, Nat.add_zero]
      have hy : y' = y := by rw [← h1, h', h2]
      subst hy
      exact ⟨by omega, rfl⟩
    · cases h'
  · cases h

/-- Flipping tells what the pixel was. -/
theorem flip?_was {s t : Screen} {x y : Nat} {was : Bool} (h : s.flip? x y = some (t, was)) :
    was = s.lit x y := by
  unfold flip? at h
  cases hi : s.index? x y with
  | none => simp [hi] at h
  | some i =>
    simp only [hi, Option.map_some, Option.some.injEq, Prod.mk.injEq] at h
    simp [lit, hi, ← h.2]

/-- Flipping changes one pixel and no other. -/
theorem lit_flip? {s t : Screen} {x y : Nat} {was : Bool} (h : s.flip? x y = some (t, was)) (a b : Nat) :
    t.lit a b = if a = x ∧ b = y then !s.lit x y else s.lit a b := by
  unfold flip? at h
  cases hi : s.index? x y with
  | none => simp [hi] at h
  | some i =>
    simp only [hi, Option.map_some, Option.some.injEq, Prod.mk.injEq] at h
    obtain ⟨rfl, _⟩ := h
    have hlt := index_lt hi
    by_cases hab : a = x ∧ b = y
    · obtain ⟨rfl, rfl⟩ := hab
      have hj : (if a < s.width ∧ b < s.height then some (b * s.width + a) else none) = some i := hi
      simp [lit, index?, hj, hlt]
    · rw [if_neg hab]
      cases hj : s.index? a b with
      | none =>
        have hj' : (if a < s.width ∧ b < s.height then some (b * s.width + a) else none) = none := hj
        simp [lit, index?, hj']
      | some j =>
        have hj' : (if a < s.width ∧ b < s.height then some (b * s.width + a) else none) = some j := hj
        have hne : i ≠ j := by
          rintro rfl
          exact hab (index_inj hj hi)
        simp [lit, index?, hj', Array.getD_eq_getD_getElem?, hne]

end Screen

end Chip8
