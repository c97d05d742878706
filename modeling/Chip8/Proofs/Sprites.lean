/-
What drawing a sprite does. `Machine.Covers` is the sprite as a set of points: one
for each bit that is set, counted from the corner that the registers name, without
those that would lie past an edge. Drawing flips these points and no other, and the
flag tells whether one of them was lit (`sprite_drawn`).

The machine goes through the bits one by one and flips as it goes. That comes to
the same because no point comes up twice (`nodup_spritePoints`): a pixel is flipped
once, and is still what it was when its turn comes.
-/
import Chip8.Proofs.ChannelFacts
import Chip8.Proofs.ScreenFacts
import Chip8.Proofs.StepFacts
import Mathlib.Data.List.Nodup

namespace Chip8

/-! ## Flipping points -/

namespace Screen

theorem flip?_of_on {s : Screen} {x y : Nat} (h : x < s.width ∧ y < s.height) :
    ∃ t was, s.flip? x y = some (t, was) := by
  simp [flip?, index?, h]

theorem flip?_of_off {s : Screen} {x y : Nat} (h : ¬ (x < s.width ∧ y < s.height)) :
    s.flip? x y = none := by
  simp [flip?, index?, h]

theorem lit_of_off {s : Screen} {x y : Nat} (h : ¬ (x < s.width ∧ y < s.height)) : s.lit x y = false := by
  simp [lit, index?, h]

/-- The screen with the pixel at a point flipped, if there is one. -/
def flipped (s : Screen) (x y : Nat) : Screen :=
  match s.flip? x y with
  | some (t, _) => t
  | none => s

theorem flipped_size (s : Screen) (x y : Nat) :
    (s.flipped x y).width = s.width ∧ (s.flipped x y).height = s.height := by
  unfold flipped
  split
  · next h => exact flip?_size h
  · exact ⟨rfl, rfl⟩

theorem lit_flipped (s : Screen) (x y a b : Nat) :
    (s.flipped x y).lit a b =
      if a = x ∧ b = y ∧ x < s.width ∧ y < s.height then !s.lit a b else s.lit a b := by
  by_cases hon : x < s.width ∧ y < s.height
  · obtain ⟨t, was, ht⟩ := flip?_of_on hon
    have hflipped : s.flipped x y = t := by simp [flipped, ht]
    rw [hflipped, lit_flip? ht a b]
    by_cases hab : a = x ∧ b = y
    · obtain ⟨rfl, rfl⟩ := hab
      simp [hon]
    · rw [if_neg hab, if_neg fun h => hab ⟨h.1, h.2.1⟩]
  · rw [if_neg fun h => hon h.2.2]
    simp [flipped, flip?_of_off hon]

/-- One round of flipping: the screen with the point flipped, and whether a lit one was met. -/
def flipNext (r : Screen × Bool) (p : Nat × Nat) : Screen × Bool :=
  (r.1.flipped p.1 p.2, r.2 || r.1.lit p.1 p.2)

theorem flipAll_eq_foldl (s : Screen) (points : List (Nat × Nat)) :
    s.flipAll points = points.foldl flipNext (s, false) := by
  refine congrArg (fun f => points.foldl f (s, false)) (funext₂ ?_)
  rintro ⟨t, hit⟩ ⟨x, y⟩
  by_cases hon : x < t.width ∧ y < t.height
  · obtain ⟨u, was, hu⟩ := flip?_of_on hon
    simp [flipNext, flipped, hu, flip?_was hu]
  · simp [flipNext, flipped, flip?_of_off hon, lit_of_off hon]

/-- Whether a lit point was met before makes no difference to what follows. -/
theorem foldl_flipNext (s : Screen) (hit : Bool) (points : List (Nat × Nat)) :
    points.foldl flipNext (s, hit) =
      ((points.foldl flipNext (s, false)).1, hit || (points.foldl flipNext (s, false)).2) := by
  induction points generalizing s hit with
  | nil => simp
  | cons p points ih =>
    rw [List.foldl_cons, List.foldl_cons, flipNext, flipNext, ih, ih _ (false || _), Bool.false_or, Bool.or_assoc]

theorem flipAll_cons (s : Screen) (x y : Nat) (points : List (Nat × Nat)) :
    s.flipAll ((x, y) :: points) =
      (((s.flipped x y).flipAll points).1, s.lit x y || ((s.flipped x y).flipAll points).2) := by
  rw [flipAll_eq_foldl, flipAll_eq_foldl, List.foldl_cons, flipNext, foldl_flipNext, Bool.false_or]

/-- Each of the points is flipped, if no two of them are the same. -/
theorem lit_flipAll {points : List (Nat × Nat)} (hnodup : points.Nodup) (s : Screen) (a b : Nat) :
    (s.flipAll points).1.lit a b =
      if (a, b) ∈ points ∧ a < s.width ∧ b < s.height then !s.lit a b else s.lit a b := by
  induction points generalizing s with
  | nil => rfl
  | cons p points ih =>
    obtain ⟨x, y⟩ := p
    obtain ⟨hfirst, hrest⟩ := List.nodup_cons.mp hnodup
    obtain ⟨hw, hh⟩ := s.flipped_size x y
    rw [flipAll_cons, ih hrest, lit_flipped, hw, hh]
    by_cases hab : a = x ∧ b = y
    · obtain ⟨rfl, rfl⟩ := hab
      simp [hfirst]
    · have hne : (a, b) ≠ (x, y) := by simpa using hab
      have hnotFirst : ¬ (a = x ∧ b = y ∧ x < s.width ∧ y < s.height) := fun h => hab ⟨h.1, h.2.1⟩
      simp only [if_neg hnotFirst, List.mem_cons, hne, false_or]

/-- A lit point is met if there was one from the start. -/
theorem hit_flipAll {points : List (Nat × Nat)} (hnodup : points.Nodup) (s : Screen) :
    (s.flipAll points).2 = true ↔ ∃ p ∈ points, s.lit p.1 p.2 = true := by
  induction points generalizing s with
  | nil => simp [flipAll]
  | cons p points ih =>
    obtain ⟨x, y⟩ := p
    obtain ⟨hfirst, hrest⟩ := List.nodup_cons.mp hnodup
    have hother : ∀ q ∈ points, (s.flipped x y).lit q.1 q.2 = s.lit q.1 q.2 := by
      rintro ⟨a, b⟩ hq
      rw [lit_flipped, if_neg]
      rintro ⟨rfl, rfl, -⟩
      exact hfirst hq
    have hmet : (∃ q ∈ points, (s.flipped x y).lit q.1 q.2 = true) ↔ ∃ q ∈ points, s.lit q.1 q.2 = true :=
      exists_congr fun q => and_congr_right fun hq => by rw [hother q hq]
    rw [flipAll_cons, Bool.or_eq_true, ih hrest, hmet]
    simp

end Screen

/-! ## The points of a sprite -/

namespace Processor

theorem mem_spritePoints {left top a b : Nat} {rows : List UInt8} :
    (a, b) ∈ spritePoints left top rows ↔
      ∃ r bit row, rows[r]? = some row ∧ bit < 8 ∧ row.toNat.testBit (7 - bit) = true ∧
        a = left + bit ∧ b = top + r := by
  simp only [spritePoints, List.mem_flatMap, Prod.exists, List.mem_zipIdx_iff_getElem?, List.mem_filterMap,
    List.mem_range, Option.ite_none_right_eq_some, Option.some.injEq, Prod.mk.injEq]
  constructor
  · rintro ⟨row, r, hrow, bit, hbit, hset, rfl, rfl⟩
    exact ⟨r, bit, row, hrow, hbit, hset, rfl, rfl⟩
  · rintro ⟨r, bit, row, hrow, hbit, hset, rfl, rfl⟩
    exact ⟨row, r, hrow, bit, hbit, hset, rfl, rfl⟩

/-- No point comes up twice: the bits of a row are in different columns, the rows in
different lines. -/
theorem nodup_spritePoints (left top : Nat) (rows : List UInt8) : (spritePoints left top rows).Nodup := by
  have hlines : rows.zipIdx.Pairwise fun p q => p.2 ≠ q.2 :=
    List.pairwise_map.mp (by simp [List.nodup_range'] : (rows.zipIdx.map Prod.snd).Nodup)
  refine List.nodup_flatMap.mpr ⟨fun p _ => ?_, hlines.imp fun {p q} hne point hp hq => ?_⟩
  · refine List.nodup_range.filterMap fun bit bit' point h h' => ?_
    simp only [Option.mem_def, Option.ite_none_right_eq_some, Option.some.injEq] at h h'
    have hcolumn := congrArg Prod.fst (h.2.trans h'.2.symm)
    exact Nat.add_left_cancel hcolumn
  · simp only [List.mem_filterMap, Option.ite_none_right_eq_some, Option.some.injEq] at hp hq
    obtain ⟨_, -, -, rfl⟩ := hp
    obtain ⟨_, -, -, hpoint⟩ := hq
    have hline := congrArg Prod.snd hpoint
    exact hne (Nat.add_left_cancel hline).symm

theorem get_setFlag (c : Processor) (on : Bool) : (c.setFlag on).get flag = if on then 1 else 0 :=
  c.get_set flag _

theorem get_setFlag_of_ne (c : Processor) (on : Bool) {r : Register} (h : r ≠ flag) :
    (c.setFlag on).get r = c.get r :=
  c.get_set_of_ne _ h

end Processor

/-- A screen that fits into a message is sent in one. -/
theorem Channel.updateScreen_sends (c : Channel) {s : Screen} (hw : s.width ≤ 255) (hh : s.height ≤ 255) :
    ∃ accepted, (c.updateScreen s).journal.sends = c.journal.sends.push
      { message := { c.snapshot with
          screen := some s.pack, width := UInt8.ofNat s.width, height := UInt8.ofNat s.height }
        accepted } := by
  rw [updateScreen, if_pos ⟨hw, hh⟩]
  exact c.push_sends _

/-- The byte at a number, which is taken modulo the size of memory. -/
def Memory.byteAt (m : Memory) (n : Nat) : UInt8 := m.cells.get ⟨n % memorySize, Nat.mod_lt _ (by decide)⟩

/-- An address wraps at a multiple of the size of memory, so it does no harm if it
wraps before the byte is looked up. -/
theorem Memory.read_add (m : Memory) (a : UInt16) (k : Nat) :
    m.read (a + UInt16.ofNat k) = m.byteAt (a.toNat + k) := by
  have hcell : cell (a + UInt16.ofNat k) = ⟨(a.toNat + k) % memorySize, Nat.mod_lt _ (by decide)⟩ := by
    refine Fin.ext ?_
    simp only [cell, UInt16.toNat_add, UInt16.toNat_ofNat', memorySize]
    omega
  exact congrArg m.cells.get hcell

namespace Machine

/-- The sprite of so many rows covers a point of the screen: a bit is set that is
as far from the corner as the point, the highest bit of a row leftmost. The corner
is at (vX, vY), wrapped onto the screen. -/
def Covers (m : Machine) (x y : Register) (rows : Nibble) (a b : Nat) : Prop :=
  ∃ r < rows.val, ∃ bit < 8,
    (m.cpu.memory.byteAt (m.cpu.index.toNat + r)).toNat.testBit (7 - bit) = true ∧
    a = (m.cpu.get x).toNat % m.screen.width + bit ∧ b = (m.cpu.get y).toNat % m.screen.height + r ∧
    a < m.screen.width ∧ b < m.screen.height

theorem covers_iff {m : Machine} {x y : Register} {rows : Nibble} {a b : Nat} :
    m.Covers x y rows a b ↔ (a, b) ∈ m.drawnPoints x y rows ∧ a < m.screen.width ∧ b < m.screen.height := by
  have hrow : ∀ {r : Nat} {row : UInt8}, (m.cpu.spriteRows rows.val)[r]? = some row ↔
      r < rows.val ∧ m.cpu.memory.byteAt (m.cpu.index.toNat + r) = row := by
    intro r row
    by_cases hr : r < rows.val
    · simp [Processor.spriteRows, Memory.read_add, hr]
    · simp [Processor.spriteRows, hr]
  simp only [Covers, drawnPoints, Processor.mem_spritePoints, hrow]
  constructor
  · rintro ⟨r, hr, bit, hbit, hset, ha, hb, hon⟩
    exact ⟨⟨r, bit, _, ⟨hr, rfl⟩, hbit, hset, ha, hb⟩, hon⟩
  · rintro ⟨⟨r, bit, _, ⟨hr, rfl⟩, hbit, hset, ha, hb⟩, hon⟩
    exact ⟨r, hr, bit, hbit, hset, ha, hb, hon⟩

theorem nodup_drawnPoints (m : Machine) (x y : Register) (rows : Nibble) : (m.drawnPoints x y rows).Nodup :=
  Processor.nodup_spritePoints _ _ _

/-- A lit point is met exactly if the sprite covers one: points off the screen are dark. -/
theorem hit_drawn (m : Machine) (x y : Register) (rows : Nibble) :
    (m.screen.flipAll (m.drawnPoints x y rows)).2 = true ↔
      ∃ a b, m.Covers x y rows a b ∧ m.screen.lit a b = true := by
  rw [Screen.hit_flipAll (m.nodup_drawnPoints x y rows)]
  constructor
  · rintro ⟨⟨a, b⟩, hpoint, hlit⟩
    have hon : a < m.screen.width ∧ b < m.screen.height := by
      by_contra hoff
      rw [Screen.lit_of_off hoff] at hlit
      cases hlit
    exact ⟨a, b, covers_iff.mpr ⟨hpoint, hon⟩, hlit⟩
  · rintro ⟨a, b, hcovers, hlit⟩
    exact ⟨(a, b), (covers_iff.mp hcovers).1, hlit⟩

/-- A point that a sprite covers is flipped. -/
theorem lit_draw_of_covers {m : Machine} {x y : Register} {rows : Nibble} {a b : Nat}
    (h : m.Covers x y rows a b) : (m.draw x y rows).1.screen.lit a b = !m.screen.lit a b := by
  obtain ⟨hpoint, ha, hb⟩ := covers_iff.mp h
  rw [draw_eq (by omega)]
  show (m.screen.flipAll (m.drawnPoints x y rows)).1.lit a b = _
  rw [Screen.lit_flipAll (m.nodup_drawnPoints x y rows), if_pos ⟨hpoint, ha, hb⟩]

/-- The others are left as they are. -/
theorem lit_draw_of_not_covers {m : Machine} {x y : Register} {rows : Nibble} {a b : Nat}
    (h : ¬ m.Covers x y rows a b) : (m.draw x y rows).1.screen.lit a b = m.screen.lit a b := by
  by_cases hsize : m.screen.width = 0 ∨ m.screen.height = 0
  · rw [draw, if_pos hsize]
  · rw [draw_eq hsize]
    show (m.screen.flipAll (m.drawnPoints x y rows)).1.lit a b = _
    rw [Screen.lit_flipAll (m.nodup_drawnPoints x y rows), if_neg fun hcovers => h (covers_iff.mpr hcovers)]

/-- **Drawing flips the points of the sprite and no other.** The coordinates are
taken before the flag is set, so they may be in vF. The flag is 1 if one of the
points was lit and 0 otherwise, nothing else in the processor changes, and if the
screen fits into a message, one message is sent, with the screen as it is then. -/
theorem sprite_drawn (m : Machine) (x y : Register) (rows : Nibble) (hw : 1 ≤ m.screen.width)
    (hh : 1 ≤ m.screen.height) :
    let after := (m.draw x y rows).1
    (m.draw x y rows).2 = .ok .continued ∧
      after.screen.width = m.screen.width ∧ after.screen.height = m.screen.height ∧
      (∀ a b, m.Covers x y rows a b → after.screen.lit a b = !m.screen.lit a b) ∧
      (∀ a b, ¬ m.Covers x y rows a b → after.screen.lit a b = m.screen.lit a b) ∧
      ((∃ a b, m.Covers x y rows a b ∧ m.screen.lit a b = true) → after.cpu.get Processor.flag = 1) ∧
      ((∀ a b, m.Covers x y rows a b → m.screen.lit a b = false) → after.cpu.get Processor.flag = 0) ∧
      (∀ r, r ≠ Processor.flag → after.cpu.get r = m.cpu.get r) ∧
      after.cpu = { m.cpu with v := after.cpu.v } ∧
      (m.screen.width ≤ 255 → m.screen.height ≤ 255 → ∃ accepted,
        after.channel.journal.sends = m.channel.journal.sends.push
          { message :=
              { sound := m.channel.shared.sound, keys := m.channel.shared.keys
                screen := some after.screen.pack
                width := UInt8.ofNat m.screen.width, height := UInt8.ofNat m.screen.height }
            accepted }) := by
  intro after
  have hsize : ¬ (m.screen.width = 0 ∨ m.screen.height = 0) := by omega
  have hdraw := draw_eq hsize x y rows
  have hafter : after = _ := congrArg Prod.fst hdraw
  have hscreen : after.screen = (m.screen.flipAll (m.drawnPoints x y rows)).1 := by rw [hafter]; rfl
  have hcpu : after.cpu = m.cpu.setFlag (m.screen.flipAll (m.drawnPoints x y rows)).2 := by rw [hafter]; rfl
  have hchannel : after.channel = m.channel.updateScreen after.screen := by rw [hafter]; rfl
  obtain ⟨hwidth, hheight⟩ := m.screen.flipAll_size (m.drawnPoints x y rows)
  rw [← hscreen] at hwidth hheight
  refine ⟨congrArg Prod.snd hdraw, hwidth, hheight, fun a b hcovers => ?_, fun a b hcovers => ?_,
    fun hhit => ?_, fun hmiss => ?_, fun r hr => ?_, ?_, fun hw' hh' => ?_⟩
  · exact lit_draw_of_covers hcovers
  · exact lit_draw_of_not_covers hcovers
  · rw [hcpu, (m.hit_drawn x y rows).mpr hhit, Processor.get_setFlag, if_pos rfl]
  · have hdark : (m.screen.flipAll (m.drawnPoints x y rows)).2 = false := by
      rw [← Bool.not_eq_true, m.hit_drawn x y rows]
      rintro ⟨a, b, hcovers, hlit⟩
      rw [hmiss a b hcovers] at hlit
      cases hlit
    rw [hcpu, hdark, Processor.get_setFlag, if_neg Bool.false_ne_true]
  · rw [hcpu, Processor.get_setFlag_of_ne _ _ hr]
  · rw [hcpu]
    rfl
  · rw [hchannel, ← hwidth, ← hheight]
    exact m.channel.updateScreen_sends (hwidth ▸ hw') (hheight ▸ hh')

/-- Rows of two pixels drawn at (vF, vF), which is (7, 7), on three columns and two
lines: the corner wraps to (1, 1), the second row is past the edge, the bytes are
the last one of memory and the first. One of the pixels was lit. -/
theorem sprite_drawn_clipped :
    let m : Machine :=
      { cpu := {
          memory := { Memory.new 0x50 0x200 with cells := Vector.replicate memorySize 0xC0 }
          index := 0xFFF
          v := Vector.replicate 16 7 }
        screen := ⟨3, 2, #[false, false, false, false, false, true], rfl⟩ }
    let after := (m.draw Processor.flag Processor.flag 2).1
    1 ≤ m.screen.width ∧ 1 ≤ m.screen.height ∧
      after.screen.lit 1 1 = true ∧ after.screen.lit 2 1 = false ∧ after.screen.lit 0 0 = false ∧
      after.cpu.get Processor.flag = 1 ∧ after.cpu.get 0 = 7 := by
  intro m after
  have hw : 1 ≤ m.screen.width := by decide
  have hh : 1 ≤ m.screen.height := by decide
  have hbyte : ∀ n, m.cpu.memory.byteAt n = 0xC0 := fun n => Vector.getElem_replicate _
  have hseven : (m.cpu.get Processor.flag).toNat = 7 := congrArg UInt8.toNat (Vector.getElem_replicate _)
  have hleft : (m.cpu.get Processor.flag).toNat % m.screen.width = 1 := by simp only [hseven, m]
  have htop : (m.cpu.get Processor.flag).toNat % m.screen.height = 1 := by simp only [hseven, m]
  have hcovers : ∀ bit < 2, m.Covers Processor.flag Processor.flag 2 (1 + bit) 1 := by
    intro bit hbit
    have hset : ∀ bit < 2, (0xC0 : UInt8).toNat.testBit (7 - bit) = true := by decide
    have hon : 1 + bit < m.screen.width := by show 1 + bit < 3; omega
    refine ⟨0, by decide, bit, by omega, ?_, ?_, ?_, hon, by decide⟩
    · rw [hbyte]
      exact hset bit hbit
    · rw [hleft]
    · rw [htop]
  have hoff : ¬ m.Covers Processor.flag Processor.flag 2 0 0 := by
    rintro ⟨r, -, bit, -, -, hcolumn, -⟩
    omega
  obtain ⟨-, -, -, hflipped, hkept, hhit, -, hother, -⟩ :=
    sprite_drawn m Processor.flag Processor.flag 2 hw hh
  refine ⟨hw, hh, ?_, ?_, ?_, hhit ⟨2, 1, hcovers 1 (by decide), by decide⟩, hother 0 (by decide)⟩
  · exact hflipped 1 1 (hcovers 0 (by decide))
  · exact hflipped 2 1 (hcovers 1 (by decide))
  · exact hkept 0 0 hoff

end Machine

end Chip8
