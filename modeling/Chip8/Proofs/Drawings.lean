/-
Drawing sprite after sprite. A draw flips the points it covers, so what becomes of a
pixel hangs on how many of the draws cover it: it has changed if their number is odd
(`lit_drawAll`). Hence the order of the draws does not show on the screen, and a draw
that comes twice in a row might as well not have come (`drawings_commute`).

The flag is another matter: it tells what a draw found. The second of two equal draws
finds what the first one left, so it reports a pixel that was dark to begin with, and
not one that was lit.
-/
import Chip8.Proofs.Sprites
import Mathlib.Data.Nat.Bits

namespace Chip8

/-- A draw with all that it goes by: the index, the registers, which two of them hold
the corner, and the number of rows. -/
structure Stroke where
  index : UInt16
  v : Registers
  x : Register
  y : Register
  rows : Nibble

namespace Machine

/-- The machine about to draw a stroke: the index and the registers are the stroke's. -/
def aim (m : Machine) (d : Stroke) : Machine :=
  m.updateProcessor fun c => { c with index := d.index, v := d.v }

/-- Draws a stroke. -/
def stroke (m : Machine) (d : Stroke) : Machine × Except Fault Outcome :=
  (m.aim d).draw d.x d.y d.rows

/-- Draws strokes one after the other. -/
def drawAll (m : Machine) (ds : List Stroke) : Machine := ds.foldl (fun m d => (m.stroke d).1) m

/-! ## One draw -/

instance (m : Machine) (x y : Register) (rows : Nibble) (a b : Nat) : Decidable (m.Covers x y rows a b) :=
  decidable_of_iff _ covers_iff.symm

/-- A pixel changes if the sprite covers it. -/
theorem lit_draw (m : Machine) (x y : Register) (rows : Nibble) (a b : Nat) :
    (m.draw x y rows).1.screen.lit a b = (m.screen.lit a b ^^ decide (m.Covers x y rows a b)) := by
  by_cases hcovers : m.Covers x y rows a b
  · rw [lit_draw_of_covers hcovers]
    simp [hcovers]
  · rw [lit_draw_of_not_covers hcovers]
    simp [hcovers]

section OneDraw

variable {m : Machine} (hw : 1 ≤ m.screen.width) (hh : 1 ≤ m.screen.height) (x y : Register) (rows : Nibble)
include hw hh

theorem draw_of_sized :
    m.draw x y rows =
      ({ m with screen := (m.screen.flipAll (m.drawnPoints x y rows)).1,
                cpu := m.cpu.setFlag (m.screen.flipAll (m.drawnPoints x y rows)).2 }.showScreen,
       .ok .continued) :=
  draw_eq (by omega) x y rows

theorem get_flag_draw :
    (m.draw x y rows).1.cpu.get Processor.flag =
      if (m.screen.flipAll (m.drawnPoints x y rows)).2 then 1 else 0 := by
  rw [draw_of_sized hw hh]
  exact m.cpu.get_setFlag _

theorem get_flag_draw_eq_one_iff :
    (m.draw x y rows).1.cpu.get Processor.flag = 1 ↔ ∃ a b, m.Covers x y rows a b ∧ m.screen.lit a b = true := by
  rw [get_flag_draw hw hh, ← m.hit_drawn x y rows]
  cases (m.screen.flipAll (m.drawnPoints x y rows)).2 <;> decide

theorem get_flag_draw_eq_zero_or_one :
    (m.draw x y rows).1.cpu.get Processor.flag = 0 ∨ (m.draw x y rows).1.cpu.get Processor.flag = 1 := by
  rw [get_flag_draw hw hh]
  cases (m.screen.flipAll (m.drawnPoints x y rows)).2 <;> decide

end OneDraw

/-! ## What covering goes by -/

/-- The second machine has the memory of the first, and a screen of the same size. -/
structure SameGround (m n : Machine) : Prop where
  memory : n.cpu.memory = m.cpu.memory
  width : n.screen.width = m.screen.width
  height : n.screen.height = m.screen.height

theorem SameGround.refl (m : Machine) : SameGround m m := ⟨rfl, rfl, rfl⟩

theorem SameGround.trans {m n o : Machine} (h : SameGround m n) (k : SameGround n o) : SameGround m o :=
  ⟨k.memory.trans h.memory, k.width.trans h.width, k.height.trans h.height⟩

theorem sameGround_draw (m : Machine) (x y : Register) (rows : Nibble) : SameGround m (m.draw x y rows).1 := by
  by_cases hsize : m.screen.width = 0 ∨ m.screen.height = 0
  · simp only [draw, if_pos hsize]
    exact .refl m
  · obtain ⟨hw, hh⟩ := m.screen.flipAll_size (m.drawnPoints x y rows)
    rw [draw_eq hsize]
    exact ⟨rfl, hw, hh⟩

theorem sameGround_stroke (m : Machine) (d : Stroke) : SameGround m (m.stroke d).1 :=
  have haim : SameGround m (m.aim d) := ⟨rfl, rfl, rfl⟩
  haim.trans ((m.aim d).sameGround_draw d.x d.y d.rows)

theorem sameGround_drawAll (m : Machine) (ds : List Stroke) : SameGround m (m.drawAll ds) := by
  induction ds generalizing m with
  | nil => exact .refl m
  | cons d ds ih => exact (m.sameGround_stroke d).trans (ih (m.stroke d).1)

/-- Besides the ground, the sprite's place is in the index and in the two registers of
its corner. -/
theorem SameGround.covers_iff {m n : Machine} (h : SameGround m n) {x y : Register}
    (hindex : n.cpu.index = m.cpu.index) (hx : n.cpu.get x = m.cpu.get x) (hy : n.cpu.get y = m.cpu.get y)
    (rows : Nibble) (a b : Nat) : n.Covers x y rows a b ↔ m.Covers x y rows a b := by
  simp only [Covers, h.memory, h.width, h.height, hindex, hx, hy]

/-- Where a stroke goes by its own index and registers, the ground is all there is. -/
theorem SameGround.covers_aim_iff {m n : Machine} (h : SameGround m n) (d : Stroke) (a b : Nat) :
    (n.aim d).Covers d.x d.y d.rows a b ↔ (m.aim d).Covers d.x d.y d.rows a b :=
  SameGround.covers_iff (m := m.aim d) (n := n.aim d) ⟨h.memory, h.width, h.height⟩ rfl rfl rfl d.rows a b

/-! ## Draw after draw -/

/-- The number of strokes that cover a point. -/
def timesCovered (m : Machine) (ds : List Stroke) (a b : Nat) : Nat :=
  ds.countP fun d => (m.aim d).Covers d.x d.y d.rows a b

theorem timesCovered_cons (m : Machine) (d : Stroke) (ds : List Stroke) (a b : Nat) :
    m.timesCovered (d :: ds) a b =
      m.timesCovered ds a b + if (m.aim d).Covers d.x d.y d.rows a b then 1 else 0 := by
  simp [timesCovered, List.countP_cons]

theorem SameGround.timesCovered_eq {m n : Machine} (h : SameGround m n) (ds : List Stroke) (a b : Nat) :
    n.timesCovered ds a b = m.timesCovered ds a b := by
  simp only [timesCovered, h.covers_aim_iff]

/-- **A pixel has changed if an odd number of the strokes cover it.** -/
theorem lit_drawAll (m : Machine) (ds : List Stroke) (a b : Nat) :
    (m.drawAll ds).screen.lit a b = (m.screen.lit a b ^^ (m.timesCovered ds a b).bodd) := by
  induction ds generalizing m with
  | nil => simp [drawAll, timesCovered]
  | cons d ds ih =>
    have hground := m.sameGround_stroke d
    have hfirst : (m.stroke d).1.screen.lit a b =
        (m.screen.lit a b ^^ decide ((m.aim d).Covers d.x d.y d.rows a b)) :=
      (m.aim d).lit_draw d.x d.y d.rows a b
    have hrest := ih (m.stroke d).1
    rw [hground.timesCovered_eq, hfirst] at hrest
    rw [timesCovered_cons, Nat.bodd_add, Bool.xor_comm (m.timesCovered ds a b).bodd, ← Bool.xor_assoc]
    refine hrest.trans ?_
    by_cases hcovers : (m.aim d).Covers d.x d.y d.rows a b <;> simp [hcovers]

/-- Strokes that cover every point equally often, or differ by an even number of times,
leave the same screen. -/
theorem drawAll_screen_eq {m : Machine} {ds es : List Stroke}
    (h : ∀ a b, (m.timesCovered ds a b).bodd = (m.timesCovered es a b).bodd) :
    (m.drawAll ds).screen = (m.drawAll es).screen := by
  have hd := m.sameGround_drawAll ds
  have he := m.sameGround_drawAll es
  refine Screen.ext_lit (hd.width.trans he.width.symm) (hd.height.trans he.height.symm) fun a b => ?_
  rw [lit_drawAll, lit_drawAll, h]

/-! ## The same draw twice -/

/-- The machine is as a draw left it, as far as the next draw from the same registers
can see: the flag may have been set since. -/
structure Redraws (m n : Machine) (x y : Register) (rows : Nibble) : Prop where
  screen : n.screen = (m.draw x y rows).1.screen
  memory : n.cpu.memory = m.cpu.memory
  index : n.cpu.index = m.cpu.index
  x : n.cpu.get x = m.cpu.get x
  y : n.cpu.get y = m.cpu.get y

/-- A draw sets the flag alone, so its own corner is where it was unless that is in vF. -/
theorem redraws_draw {m : Machine} (hw : 1 ≤ m.screen.width) (hh : 1 ≤ m.screen.height) {x y : Register}
    (hx : x ≠ Processor.flag) (hy : y ≠ Processor.flag) (rows : Nibble) :
    Redraws m (m.draw x y rows).1 x y rows := by
  have hcpu : (m.draw x y rows).1.cpu = m.cpu.setFlag (m.screen.flipAll (m.drawnPoints x y rows)).2 := by
    rw [draw_of_sized hw hh]
    rfl
  refine ⟨rfl, (m.sameGround_draw x y rows).memory, ?_, ?_, ?_⟩
  · rw [hcpu]
    rfl
  · rw [hcpu, Processor.get_setFlag_of_ne _ _ hx]
  · rw [hcpu, Processor.get_setFlag_of_ne _ _ hy]

namespace Redraws

variable {m n : Machine} {x y : Register} {rows : Nibble}

theorem sameGround (h : Redraws m n x y rows) : SameGround m n := by
  have hdraw := m.sameGround_draw x y rows
  exact ⟨h.memory, h.screen ▸ hdraw.width, h.screen ▸ hdraw.height⟩

theorem covers_iff (h : Redraws m n x y rows) (a b : Nat) : n.Covers x y rows a b ↔ m.Covers x y rows a b :=
  h.sameGround.covers_iff h.index h.x h.y rows a b

/-- A draw from where it was drawn before takes it back. -/
theorem screen_draw (h : Redraws m n x y rows) : (n.draw x y rows).1.screen = m.screen := by
  have hboth := h.sameGround.trans (n.sameGround_draw x y rows)
  refine Screen.ext_lit hboth.width hboth.height fun a b => ?_
  rw [lit_draw, h.screen, lit_draw]
  by_cases hcovers : m.Covers x y rows a b
  · simp [hcovers, h.covers_iff]
  · simp [hcovers, h.covers_iff]

/-- What it finds lit under the sprite is what was dark before the first draw. -/
theorem lit_of_covers (h : Redraws m n x y rows) {a b : Nat} (hcovers : m.Covers x y rows a b) :
    n.screen.lit a b = !m.screen.lit a b := by
  rw [h.screen, lit_draw_of_covers hcovers]

theorem get_flag_eq_one_iff (h : Redraws m n x y rows) (hw : 1 ≤ m.screen.width) (hh : 1 ≤ m.screen.height) :
    (n.draw x y rows).1.cpu.get Processor.flag = 1 ↔
      ∃ a b, m.Covers x y rows a b ∧ m.screen.lit a b = false := by
  have hground := h.sameGround
  rw [get_flag_draw_eq_one_iff (hground.width ▸ hw) (hground.height ▸ hh)]
  refine exists₂_congr fun a b => ?_
  rw [h.covers_iff]
  refine and_congr_right fun hcovers => ?_
  simp [h.lit_of_covers hcovers]

end Redraws

/-- **Drawing is a commutative involution on the screen.** On a screen that has pixels
every stroke is drawn. The order of the strokes makes no difference to the screen, and
two equal strokes in a row make none either. The second of them leaves the screen as it
was before the first, whether or not the registers are set anew in between, and its flag
tells whether the sprite covers a pixel that was dark then. -/
theorem drawings_commute (m : Machine) (hw : 1 ≤ m.screen.width) (hh : 1 ≤ m.screen.height) :
    (∀ ds d, ((m.drawAll ds).stroke d).2 = .ok .continued) ∧
    (∀ ds es : List Stroke, ds.Perm es → (m.drawAll ds).screen = (m.drawAll es).screen) ∧
    (∀ before d rest,
      (m.drawAll (before ++ d :: d :: rest)).screen = (m.drawAll (before ++ rest)).screen) ∧
    ∀ before d, d.x ≠ Processor.flag → d.y ≠ Processor.flag →
      let found := m.drawAll before
      let once := (found.stroke d).1
      ∀ again, again = once ∨ again = once.aim d →
        let twice := (again.draw d.x d.y d.rows).1
        twice.screen = found.screen ∧
          (twice.cpu.get Processor.flag = 1 ↔
            ∃ a b, (m.aim d).Covers d.x d.y d.rows a b ∧ found.screen.lit a b = false) ∧
          (twice.cpu.get Processor.flag = 0 ∨ twice.cpu.get Processor.flag = 1) := by
  refine ⟨fun ds d => ?_, fun ds es hperm => ?_, fun before d rest => ?_, fun before d hx hy => ?_⟩
  · have hground := m.sameGround_drawAll ds
    rw [stroke, draw_of_sized (m := (m.drawAll ds).aim d) (hground.width ▸ hw) (hground.height ▸ hh)]
  · refine drawAll_screen_eq fun a b => ?_
    rw [timesCovered, timesCovered, hperm.countP_eq]
  · refine drawAll_screen_eq fun a b => ?_
    -- The pair adds nothing or two to the count.
    simp only [timesCovered, List.countP_append, List.countP_cons, Nat.bodd_add]
    split <;> simp
  · intro found once again hagain
    have hground := m.sameGround_drawAll before
    have hfw : 1 ≤ (found.aim d).screen.width := hground.width ▸ hw
    have hfh : 1 ≤ (found.aim d).screen.height := hground.height ▸ hh
    have hdrawn := redraws_draw hfw hfh hx hy d.rows
    have hredraws : Redraws (found.aim d) again d.x d.y d.rows := by
      rcases hagain with rfl | rfl
      · exact hdrawn
      · exact ⟨hdrawn.screen, hdrawn.memory, rfl, rfl, rfl⟩
    have hsame := hredraws.sameGround
    refine ⟨hredraws.screen_draw, ?_, ?_⟩
    · rw [hredraws.get_flag_eq_one_iff hfw hfh]
      exact exists₂_congr fun a b => and_congr_left fun _ => hground.covers_aim_iff d a b
    · exact get_flag_draw_eq_zero_or_one (hsame.width ▸ hfw) (hsame.height ▸ hfh) d.x d.y d.rows

/-- Two sprites of two rows that overlap on a screen of three columns and two lines,
both cut off at its right edge, one also at the bottom and with its bytes at the end and
the start of memory. -/
theorem drawings_commute_overlapping :
    let m : Machine :=
      { cpu := { memory := { Memory.new 0x50 0x200 with cells := Vector.replicate memorySize 0xC0 } }
        screen := ⟨3, 2, #[false, false, false, false, false, true], rfl⟩ }
    let d : Stroke := { index := 0xFFF, v := Vector.replicate 16 7, x := 0, y := 1, rows := 2 }
    let e : Stroke := { index := 0, v := Vector.replicate 16 4, x := 2, y := 3, rows := 2 }
    let twice := ((m.stroke d).1.draw d.x d.y d.rows).1
    (m.drawAll [d, e, d]).screen = (m.drawAll [e]).screen ∧
      twice.screen = m.screen ∧ twice.cpu.get Processor.flag = 1 := by
  intro m d e twice
  obtain ⟨-, horder, hpair, hsecond⟩ := drawings_commute m (by decide) (by decide)
  obtain ⟨hscreen, hflag, -⟩ := hsecond [] d (by decide) (by decide) (m.stroke d).1 (.inl rfl)
  have hcovers : (m.aim d).Covers d.x d.y d.rows 1 1 := by
    have hset : (0xC0 : UInt8).toNat.testBit 7 = true := by decide
    have hbyte : ∀ n, m.cpu.memory.byteAt n = 0xC0 := fun n => Vector.getElem_replicate _
    have hcorner : ((m.aim d).cpu.get d.x).toNat = 7 ∧ ((m.aim d).cpu.get d.y).toNat = 7 :=
      ⟨congrArg UInt8.toNat (Vector.getElem_replicate _), congrArg UInt8.toNat (Vector.getElem_replicate _)⟩
    refine ⟨0, by decide, 0, by decide, ?_, ?_, ?_, by decide, by decide⟩
    · exact (congrArg (fun byte : UInt8 => byte.toNat.testBit 7) (hbyte _)).trans hset
    · rw [hcorner.1]
      show 1 = 7 % 3 + 0
      rfl
    · rw [hcorner.2]
      show 1 = 7 % 2 + 0
      rfl
  refine ⟨?_, hscreen, hflag.mpr ⟨1, 1, hcovers, by decide⟩⟩
  have hperm : [d, e, d].Perm [e, d, d] := .swap e d [d]
  exact (horder _ _ hperm).trans (hpair [e] d [])

end Machine

end Chip8
