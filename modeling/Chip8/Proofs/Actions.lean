/-
Everything that can happen to a machine, one thing at a time. An `Action` is
what happens while a machine runs: an instruction, a tick of the timer, a change
of the keys, a message sent on request. An `Operation` is an action, or an
intervention from outside: a program loaded, a register or pixel changed, the
settings replaced.

A machine goes on after a failed instruction as that instruction left it, so a
run is a fold, and what one action keeps, every run keeps (`performAll_keeps`,
`operateAll_keeps`).
-/
import Chip8.Keypad
import Chip8.Proofs.StepFacts

namespace Chip8

/-- What happens while a machine runs. -/
inductive Action where
  /-- One instruction, with the random byte it may need. -/
  | step (random : UInt8)
  | tickTimer
  | setKeys (keys : UInt16)
  | press (key : Nat)
  | release (key : Nat)
  /-- A datagram arrives for the key listener. -/
  | receive (datagram : List UInt8)
  /-- The screen as it is now is sent. -/
  | showScreen
  | updateSound (on : Bool)
  | updateSoundAndKeys
  | shutdown
deriving DecidableEq, Repr

/-- The action is a change of the keys. -/
def Action.fromKeypad : Action → Bool
  | .setKeys _ | .press _ | .release _ | .receive _ => true
  | _ => false

/-- An action, or an intervention from outside. -/
inductive Operation where
  | act (action : Action)
  | load (rom : List UInt8)
  | reset
  /-- Sets a register given by its number. -/
  | setRegister (register : Nat) (value : UInt8)
  | replaceSettings (settings : Settings)
  /-- Flips the pixel at a point, if there is one. -/
  | flip (x y : Nat)
  /-- Turns every pixel off, and sends nothing. -/
  | darken
  | setDelay (ticks : UInt8)
  | setSoundTimer (ticks : UInt8)
  | stop
deriving DecidableEq, Repr

/-- What an attempt makes of something; a failed one leaves it as it was. -/
def orKeep {α : Type} (old : α) : Except Fault α → α
  | .ok new => new
  | .error _ => old

namespace Machine

/-- Changes the shared state alone. -/
def updateShared (m : Machine) (f : SharedState → SharedState) : Machine :=
  m.updateChannel (·.update f)

/-- The machine after an action. -/
def perform (m : Machine) : Action → Machine
  | .step random => (m.step random).1
  | .tickTimer => m.updateChannel Timer.tick
  | .setKeys keys => m.updateShared (·.setKeys keys)
  | .press key => m.updateShared fun s => orKeep s (s.press key)
  | .release key => m.updateShared fun s => orKeep s (s.release key)
  | .receive datagram => m.updateShared fun s => (Keypad.receive s datagram).1
  | .showScreen => m.showScreen
  | .updateSound on => m.updateChannel (·.updateSound on)
  | .updateSoundAndKeys => m.updateChannel Channel.updateSoundAndKeys
  | .shutdown => m.updateChannel Channel.shutdown

/-- The machine after an operation. -/
def operate (m : Machine) : Operation → Machine
  | .act action => m.perform action
  | .load rom => m.updateProcessor fun c => (c.load rom).1
  | .reset => m.reset
  | .setRegister register value => m.updateProcessor fun c => orKeep c (c.setRegister register value)
  | .replaceSettings settings => m.updateProcessor fun c => { c with settings }
  | .flip x y =>
    match m.screen.flip? x y with
    | some (screen, _) => { m with screen }
    | none => m
  | .darken => { m with screen := m.screen.clear }
  | .setDelay ticks => m.updateShared (·.setDelay ticks)
  | .setSoundTimer ticks => m.updateShared (·.setSoundTimer ticks)
  | .stop => m.updateShared SharedState.stop

/-- The machine after some actions, one after the other. -/
def performAll (m : Machine) (actions : List Action) : Machine := actions.foldl perform m

/-- The machine after some operations, one after the other. -/
def operateAll (m : Machine) (operations : List Operation) : Machine := operations.foldl operate m

/-- What every action keeps, every run keeps. -/
theorem performAll_keeps {P : Machine → Prop} (keep : ∀ m a, P m → P (m.perform a)) {m : Machine}
    (h : P m) (actions : List Action) : P (m.performAll actions) :=
  List.foldlRecOn actions perform h fun m hm a _ => keep m a hm

/-- Between steps, the screen stays as it is. -/
theorem performAll_screen (m : Machine) {actions : List Action}
    (hquiet : ∀ a ∈ actions, ∀ random, a ≠ .step random) : (m.performAll actions).screen = m.screen := by
  induction actions generalizing m with
  | nil => rfl
  | cons a actions ih =>
    obtain ⟨hfirst, hrest⟩ := List.forall_mem_cons.mp hquiet
    show ((m.perform a).performAll actions).screen = m.screen
    rw [ih (m.perform a) hrest]
    cases a with
    | step random => exact absurd rfl (hfirst random)
    | _ => rfl

/-- A condition that every action of a run meets, on the machine that it finds. -/
def Throughout (P : Machine → Action → Prop) (m : Machine) : List Action → Prop
  | [] => True
  | a :: actions => P m a ∧ Throughout P (m.perform a) actions

theorem throughout_append {P : Machine → Action → Prop} {m : Machine} {before after : List Action} :
    m.Throughout P (before ++ after) ↔ m.Throughout P before ∧ (m.performAll before).Throughout P after := by
  induction before generalizing m with
  | nil => exact ⟨fun h => ⟨trivial, h⟩, fun h => h.2⟩
  | cons a before ih =>
    show P m a ∧ (m.perform a).Throughout P (before ++ after) ↔ (P m a ∧ _) ∧ _
    rw [ih, and_assoc]
    exact Iff.rfl

/-- What every operation keeps, every sequence of them keeps. -/
theorem operateAll_keeps {P : Machine → Prop} (keep : ∀ m o, P m → P (m.operate o)) {m : Machine}
    (h : P m) (operations : List Operation) : P (m.operateAll operations) :=
  List.foldlRecOn operations operate h fun m hm o _ => keep m o hm

end Machine

end Chip8
