import TapHold.Event
import TapHold.Host.Basic

/-!
# Hooks

A key can be bound to an extension: a macro, a command or a function. Calling it runs a program of
the extension, which may call the host, read its modifier byte, and queue further key events. It
learns whether an event was accepted, and ends with the extension's new state.

Queued events are processed after the event that caused them, and may call extensions again. This
need not end: `Extensions` may queue events for ever. `Hooks` are extensions with a budget, the
number of events that they can still queue; `HookProgram.Within` states the bound for one program.
Whatever extensions do in a run that ends, hooks do with enough of a budget
(`Keyboard.exists_ration`).
-/

set_option autoImplicit false

namespace TapHold

/-- The call of an extension by a key. -/
structure HookCall where
  kind : HookKind
  id : Byte
  options : BitVec 4
  record : Record
deriving DecidableEq

/-- What an extension with states `χ` does when it is called. -/
inductive HookProgram (χ : Type) where
  | done (state : χ)
  | call (c : HostCall) (next : HookProgram χ)
  /-- Goes on with the host's modifier byte. -/
  | modifiers (next : Byte → HookProgram χ)
  /-- Queues an event and goes on with whether there was room for it. -/
  | inject (e : KeyEvent) (next : Bool → HookProgram χ)

/-- Whether the program queues, together with all that its last state can still queue, at most `n`
events. -/
def HookProgram.Within {χ : Type} (budget : χ → Nat) : HookProgram χ → Nat → Prop
  | .done state, n => budget state ≤ n
  | .call _ next, n => next.Within budget n
  | .modifiers next, n => ∀ bits, (next bits).Within budget n
  | .inject _ next, n => 0 < n ∧ ∀ accepted, (next accepted).Within budget (n - 1)

/-- Extensions with states `χ`. -/
class Extensions (χ : Type) where
  /-- What a call does. -/
  answer : χ → HookCall → HookProgram χ
  /-- Takes notice of a code that stands for no action. -/
  unknown : χ → Word → χ

/-- Extensions that can queue a limited number of events. -/
class Hooks (χ : Type) extends Extensions χ where
  /-- The number of events that can still be queued. -/
  budget : χ → Nat
  answer_within : ∀ (s : χ) (c : HookCall), (answer s c).Within budget (budget s)
  unknown_budget : ∀ (s : χ) (code : Word), budget (unknown s code) ≤ budget s

/-- No extensions: a call does nothing. -/
inductive NoHooks where
  | none

instance : Hooks NoHooks where
  answer s _ := .done s
  unknown s _ := s
  budget _ := 0
  answer_within _ _ := Nat.le_refl 0
  unknown_budget _ _ := Nat.le_refl 0

end TapHold
