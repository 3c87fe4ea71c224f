import TapHold.Outlet

/-!
# Keyboards

A keyboard joins an arbiter to an outlet. An event goes through the arbiter, and what the arbiter
emits is performed in order. Key events that extensions queue on the way are processed one after
another once that is done. Where the extensions have a budget this ends: each event takes one from
the debt of the outlet, and nothing adds to it.
-/

set_option autoImplicit false

namespace TapHold

/-- An arbiter with its outlet. -/
structure Keyboard (η χ : Type) where
  arbiter : Arbiter
  outlet : Outlet η χ

namespace Keyboard

variable {η χ : Type} [Host η]

/-- A keyboard that has seen no event. -/
def start (settings : Settings) (layer : LayerNumber) (capacity : Nat) (host : η) (hooks : χ) :
    Keyboard η χ :=
  ⟨.start settings layer capacity, ⟨host, hooks, []⟩⟩

/-- Processes one event and performs what the arbiter emits. -/
def handle [Extensions χ] (kb : Keyboard η χ) (km : Keymap) (e : KeyEvent) : Keyboard η χ :=
  let result := kb.arbiter.handle km e
  ⟨result.1, kb.outlet.emitAll result.2⟩

/-- The keyboard with other queued events. -/
def withInjected (kb : Keyboard η χ) (events : List KeyEvent) : Keyboard η χ :=
  { kb with outlet := { kb.outlet with injected := events } }

variable [Hooks χ]

theorem debt_handle_lt {kb : Keyboard η χ} {e : KeyEvent} {rest : List KeyEvent} (km : Keymap)
    (h : kb.outlet.injected = e :: rest) :
    ((kb.withInjected rest).handle km e).outlet.debt < kb.outlet.debt := by
  refine Nat.lt_of_le_of_lt (Outlet.debt_emitAll _ _) ?_
  simp [withInjected, Outlet.debt, h]

/-- Processes the queued events until none is left. -/
def processInjected (kb : Keyboard η χ) (km : Keymap) : Keyboard η χ :=
  match h : kb.outlet.injected with
  | [] => kb
  | e :: rest =>
    have := debt_handle_lt km h
    ((kb.withInjected rest).handle km e).processInjected km
termination_by kb.outlet.debt

/-- Processes one event, and then every event that extensions queue on the way. -/
def process (kb : Keyboard η χ) (km : Keymap) (e : KeyEvent) : Keyboard η χ :=
  (kb.handle km e).processInjected km

/-- Lets time pass. -/
def tick (kb : Keyboard η χ) (km : Keymap) (now : Time) : Keyboard η χ := kb.process km (.tick now)

/-- The keyboard with another state of its interpreter. -/
def withInterpreter (kb : Keyboard η χ) (interpreter : Interpreter) : Keyboard η χ :=
  { kb with arbiter := { kb.arbiter with interpreter } }

/-- The keyboard with other settings. -/
def withSettings (kb : Keyboard η χ) (settings : Settings) : Keyboard η χ :=
  kb.withInterpreter (kb.arbiter.interpreter.withSettings settings)

/-- The keyboard with other active layers. -/
def withLayers (kb : Keyboard η χ) (layers : Layers) : Keyboard η χ :=
  kb.withInterpreter (kb.arbiter.interpreter.withLayers layers)

/-- The keyboard with another state of its host. -/
def withHost (kb : Keyboard η χ) (host : η) : Keyboard η χ :=
  { kb with outlet := { kb.outlet with host } }

/-- Lets everything go and forgets all but the settings. -/
def reset (kb : Keyboard η χ) : Keyboard η χ := ⟨kb.arbiter.reset, kb.outlet.reset⟩

end Keyboard

end TapHold
