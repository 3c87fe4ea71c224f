import TapHold.Time

/-!
# One-shot modifiers

A single tap of a one-shot key arms its modifiers for the next key, and for that key only. A double
tap disarms them, and the configured number of taps turns the feature off and on again.
-/

set_option autoImplicit false

namespace TapHold

/-- The modifiers waiting for the next key. -/
structure OneShot where
  mods : Byte
  time : Time
  ready : Bool
  disabled : Bool
deriving DecidableEq

namespace OneShot

/-- Nothing is waiting. -/
def idle : OneShot := ⟨0, ⟨0⟩, false, false⟩

/-- Modifiers wait for the next key. -/
def start (s : OneShot) (mods : Byte) (time : Time) : OneShot :=
  { s with mods, time, ready := true }

/-- No modifiers wait any more. -/
def cancel (s : OneShot) : OneShot := { s with mods := 0, time := ⟨0⟩, ready := false }

/-- The feature is turned off or on. -/
def toggle (s : OneShot) : OneShot := { s with disabled := !s.disabled }

/-- Whether the next key gets modifiers. -/
def isArmed (s : OneShot) : Bool := s.mods != 0 && s.ready && !s.disabled

/-- The modifiers for the next key, if there are any. -/
def waiting? (s : OneShot) : Option Byte := if s.isArmed then some s.mods else none

/-- The modifiers have been given to a key. -/
def spend (s : OneShot) : OneShot := { s with ready := false }

/-- Gives out the modifiers for the next key. -/
def take (s : OneShot) : OneShot × Option Byte :=
  (if s.isArmed then s.spend else s, s.waiting?)

end OneShot

end TapHold
