import TapHold.LoadError
import TapHold.Word

/-!
# Settings

The numbers and switches that a keymap image or the keyboard's owner may change. An image changes
them by globals, pairs of an identifier and a value; a value out of range is refused.
-/

set_option autoImplicit false

namespace TapHold

/-- Adjustable behaviour of a keyboard. -/
structure Settings where
  /-- The longest press, and the longest gap between taps, that still counts as a tap (ms). -/
  term : Word
  /-- The tap count that toggles a tap-toggle layer or the one-shot modifiers. -/
  toggle : Nat
  /-- Whether tapped modifiers apply to the next key. -/
  oneShot : Bool
  /-- Whether overlays are used. -/
  overlays : Bool
  /-- Whether mouse keys are used. -/
  mouseKeys : Bool
deriving DecidableEq

namespace Settings

/-- The settings before any global is applied. -/
def standard : Settings := ⟨200, 5, true, true, true⟩

/-- The features as a word of three bits. -/
def flags (s : Settings) : Word :=
  BitVec.ofBool s.mouseKeys ++ BitVec.ofBool s.overlays ++ BitVec.ofBool s.oneShot |>.setWidth 16

/-- The settings with the features of a word of three bits. -/
def withFlags (s : Settings) (value : Word) : Settings :=
  { s with
    oneShot := value.getLsbD 0
    overlays := value.getLsbD 1
    mouseKeys := value.getLsbD 2 }

/-- Applies one global: a positive term, a toggle count from two to fifteen, or a word of feature
flags. -/
def withGlobal (s : Settings) (id value : Word) : Except LoadError Settings :=
  match id.toNat with
  | 0 => if value = 0 then .error .corrupt else .ok { s with term := value }
  | 1 =>
    if 2 ≤ value.toNat ∧ value.toNat ≤ 15 then .ok { s with toggle := value.toNat }
    else .error .corrupt
  | 2 => if value.toNat < 8 then .ok (s.withFlags value) else .error .corrupt
  | _ => .error .corrupt

end Settings

end TapHold
