import TapHold.Word

/-!
# Key codes

A key code is a byte of the keyboard usage table. Three disjoint ranges have an effect on a host:
ordinary keys, the eight modifiers, and mouse keys. All other codes are inert.
-/

set_option autoImplicit false

namespace TapHold

/-- The code of a key, a modifier or a mouse key. -/
abbrev Keycode := Byte

namespace Keycode

/-- Stands for "no key". -/
def nothing : Keycode := 0x00

/-- The first ordinary key. -/
def firstKey : Keycode := 0x04

/-- Ordinary keys. -/
def isKey (code : Keycode) : Bool := decide (firstKey ≤ code) && decide (code ≤ 0xa4#8)

/-- The eight modifiers: control, shift, alt and gui of the left and of the right hand. -/
def isModifier (code : Keycode) : Bool := decide (0xe0#8 ≤ code) && decide (code ≤ 0xe7#8)

/-- Mouse buttons, movements and the wheel. -/
def isMouse (code : Keycode) : Bool := decide (0xf0#8 ≤ code)

/-- The bit of a modifier in the modifier byte. -/
def modifierBit (code : Keycode) : Byte := 1#8 <<< (code &&& 7#8)

/-- The bit of a mouse key among the sixteen mouse keys. -/
def mouseBit (code : Keycode) : Word := 1#16 <<< (code - 0xf0#8)

/-- No code belongs to two of the three ranges. -/
theorem ranges_disjoint : ∀ code : Keycode,
    (isKey code && isModifier code) = false ∧ (isKey code && isMouse code) = false ∧
      (isModifier code && isMouse code) = false := by
  decide

end Keycode

end TapHold
