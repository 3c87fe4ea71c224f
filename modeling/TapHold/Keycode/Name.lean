import TapHold.Keycode

/-!
# Names of key codes

Every key code that a person writes has a lower case name: letters and digits name their own keys,
`f1` to `f12` the function keys, and a table holds all other names with their short forms.
-/

set_option autoImplicit false

namespace TapHold

namespace Keycode

/-- The names that follow no pattern. -/
def names : List (String × Keycode) := [
  ("noop", 0x00), ("enter", 0x28), ("return", 0x28), ("esc", 0x29), ("escape", 0x29),
  ("bksp", 0x2a), ("backspace", 0x2a), ("tab", 0x2b), ("space", 0x2c), ("spc", 0x2c),
  ("minus", 0x2d), ("-", 0x2d), ("equal", 0x2e), ("=", 0x2e), ("capslock", 0x39),
  ("right", 0x4f), ("left", 0x50), ("down", 0x51), ("up", 0x52),
  ("leftctrl", 0xe0), ("lc", 0xe0), ("leftshift", 0xe1), ("ls", 0xe1),
  ("leftalt", 0xe2), ("la", 0xe2), ("leftgui", 0xe3), ("lg", 0xe3),
  ("rightctrl", 0xe4), ("rc", 0xe4), ("rightshift", 0xe5), ("rs", 0xe5),
  ("rightalt", 0xe6), ("ra", 0xe6), ("rightgui", 0xe7), ("rg", 0xe7),
  ("mouseup", 0xf0), ("mousedown", 0xf1), ("mouseleft", 0xf2), ("mouseright", 0xf3),
  ("mouse1", 0xf4), ("mouse2", 0xf5), ("mouse3", 0xf6), ("mouse4", 0xf7), ("mouse5", 0xf8),
  ("wheelup", 0xf9), ("wheeldown", 0xfa)]

/-- The code `first` moved by the distance of `c` from `origin`. -/
def counted (first : Keycode) (origin c : Char) : Keycode :=
  first + BitVec.ofNat 8 (c.toNat - origin.toNat)

/-- The code of a name made of one letter or digit, or of `f` and a number from one to twelve. -/
def ofPattern? : List Char → Option Keycode
  | ['0'] => some 0x27
  | ['f', '1', d] =>
    if '0' ≤ d ∧ d ≤ '2' then some (counted 0x43 '0' d) else none
  | ['f', d] => if '1' ≤ d ∧ d ≤ '9' then some (counted 0x3a '1' d) else none
  | [c] =>
    if 'a' ≤ c ∧ c ≤ 'z' then some (counted 0x04 'a' c)
    else if '1' ≤ c ∧ c ≤ '9' then some (counted 0x1e '1' c)
    else none
  | _ => none

/-- The key code that a name stands for. -/
def ofName? (name : String) : Option Keycode :=
  (ofPattern? name.toList).or (names.lookup name)

end Keycode

end TapHold
