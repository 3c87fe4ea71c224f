/-!
# Reasons why a keymap image is refused
-/

set_option autoImplicit false

namespace TapHold

/-- Why a keymap image was not loaded. -/
inductive LoadError where
  /-- The directory and the layers do not fit into the space for them. -/
  | outOfSpace
  /-- The image is written in another version of the format. -/
  | versionMismatch
  /-- The image is for a matrix of another size. -/
  | sizeMismatch
  /-- The image breaks a rule of the format. -/
  | corrupt
deriving DecidableEq

end TapHold
