import TapHold.Action.Code
import TapHold.Event
import TapHold.Layers
import TapHold.Settings

/-!
# Keymaps

A keymap gives every layer and place a code. A key is looked up in the active overlays, then in the
active layers, both from the highest number down, and takes the first code that is not transparent.
Where there is none it takes the code of the default layer, in which transparent means no action.
-/

set_option autoImplicit false

namespace TapHold

/-- One layer of one family. -/
structure LayerId where
  target : LayerTarget
  number : Nat
deriving DecidableEq

/-- The code of every place on every layer. Layers and places without a binding are transparent. -/
abbrev Keymap := LayerId → Position → Word

namespace Keymap

/-- The layers of a mask, from the highest number down. -/
def activeLayers (mask : Word) : List Nat :=
  (List.range 16).reverse.filter fun n => mask.getLsbD n

/-- The first code that is not transparent among the layers of a mask. -/
def firstBound? (km : Keymap) (target : LayerTarget) (mask : Word) (key : Position) :
    Option Word :=
  ((activeLayers mask).map fun n => km ⟨target, n⟩ key).find? fun code =>
    code != Action.transparentCode

/-- The code of the default layer, where transparent means no action. -/
def defaultCode (km : Keymap) (layers : Layers) (key : Position) : Word :=
  let code := km ⟨.keymap, layers.defaultLayer.toNat⟩ key
  if code = Action.transparentCode then Action.noneCode else code

/-- The code that applies to a key. -/
def boundCode (km : Keymap) (layers : Layers) (overlays : Bool) (key : Position) : Word :=
  let overlay := if overlays then km.firstBound? .overlay layers.overlayMask key else none
  (overlay.or (km.firstBound? .keymap layers.keymapMask key)).getD (km.defaultCode layers key)

/-- The action that applies to a key. -/
def resolve (km : Keymap) (layers : Layers) (settings : Settings) (key : Position) :
    Except UnknownCode Action :=
  Action.ofCode (km.boundCode layers settings.overlays key)

end Keymap

end TapHold
