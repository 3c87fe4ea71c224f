import TapHold.Keycode

/-!
# Actions

What a key can be bound to. Some actions do one thing when the key is tapped and another when it is
held (`Action.dependsOnTap`); only they make a key a candidate for the decision between the two.
-/

set_option autoImplicit false

namespace TapHold

/-- The hand a group of modifiers belongs to. -/
inductive Side where
  | left
  | right
deriving DecidableEq

/-- Any of the four modifiers control, shift, alt and gui (bits zero to three) of one hand. -/
structure Mods where
  side : Side
  bits : BitVec 4
deriving DecidableEq

namespace Mods

/-- The modifiers that the low half of a byte names. -/
def ofByte (side : Side) (bits : Byte) : Mods := ⟨side, bits.setWidth 4⟩

/-- The modifiers as a modifier byte: the left hand has the low half, the right hand the high. -/
def byte (m : Mods) : Byte :=
  match m.side with
  | .left => 0#4 ++ m.bits
  | .right => m.bits ++ 0#4

/-- Whether no modifier is named. -/
def isEmpty (m : Mods) : Bool := m.bits == 0#4

end Mods

/-- The edges of a key at which a layer operation happens. -/
inductive Trigger where
  | press
  | release
  | both
deriving DecidableEq

/-- Whether the operation happens at a press (`pressed`) or at a release. -/
def Trigger.fires : Trigger → Bool → Bool
  | .press, pressed => pressed
  | .release, pressed => !pressed
  | .both, _ => true

/-- The number of one of the sixteen layers. -/
abbrev LayerNumber := BitVec 4

/-- The layer that a byte names: layer numbers wrap around after sixteen. -/
def LayerNumber.ofByte (n : Byte) : LayerNumber := n.setWidth 4

/-- The two families of layers. -/
inductive LayerTarget where
  | keymap
  | overlay
deriving DecidableEq

/-- What a layer key does to its layer. -/
inductive LayerOp where
  /-- The layer becomes the default layer; an overlay key turns every overlay off. -/
  | reset (on : Trigger)
  /-- The layer is on while the key is held; a tap types `code`. -/
  | tapKey (code : Keycode)
  /-- The layer is on while the key is held; enough taps leave it on. -/
  | tapToggle
  /-- The layer changes between on and off. -/
  | invert (on : Trigger)
  /-- The layer is on while the key is held. -/
  | onOff
  /-- The layer is turned on. -/
  | on (on : Trigger)
  /-- The layer is off while the key is held. -/
  | offOn
  /-- The layer is turned off. -/
  | off (on : Trigger)
  /-- The layer is the only one on while the key is held; then none is. -/
  | setClear
  /-- The layer becomes the only one that is on. -/
  | set (on : Trigger)
deriving DecidableEq

/-- Whether the operation depends on tap or hold. -/
def LayerOp.dependsOnTap : LayerOp → Bool
  | .tapKey _ => true
  | .tapToggle => true
  | _ => false

/-- What a modifier key does when it is tapped. -/
inductive ModsTap where
  /-- The modifiers apply to the next key only. -/
  | oneShot
  /-- The key `code` is typed. -/
  | key (code : Keycode)
deriving DecidableEq

/-- The usage pages beside the keyboard page. -/
inductive UsagePage where
  | system
  | consumer
deriving DecidableEq

/-- The kinds of extension that a key can call. -/
inductive HookKind where
  | playMacro
  | runCommand
  | callFunction
deriving DecidableEq

/-- What a key is bound to. -/
inductive Action where
  /-- Nothing happens. -/
  | none
  /-- The binding of the next lower layer applies. -/
  | transparent
  /-- A key, modifier or mouse key. -/
  | key (code : Keycode)
  /-- A key typed under modifiers, or modifiers alone. -/
  | keyWithMods (mods : Mods) (code : Keycode)
  /-- Modifiers when held, `tap` when tapped. -/
  | modsTap (mods : Mods) (tap : ModsTap)
  /-- A usage of another page. -/
  | usage (page : UsagePage) (code : BitVec 10)
  /-- A mouse key. -/
  | mouse (code : Keycode)
  /-- A layer operation. -/
  | layer (target : LayerTarget) (number : LayerNumber) (op : LayerOp)
  /-- An extension with its number and four option bits. -/
  | hook (kind : HookKind) (id : Byte) (options : BitVec 4)
deriving DecidableEq

/-- Whether the action depends on tap or hold. Macros and functions do if option bit zero is set;
commands never do. -/
def Action.dependsOnTap : Action → Bool
  | .modsTap _ _ => true
  | .layer _ _ op => op.dependsOnTap
  | .hook .playMacro _ options => options.getLsbD 0
  | .hook .callFunction _ options => options.getLsbD 0
  | _ => false

end TapHold
