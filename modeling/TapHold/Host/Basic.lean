import TapHold.Action.Basic

/-!
# Hosts

A host receives what a keyboard does: keys, modifiers, usages and mouse keys go down and up. Turning
on what is on, or off what is off, is harmless. A host gives back only its modifier byte, and an
action reads it for one purpose only: to restore it after a key has been typed under further
modifiers. `Request.under` states this as one unit, so no action ever sees the byte.
-/

set_option autoImplicit false

namespace TapHold

/-- One call of a host. -/
inductive HostCall where
  | register (code : Keycode)
  | unregister (code : Keycode)
  | addModifiers (bits : Byte)
  | removeModifiers (bits : Byte)
  | setModifiers (bits : Byte)
  /-- Everything but the modifiers goes up. -/
  | clearKeys
  /-- Everything goes up. -/
  | clearAll
  /-- A usage goes down; zero lets the page go up. -/
  | usage (page : UsagePage) (code : Word)
  | mouseOn (code : Keycode)
  | mouseOff (code : Keycode)
deriving DecidableEq

/-- What receives host calls and knows its modifier byte. -/
class Host (η : Type) where
  perform : η → HostCall → η
  modifiers : η → Byte

/-- What one action asks of a host. -/
inductive Request where
  | nothing
  | call (c : HostCall)
  /-- The inner request while the modifiers `bits` are added to the ones that are down; then the
  modifiers from before are restored. -/
  | under (bits : Byte) (request : Request)
deriving DecidableEq

/-- The host after a request. -/
def Request.run {η : Type} [Host η] : Request → η → η
  | .nothing, h => h
  | .call c, h => Host.perform h c
  | .under bits request, h =>
    let inner := request.run (Host.perform h (.addModifiers bits))
    Host.perform inner (.setModifiers (Host.modifiers h))

end TapHold
