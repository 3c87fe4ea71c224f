import TapHold.Hook.Basic

/-!
# Effects

What a dispatched record does outside the keyboard's own state.
-/

set_option autoImplicit false

namespace TapHold

/-- One effect of a dispatched record. -/
inductive Effect where
  /-- Something is asked of the host. -/
  | request (r : Request)
  /-- An extension is called. -/
  | hook (c : HookCall)
  /-- A key turned out to be bound to a code that stands for no action. -/
  | unknown (code : Word)
deriving DecidableEq

/-- Nothing happens. -/
def Effect.none : Effect := .request .nothing

end TapHold
