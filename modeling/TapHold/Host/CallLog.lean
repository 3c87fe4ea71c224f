import TapHold.Host.Basic

/-!
# A host that remembers its calls

It keeps the modifier byte and the list of all calls, whether they have an effect or not. Letting
everything go is remembered as the two calls that it consists of.
-/

set_option autoImplicit false

namespace TapHold

/-- The modifier byte and the calls so far, oldest first. -/
structure CallLog where
  modifiers : Byte
  calls : List HostCall
deriving DecidableEq

namespace CallLog

/-- No calls, and no modifiers down. -/
def empty : CallLog := ⟨0, []⟩

/-- The modifier byte after a call. -/
def modifiersAfter (bits : Byte) : HostCall → Byte
  | .addModifiers b => bits ||| b
  | .removeModifiers b => bits &&& ~~~b
  | .setModifiers b => b
  | .clearAll => 0
  | _ => bits

/-- The calls that a call is remembered as. -/
def entries : HostCall → List HostCall
  | .clearAll => [.clearKeys, .setModifiers 0]
  | c => [c]

/-- The log after a call. -/
def perform (log : CallLog) (c : HostCall) : CallLog :=
  ⟨modifiersAfter log.modifiers c, log.calls ++ entries c⟩

instance : Host CallLog := ⟨perform, modifiers⟩

/-- The first `n` calls, and the log without them. -/
def read (log : CallLog) (n : Nat) : List HostCall × CallLog :=
  (log.calls.take n, { log with calls := log.calls.drop n })

end CallLog

end TapHold
