import TapHold.Backlog
import TapHold.Interpreter

/-!
# The arbiter between tap and hold

At most one key at a time is the candidate, the key about which the arbiter has yet to decide, or
whose next press may count as one more tap. While it is undecided, later records wait in the
backlog. What the arbiter dispatches is told as a list of emissions, in order; nothing else leaves
it.
-/

set_option autoImplicit false

namespace TapHold

/-- A record handed to the interpreter. -/
structure Dispatched where
  /-- The record as it was handed over. -/
  given : Record
  /-- The record as the interpreter settled it. -/
  settled : Record
  effect : Effect
  /-- Whether the arbiter made the record itself, to end a tap whose key is still down. -/
  synthetic : Bool
deriving DecidableEq

/-- What leaves the arbiter. -/
inductive Emission where
  | dispatched (d : Dispatched)
  /-- The backlog was full: everything that is down goes up. -/
  | overflow
deriving DecidableEq

/-- The state of the decision between tap and hold. -/
structure Arbiter where
  interpreter : Interpreter
  backlog : Backlog
  candidate : Option Record
deriving DecidableEq

/-- The result of handing a record to the interpreter: the record as it was settled comes back. -/
structure Handover where
  arbiter : Arbiter
  record : Record
  emitted : List Emission

namespace Arbiter

/-- No candidate, and an empty backlog. -/
def start (settings : Settings) (layer : LayerNumber) (capacity : Nat) : Arbiter :=
  ⟨.start settings layer, .empty capacity, none⟩

/-- Forgets the candidate and all waiting records. -/
def forget (a : Arbiter) : Arbiter := { a with backlog := a.backlog.clear, candidate := none }

/-- The state at the start, with the settings as they are now. -/
def reset (a : Arbiter) : Arbiter := { a.forget with interpreter := a.interpreter.reset }

/-- Whether the action of a key depends on tap or hold. -/
def isTapHoldKey (a : Arbiter) (km : Keymap) (key : Position) : Bool :=
  a.interpreter.isTapHoldKey km key

/-- The longest time from one edge to the next within a tap. -/
def term (a : Arbiter) : Word := a.interpreter.settings.term

/-- Hands a record to the interpreter. A tick is no key edge and is passed over. -/
def dispatch (a : Arbiter) (km : Keymap) (r : Record) (synthetic : Bool) : Handover :=
  if r.isTick then ⟨a, r, []⟩
  else
    let o := a.interpreter.dispatch km r (a.backlog.hasOtherPress r.event.key)
    ⟨{ a with interpreter := o.interpreter }, o.record,
      [.dispatched ⟨r, o.record, o.effect, synthetic⟩]⟩

/-- Whether the record is the release that makes a tap of the press `c`. -/
def isTapRelease (a : Arbiter) (c r : Record) : Bool :=
  r.event.key == c.event.key && !r.event.pressed && r.event.time.isWithin c.event.time a.term

/-- Dispatches the undecided candidate `c` as a first tap. It stays the candidate unless the
interpreter turned it into a hold. -/
def dispatchTap (a : Arbiter) (km : Keymap) (c : Record) : Handover :=
  let tap := a.dispatch km (c.withCount 1) false
  let candidate := if tap.record.tap.count = 0 then none else some tap.record
  { tap with arbiter := { tap.arbiter with candidate } }

end Arbiter

end TapHold
