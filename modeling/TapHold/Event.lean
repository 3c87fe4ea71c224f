import TapHold.Time

/-!
# Key events

A key event is a press or a release of one key of the matrix at some time. One position of the
matrix holds no key: an event there is a tick, which only tells the time. A record is an event
together with what has been found out about it: how many taps it is part of.
-/

set_option autoImplicit false

namespace TapHold

/-- A place in the switch matrix. -/
structure Position where
  row : Byte
  col : Byte
deriving DecidableEq

namespace Position

/-- The place that no key has. -/
def nowhere : Position := ⟨0xff, 0xff⟩

/-- Whether no key has this place. -/
def isNowhere (p : Position) : Bool := p == nowhere

/-- The place as one word, the row in the high byte. -/
def word (p : Position) : Word := p.row ++ p.col

end Position

/-- A key goes down or up. -/
structure KeyEvent where
  key : Position
  pressed : Bool
  time : Time
deriving DecidableEq

namespace KeyEvent

/-- The passing of time. -/
def tick (time : Time) : KeyEvent := ⟨.nowhere, false, time⟩

/-- Whether the event only tells the time. -/
def isTick (e : KeyEvent) : Bool := e.key.isNowhere

end KeyEvent

/-- What is known about a key as a tap. A count of zero means that it is not, or not yet, a tap. -/
structure Tap where
  count : Nat
  /-- Whether another key went down before the count was known. -/
  interrupted : Bool
deriving DecidableEq

namespace Tap

/-- Taps are counted up to this number. -/
def maxCount : Nat := 15

/-- Not a tap. -/
def undecided : Tap := ⟨0, false⟩

/-- An uninterrupted tap with the given count. -/
def ofCount (n : Nat) : Tap := ⟨min n maxCount, false⟩

/-- One more tap in a row. -/
def next (t : Tap) : Tap := { t with count := if t.count < maxCount then t.count + 1 else t.count }

end Tap

/-- A key event with its tap. -/
structure Record where
  event : KeyEvent
  tap : Tap
deriving DecidableEq

namespace Record

/-- The record of an event of which nothing is known yet. -/
def ofEvent (e : KeyEvent) : Record := ⟨e, .undecided⟩

/-- Whether the record only tells the time. -/
def isTick (r : Record) : Bool := r.event.isTick

/-- The record with another tap count. -/
def withCount (r : Record) (n : Nat) : Record := { r with tap := { r.tap with count := n } }

/-- The record after another key went down. -/
def interrupt (r : Record) : Record := { r with tap := { r.tap with interrupted := true } }

/-- Whether this is a press that is neither a tap nor a hold yet. -/
def isUndecided (r : Record) : Bool := r.event.pressed && r.tap.count == 0

end Record

end TapHold
