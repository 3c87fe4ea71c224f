import TapHold.Keyboard
import TapHold.Scan

/-!
# Feeding a keyboard

Scans wait in a bounded queue and a control message waits beside it; a later message takes the place
of an earlier one. A poll hands them to the keyboard one by one, scans first, each stamped with the
time of the poll.
-/

set_option autoImplicit false

namespace TapHold

/-- What a keyboard can be told beside scans. -/
inductive Control where
  | reset
  | exit
deriving DecidableEq

/-- Scans and the control message that wait for a poll. -/
structure Feed where
  capacity : Nat
  /-- Oldest first. -/
  scans : List Scan
  control : Option Control
deriving DecidableEq

namespace Feed

/-- Nothing waits. -/
def empty (capacity : Nat) : Feed := ⟨capacity, [], none⟩

/-- Puts a scan into the queue if there is room, and tells whether there was. -/
def offer (f : Feed) (s : Scan) : Feed × Bool :=
  if f.scans.length < f.capacity then ({ f with scans := f.scans ++ [s] }, true) else (f, false)

/-- Takes the oldest scan back. -/
def take (f : Feed) : Feed × Option Scan := ({ f with scans := f.scans.tail }, f.scans.head?)

/-- Raises a control message. -/
def signal (f : Feed) (c : Control) : Feed := { f with control := some c }

/-- What a feed hands over. -/
inductive Item where
  | scan (s : Scan)
  | control (c : Control)
deriving DecidableEq

/-- The next item and the feed without it: scans in order, and the control message once no scan
waits. -/
def next? (f : Feed) : Option (Item × Feed) :=
  match f.scans, f.control with
  | s :: rest, _ => some (.scan s, { f with scans := rest })
  | [], some c => some (.control c, { f with control := none })
  | [], none => none

/-- The number of items that wait. -/
def size (f : Feed) : Nat := f.scans.length + f.control.toList.length

theorem size_lt_of_next? {f g : Feed} {i : Item} (h : f.next? = some (i, g)) : g.size < f.size := by
  rcases f with ⟨capacity, _ | ⟨s, rest⟩, _ | c⟩ <;> cases h <;> simp [size]

end Feed

/-- A keyboard after a poll, what is left of the feed, and whether the keyboard was told to exit. -/
structure Polled (η χ : Type) where
  keyboard : Keyboard η χ
  feed : Feed
  exited : Bool

/-- Hands the items of a feed to a keyboard, the scans stamped with `now`, until none is left or the
keyboard is told to exit. -/
def Keyboard.poll {η χ : Type} [Host η] [Hooks χ] (kb : Keyboard η χ) (km : Keymap) (f : Feed)
    (now : Time) : Polled η χ :=
  match h : f.next? with
  | none => ⟨kb, f, false⟩
  | some (.scan s, rest) =>
    have := Feed.size_lt_of_next? h
    (kb.process km (s.event now)).poll km rest now
  | some (.control .reset, rest) =>
    have := Feed.size_lt_of_next? h
    kb.reset.poll km rest now
  | some (.control .exit, rest) => ⟨kb, rest, true⟩
termination_by f.size

end TapHold
