import TapHold.Word

/-!
# Time stamps of a wrapping millisecond clock

A time stamp counts milliseconds modulo `2 ^ 16`, so it wraps about every 65 seconds. Two stamps are
compared through their wrapping difference only: the later one is less than half the range ahead.
Every comparison is therefore unchanged when both stamps move by the same amount
(`since_after_after`, `isWithin_after_after`).
-/

set_option autoImplicit false

namespace TapHold

/-- A reading of the clock, in milliseconds. -/
structure Time where
  ms : Word
deriving DecidableEq

namespace Time

/-- The stamp of a wide millisecond count. -/
def ofMillis (ms : Nat) : Time := ⟨BitVec.ofNat 16 ms⟩

/-- The stamp of a wide microsecond count; a started millisecond does not count. -/
def ofMicros (us : Nat) : Time := ofMillis (us / 1000)

/-- The stamp `ms` milliseconds later. -/
def after (t : Time) (ms : Word) : Time := ⟨t.ms + ms⟩

/-- Milliseconds from `earlier` to `t`. -/
def since (t earlier : Time) : Word := t.ms - earlier.ms

/-- Whether `t` is `other` or later, which means less than half the range ahead of it. -/
def isNotBefore (t other : Time) : Bool := !(t.since other).msb

/-- Whether `t` lies in the window of `term` milliseconds that opens at `start`. -/
def isWithin (t start : Time) (term : Word) : Bool :=
  t.isNotBefore start && decide (t.since start < term)

theorem since_after_after (t u : Time) (k : Word) : (t.after k).since (u.after k) = t.since u := by
  simp only [since, after]
  bv_omega

theorem isWithin_after_after (t u : Time) (term k : Word) :
    (t.after k).isWithin (u.after k) term = t.isWithin u term := by
  simp only [isWithin, isNotBefore, since_after_after]

end Time

end TapHold
