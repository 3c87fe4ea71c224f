import TapHold.Arbiter.Drain

/-!
# The moves of an arbiter

Processing an event is a chain of small moves. `Move` lists them: each changes the candidate or
dispatches one record, and takes at most one record out of the line of waiting records. `Arrival` is
how an event joins the line. An event that is consumed at once is told as joining the line and
leaving it again, so every later argument has one kind of state to look at: the candidate and the
line.

`handle_passage` and `handle_tick_moves` say that processing an event is such a chain. They ask that
no record waits unless the candidate is undecided (`Rested`), which `rested_handle` provides.
-/

set_option autoImplicit false

namespace TapHold

namespace Record

@[simp] theorem event_ofEvent (e : KeyEvent) : (ofEvent e).event = e := rfl

theorem isUndecided_iff {r : Record} :
    r.isUndecided = true ↔ r.event.pressed = true ∧ r.tap.count = 0 := by
  rw [isUndecided, Bool.and_eq_true, beq_iff_eq]

theorem isUndecided_of_up {r : Record} (up : r.event.pressed = false) : r.isUndecided = false := by
  rw [isUndecided, up, Bool.false_and]

theorem isUndecided_of_pos {r : Record} (pos : 0 < r.tap.count) : r.isUndecided = false := by
  rw [← Bool.not_eq_true, isUndecided_iff]
  exact fun undecided => Nat.ne_of_gt pos undecided.2

end Record

namespace Arbiter

/-! ## Views of an arbiter -/

/-- The waiting records, oldest first. -/
def line (a : Arbiter) : List Record := a.backlog.records

/-- The arbiter with another line. -/
def withLine (a : Arbiter) (rs : List Record) : Arbiter :=
  { a with backlog := { a.backlog with records := rs } }

/-- The arbiter with another candidate. -/
def withCandidate (a : Arbiter) (c : Option Record) : Arbiter := { a with candidate := c }

/-- The candidate while it is neither a tap nor a hold. -/
def undecided? (a : Arbiter) : Option Record := a.candidate.filter Record.isUndecided

@[simp] theorem line_withLine (a : Arbiter) (rs : List Record) : (a.withLine rs).line = rs := rfl

@[simp] theorem candidate_withLine (a : Arbiter) (rs : List Record) :
    (a.withLine rs).candidate = a.candidate := rfl

@[simp] theorem withLine_line (a : Arbiter) : a.withLine a.line = a := rfl

@[simp] theorem line_withCandidate (a : Arbiter) (c : Option Record) :
    (a.withCandidate c).line = a.line := rfl

@[simp] theorem candidate_withCandidate (a : Arbiter) (c : Option Record) :
    (a.withCandidate c).candidate = c := rfl

theorem undecided?_of_none {a : Arbiter} (hc : a.candidate = none) : a.undecided? = none := by
  simp [undecided?, hc]

theorem undecided?_eq_some {a : Arbiter} {c : Record} (hc : a.candidate = some c)
    (hu : c.isUndecided = true) : a.undecided? = some c := by
  simp [undecided?, hc, hu]

theorem undecided?_of_decided {a : Arbiter} {c : Record} (hc : a.candidate = some c)
    (hd : c.isUndecided = false) : a.undecided? = none := by
  simp [undecided?, hc, hd]

theorem of_undecided? {a : Arbiter} {c : Record} (h : a.undecided? = some c) :
    a.candidate = some c ∧ c.isUndecided = true := by
  simpa [undecided?, Option.filter_eq_some_iff] using h

/-! ## Moves -/

/-- One small step of processing, with what it emits. -/
inductive Move (km : Keymap) : Arbiter → List Emission → Arbiter → Prop where
  /-- The term after the released tap `c` has passed. -/
  | lapse {a : Arbiter} {c : Record} (t : Time) (hc : a.candidate = some c)
      (up : c.event.pressed = false) (late : t.isWithin c.event.time a.term = false) :
      Move km a [] (a.withCandidate none)
  /-- A press of another key comes between. -/
  | interrupt {a : Arbiter} {c : Record} (hc : a.candidate = some c)
      (waits : c.event.pressed = false ∨ c.tap.count = 0) :
      Move km a [] (a.withCandidate (some c.interrupt))
  /-- The undecided candidate `c` is a hold. -/
  | hold {a : Arbiter} {c : Record} (hc : a.candidate = some c) (hu : c.isUndecided = true) :
      Move km a (a.dispatch km c false).emitted ((a.dispatch km c false).arbiter.withCandidate none)
  /-- The undecided candidate `c` is a tap, because its release is the first in line. -/
  | tap {a : Arbiter} {c r : Record} {rest : List Record} (hc : a.candidate = some c)
      (hu : c.isUndecided = true) (hl : a.line = r :: rest) (own : a.isTapRelease c r = true) :
      Move km a (a.dispatchTap km c).emitted
        ((a.dispatchTap km c).arbiter.withLine
          ({ r with tap := (a.dispatchTap km c).record.tap } :: rest))
  /-- The release of a key that was pressed before the undecided candidate `c`. -/
  | overtake {a : Arbiter} {c r : Record} {pre post : List Record} (hc : a.candidate = some c)
      (hu : c.isUndecided = true) (hl : a.line = pre ++ r :: post)
      (up : r.event.pressed = false) (other : r.event.key ≠ c.event.key)
      (untyped : a.backlog.hasOpposite r.event = false) :
      Move km a (a.dispatch km r false).emitted
        ((a.dispatch km r false).arbiter.withLine (pre ++ post))
  /-- A record that no candidate is concerned with. -/
  | pass {a : Arbiter} {r : Record} {rest : List Record} (free : a.undecided? = none)
      (hl : a.line = r :: rest)
      (plain : r.event.pressed = true → a.isTapHoldKey km r.event.key = false)
      (other : ∀ c, a.candidate = some c → c.event.pressed = true → r.event.pressed = false →
        r.event.key ≠ c.event.key)
      (heard : ∀ c, a.candidate = some c → c.event.pressed = false → r.event.pressed = true →
        c.tap.interrupted = true) :
      Move km a (a.dispatch km r false).emitted ((a.dispatch km r false).arbiter.withLine rest)
  /-- The first press in line becomes the candidate. -/
  | start {a : Arbiter} {r : Record} {rest : List Record} (free : a.undecided? = none)
      (hl : a.line = r :: rest) (down : r.event.pressed = true)
      (single : ∀ c, a.candidate = some c → c.event.pressed = true → c.tap.count ≤ 1)
      (alone : (r.isUndecided && rest.any (a.isTapRelease r)) = false) :
      Move km a [] ((a.withCandidate (some r)).withLine rest)
  /-- The first press in line is a tap, because its release waits behind it. -/
  | startTap {a : Arbiter} {r : Record} {rest : List Record} (free : a.undecided? = none)
      (hl : a.line = r :: rest) (hu : r.isUndecided = true)
      (single : ∀ c, a.candidate = some c → c.event.pressed = true → c.tap.count ≤ 1)
      (own : rest.any (a.isTapRelease r) = true) :
      Move km a (a.dispatchTap km r).emitted
        ((a.dispatchTap km r).arbiter.withLine (Backlog.modifyFirstIn (a.isTapRelease r)
          (fun s => { s with tap := (a.dispatchTap km r).record.tap }) rest))
  /-- One more press after the released tap `c`. -/
  | again {a : Arbiter} {c r : Record} {rest : List Record} (hc : a.candidate = some c)
      (up : c.event.pressed = false) (pos : 0 < c.tap.count) (calm : c.tap.interrupted = false)
      (hl : a.line = r :: rest) (down : r.event.pressed = true)
      (same : r.event.key = c.event.key)
      (inTerm : r.event.time.isWithin c.event.time a.term = true) :
      Move km a (a.dispatch km { r with tap := c.tap.next } false).emitted
        (((a.dispatch km { r with tap := c.tap.next } false).arbiter.withCandidate
          (some (a.dispatch km { r with tap := c.tap.next } false).record)).withLine rest)
  /-- The release of the tap `c`, which stays the candidate only within the term. -/
  | release {a : Arbiter} {c r : Record} {rest : List Record} (keep : Bool)
      (hc : a.candidate = some c) (down : c.event.pressed = true) (pos : 0 < c.tap.count)
      (hl : a.line = r :: rest) (up : r.event.pressed = false)
      (same : r.event.key = c.event.key)
      (inTerm : keep = true → r.event.time.isWithin c.event.time a.term = true) :
      Move km a (a.dispatch km { r with tap := c.tap } false).emitted
        (((a.dispatch km { r with tap := c.tap } false).arbiter.withCandidate
          (if keep then some (a.dispatch km { r with tap := c.tap } false).record else none)).withLine
            rest)
  /-- A release made for the tap `c`, which another tap key ends while its key is still down. -/
  | displace {a : Arbiter} {c : Record} (t : Time) (hc : a.candidate = some c)
      (down : c.event.pressed = true) (many : 1 < c.tap.count) :
      Move km a (a.dispatch km ⟨⟨c.event.key, false, t⟩, c.tap⟩ true).emitted
        ((a.dispatch km ⟨⟨c.event.key, false, t⟩, c.tap⟩ true).arbiter.withCandidate none)
  /-- The line is too long. -/
  | overflow {a : Arbiter} : Move km a [.overflow] a.forget

/-- How the event `e` joins the line, with what is emitted on the way. -/
inductive Arrival (km : Keymap) (e : KeyEvent) : Arbiter → List Emission → Arbiter → Prop where
  /-- The event waits behind all others. -/
  | join {a : Arbiter}
      (loose : ∀ c, a.undecided? = some c → a.isTapRelease c (.ofEvent e) = false)
      (alone : ∀ c, a.candidate = some c → c.isUndecided = false → a.line = [])
      (untyped : ∀ c, a.undecided? = some c → e.pressed = false → a.backlog.hasOpposite e = false) :
      Arrival km e a [] (a.withLine (a.line ++ [.ofEvent e]))
  /-- The event makes the undecided candidate `c` a tap, in which it takes part. -/
  | tap {a : Arbiter} {c : Record} (hc : a.candidate = some c) (hu : c.isUndecided = true)
      (own : a.isTapRelease c (.ofEvent e) = true) :
      Arrival km e a (a.dispatchTap km c).emitted
        ((a.dispatchTap km c).arbiter.withLine
          (a.line ++ [{ Record.ofEvent e with tap := (a.dispatchTap km c).record.tap }]))

/-- A chain of moves. -/
inductive Moves (km : Keymap) : Arbiter → List Emission → Arbiter → Prop where
  | refl (a : Arbiter) : Moves km a [] a
  | step {a b c : Arbiter} {out out' : List Emission} :
      Move km a out b → Moves km b out' c → Moves km a (out ++ out') c

namespace Moves

variable {km : Keymap} {a b c : Arbiter} {out out' : List Emission}

theorem trans (h : Moves km a out b) (g : Moves km b out' c) : Moves km a (out ++ out') c := by
  induction h with
  | refl => exact g
  | step m _ ih =>
    rw [List.append_assoc]
    exact .step m (ih g)

theorem single (m : Move km a out b) : Moves km a out b := by
  have chain := Moves.step m (.refl b)
  rwa [List.append_nil] at chain

/-- What every move keeps, a chain keeps. -/
theorem keep {p : Arbiter → Prop} (each : ∀ {a b out}, Move km a out b → p a → p b)
    (h : Moves km a out b) (start : p a) : p b := by
  induction h with
  | refl => exact start
  | step m _ ih => exact ih (each m start)

end Moves

end Arbiter

end TapHold
