import TapHold.Proofs.Arbiter.Move
import TapHold.Proofs.Interpreter.Dispatch

/-!
# Handing records to the interpreter

A handover changes nothing of the arbiter but its interpreter, and it hardly matters to it whether a
record that just arrives is in line already (`dispatch_join`): such a record is asked about only as
the press of another key that may overrule a tap.
-/

set_option autoImplicit false

namespace TapHold

/-- A single emission of a record tells the record. -/
theorem Emission.eq_of_dispatched {d d' : Dispatched}
    (h : [Emission.dispatched d] = [Emission.dispatched d']) : d = d' :=
  Emission.dispatched.inj (List.singleton_inj.mp h)

namespace Arbiter

/-- What the interpreter makes of a record. -/
def outcome (a : Arbiter) (km : Keymap) (r : Record) : Outcome :=
  a.interpreter.dispatch km r (a.backlog.hasOtherPress r.event.key)

theorem dispatch_of_tick (a : Arbiter) (km : Keymap) {r : Record} (tick : r.isTick = true)
    (s : Bool) : a.dispatch km r s = ⟨a, r, []⟩ := if_pos tick

theorem dispatch_of_real (a : Arbiter) (km : Keymap) {r : Record} (real : r.isTick = false)
    (s : Bool) :
    a.dispatch km r s =
      ⟨{ a with interpreter := (a.outcome km r).interpreter }, (a.outcome km r).record,
        [.dispatched ⟨r, (a.outcome km r).record, (a.outcome km r).effect, s⟩]⟩ :=
  if_neg (by simp [real])

theorem emitted_dispatch (a : Arbiter) (km : Keymap) {r : Record} (real : r.isTick = false)
    (s : Bool) : (a.dispatch km r s).emitted =
      [.dispatched ⟨r, (a.outcome km r).record, (a.outcome km r).effect, s⟩] := by
  rw [dispatch_of_real a km real]

theorem record_dispatch_eq (a : Arbiter) (km : Keymap) {r : Record} (real : r.isTick = false)
    (s : Bool) : (a.dispatch km r s).record = (a.outcome km r).record := by
  rw [dispatch_of_real a km real]

/-- What a handover dispatches is the record as it was given and as it was settled. -/
theorem eq_of_dispatch {a : Arbiter} {km : Keymap} {r : Record} (real : r.isTick = false)
    {s : Bool} {d : Dispatched} (h : (a.dispatch km r s).emitted = [.dispatched d]) :
    ∃ effect, d = ⟨r, (a.dispatch km r s).record, effect, s⟩ := by
  rw [emitted_dispatch a km real] at h
  refine ⟨(a.outcome km r).effect, ?_⟩
  rw [record_dispatch_eq a km real]
  exact (Emission.eq_of_dispatched h).symm

/-- The same for a tap. -/
theorem eq_of_dispatchTap {a : Arbiter} {km : Keymap} {c : Record} (real : c.isTick = false)
    {d : Dispatched} (h : (a.dispatchTap km c).emitted = [.dispatched d]) :
    ∃ effect, d = ⟨c.withCount 1, (a.dispatchTap km c).record, effect, false⟩ :=
  eq_of_dispatch (r := c.withCount 1) real h

@[simp] theorem line_dispatch (a : Arbiter) (km : Keymap) (r : Record) (s : Bool) :
    (a.dispatch km r s).arbiter.line = a.line :=
  congrArg Backlog.records (backlog_dispatch a km r s)

@[simp] theorem candidate_dispatch (a : Arbiter) (km : Keymap) (r : Record) (s : Bool) :
    (a.dispatch km r s).arbiter.candidate = a.candidate := by
  unfold dispatch
  split <;> rfl

@[simp] theorem undecided?_dispatch (a : Arbiter) (km : Keymap) (r : Record) (s : Bool) :
    (a.dispatch km r s).arbiter.undecided? = a.undecided? := by
  rw [undecided?, candidate_dispatch, undecided?]

@[simp] theorem line_dispatchTap (a : Arbiter) (km : Keymap) (c : Record) :
    (a.dispatchTap km c).arbiter.line = a.line := line_dispatch a km _ false

/-- A handover keeps the event of its record. -/
@[simp] theorem event_dispatch (a : Arbiter) (km : Keymap) (r : Record) (s : Bool) :
    (a.dispatch km r s).record.event = r.event := by
  cases real : r.isTick with
  | true => rw [dispatch_of_tick a km real]
  | false =>
    rw [dispatch_of_real a km real]
    exact Interpreter.event_dispatch _ _ _ _

/-- A handover settles the record as it was given, or overrules its tap. -/
theorem record_dispatch (a : Arbiter) (km : Keymap) {r : Record} (real : r.isTick = false)
    (s : Bool) :
    (a.dispatch km r s).record =
      if a.interpreter.isModsTapKeyAt km r.event.key &&
          Interpreter.isOverruled r (a.backlog.hasOtherPress r.event.key)
        then r.withCount 0 else r := by
  rw [dispatch_of_real a km real]
  exact Interpreter.record_dispatch _ _ _ _ real

theorem fixed_dispatch (a : Arbiter) (km : Keymap) (r : Record) (s : Bool) :
    (a.dispatch km r s).arbiter.interpreter.fixed = a.interpreter.fixed := by
  cases real : r.isTick with
  | true => rw [dispatch_of_tick a km real]
  | false =>
    rw [dispatch_of_real a km real]
    exact Interpreter.fixed_dispatch _ _ _ _

theorem settings_dispatch (a : Arbiter) (km : Keymap) (r : Record) (s : Bool) :
    (a.dispatch km r s).arbiter.interpreter.settings = a.interpreter.settings :=
  congrArg Prod.fst (fixed_dispatch a km r s)

@[simp] theorem dispatch_withCandidate (a : Arbiter) (km : Keymap) (c : Option Record) (r : Record)
    (s : Bool) :
    (a.withCandidate c).dispatch km r s =
      ⟨(a.dispatch km r s).arbiter.withCandidate c, (a.dispatch km r s).record,
        (a.dispatch km r s).emitted⟩ := by
  cases real : r.isTick with
  | true => rw [dispatch_of_tick _ km real, dispatch_of_tick a km real]
  | false =>
    rw [dispatch_of_real _ km real, dispatch_of_real a km real]
    rfl

/-- Whether a press of another key is in a line. -/
theorem hasOtherPress_withLine (a : Arbiter) (rs : List Record) (key : Position) :
    (a.withLine rs).backlog.hasOtherPress key =
      rs.any fun r => r.event.pressed && r.event.key != key := rfl

/-- The arriving record `r` overrules no tap `s` of its own key, and a release overrules none. -/
theorem isOverruled_join (a : Arbiter) {r s : Record}
    (h : s.event.key = r.event.key ∨ s.event.pressed = false ∨ r.event.pressed = false) :
    Interpreter.isOverruled s
        ((a.withLine (a.line ++ [r])).backlog.hasOtherPress s.event.key) =
      Interpreter.isOverruled s (a.backlog.hasOtherPress s.event.key) := by
  have unchanged (none : (r.event.pressed && r.event.key != s.event.key) = false) :
      (a.withLine (a.line ++ [r])).backlog.hasOtherPress s.event.key =
        a.backlog.hasOtherPress s.event.key := by
    rw [hasOtherPress_withLine, List.any_append, List.any_cons, none]
    simp [Backlog.hasOtherPress, line]
  rcases h with same | up | up
  · rw [unchanged (by simp [same])]
  · rw [Interpreter.isOverruled_of_up up, Interpreter.isOverruled_of_up up]
  · rw [unchanged (by simp [up])]

/-- Whether an arriving record is in line already makes no difference to a handover. -/
theorem dispatch_join (a : Arbiter) (km : Keymap) {r s : Record} (synthetic : Bool)
    (h : s.event.key = r.event.key ∨ s.event.pressed = false ∨ r.event.pressed = false) :
    (a.withLine (a.line ++ [r])).dispatch km s synthetic =
      ⟨(a.dispatch km s synthetic).arbiter.withLine (a.line ++ [r]),
        (a.dispatch km s synthetic).record, (a.dispatch km s synthetic).emitted⟩ := by
  cases real : s.isTick with
  | true => rw [dispatch_of_tick _ km real, dispatch_of_tick a km real]
  | false =>
    have same : (a.withLine (a.line ++ [r])).outcome km s = a.outcome km s :=
      Interpreter.dispatch_congr a.interpreter km (isOverruled_join a h)
    rw [dispatch_of_real _ km real, dispatch_of_real a km real, same]
    rfl

/-! ## What stays fixed -/

theorem fixed_move {km : Keymap} {a b : Arbiter} {out : List Emission} (m : Move km a out b) :
    b.interpreter.fixed = a.interpreter.fixed := by
  cases m with
  | lapse | interrupt | start | overflow => rfl
  | hold | pass | overtake | again | release | displace => exact fixed_dispatch a km _ _
  | tap | startTap => exact fixed_dispatch a km _ _

theorem fixed_arrival {km : Keymap} {e : KeyEvent} {a b : Arbiter} {out : List Emission}
    (arrival : Arrival km e a out b) : b.interpreter.fixed = a.interpreter.fixed := by
  cases arrival with
  | join => rfl
  | tap => exact fixed_dispatch a km _ _

theorem settings_move {km : Keymap} {a b : Arbiter} {out : List Emission} (m : Move km a out b) :
    b.interpreter.settings = a.interpreter.settings := congrArg Prod.fst (fixed_move m)

theorem settings_arrival {km : Keymap} {e : KeyEvent} {a b : Arbiter} {out : List Emission}
    (arrival : Arrival km e a out b) : b.interpreter.settings = a.interpreter.settings :=
  congrArg Prod.fst (fixed_arrival arrival)

end Arbiter

end TapHold
