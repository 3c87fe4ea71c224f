import TapHold.Proofs.Arbiter.Chain
import TapHold.Proofs.Event.Edges

/-!
# The events that an arbiter still holds back

The undecided candidate and the line behind it form a queue (`awaited`). A move takes the first
event out of it and dispatches it, or leaves it alone; the exceptions are the release of a key
pressed earlier, which may overtake the queue, a tap that is overruled when it was not the first in
a row, which comes back as an undecided candidate, and an overflow (`Flow`, `flow_move`).

`Orderly` is what every keymap keeps: no tick is held, no press in line is counted yet, the edges of
each key alternate, and the next edge of a tap that is still down is its release.
-/

set_option autoImplicit false

namespace TapHold

/-- The event of a dispatched record that the arbiter did not make itself. -/
def Emission.event? : Emission → Option KeyEvent
  | .dispatched d => if d.synthetic then none else some d.given.event
  | .overflow => none

/-- The events of the dispatched records that the arbiter did not make itself, in order. -/
def dispatchedEvents (out : List Emission) : List KeyEvent := out.filterMap Emission.event?

/-- Whether a tap after the first turned out to be a hold. -/
def Dispatched.isLateHold (d : Dispatched) : Bool :=
  d.given.event.pressed && decide (1 < d.given.tap.count) && d.settled.tap.count == 0

@[simp] theorem dispatchedEvents_nil : dispatchedEvents [] = [] := rfl

@[simp] theorem dispatchedEvents_append (out out' : List Emission) :
    dispatchedEvents (out ++ out') = dispatchedEvents out ++ dispatchedEvents out' :=
  List.filterMap_append

/-- The record that is handed to the interpreter, if it is one of the key. -/
def Emission.dispatchOf? (key : Position) : Emission → Option Dispatched
  | .dispatched d => if d.given.event.key = key then some d else none
  | .overflow => none

/-- The records of a key that are handed to the interpreter, in order. -/
def dispatchesOf (key : Position) (out : List Emission) : List Dispatched :=
  out.filterMap (Emission.dispatchOf? key)

@[simp] theorem dispatchesOf_nil (key : Position) : dispatchesOf key [] = [] := rfl

@[simp] theorem dispatchesOf_append (key : Position) (out out' : List Emission) :
    dispatchesOf key (out ++ out') = dispatchesOf key out ++ dispatchesOf key out' :=
  List.filterMap_append

theorem mem_dispatchesOf_iff {d : Dispatched} {key : Position} {out : List Emission} :
    d ∈ dispatchesOf key out ↔ Emission.dispatched d ∈ out ∧ d.given.event.key = key := by
  rw [dispatchesOf, List.mem_filterMap]
  constructor
  · rintro ⟨x, hx, found⟩
    cases x with
    | overflow => cases found
    | dispatched y =>
      rw [Emission.dispatchOf?] at found
      split at found
      · obtain rfl := Option.some.inj found
        rename_i isKey
        exact ⟨hx, isKey⟩
      · cases found
  · rintro ⟨hd, isKey⟩
    exact ⟨_, hd, by rw [Emission.dispatchOf?, if_pos isKey]⟩

theorem dispatchesOf_singleton_of_eq {d : Dispatched} {key : Position}
    (isKey : d.given.event.key = key) : dispatchesOf key [.dispatched d] = [d] := by
  simp [dispatchesOf, Emission.dispatchOf?, isKey]

theorem dispatchesOf_singleton_of_ne {d : Dispatched} {key : Position}
    (other : d.given.event.key ≠ key) : dispatchesOf key [.dispatched d] = [] := by
  simp [dispatchesOf, Emission.dispatchOf?, other]

/-- Where no record of a key is handed over, no event of it is dispatched. -/
theorem key_ne_of_dispatchesOf {key : Position} {out : List Emission}
    (none : dispatchesOf key out = []) : ∀ e ∈ dispatchedEvents out, e.key ≠ key := by
  intro e he isKey
  obtain ⟨x, hx, found⟩ := List.mem_filterMap.mp he
  cases x with
  | overflow => cases found
  | dispatched d =>
    rw [Emission.event?] at found
    split at found
    · cases found
    · obtain rfl := Option.some.inj found
      have handed : d ∈ dispatchesOf key out := mem_dispatchesOf_iff.mpr ⟨hx, isKey⟩
      rw [none] at handed
      cases handed

namespace Arbiter

/-- The events of the undecided candidate and of the line, in order. -/
def awaited (a : Arbiter) : List KeyEvent := (a.undecided?.toList ++ a.line).map Record.event

/-- The events of the candidate and of the line. -/
def heldEvents (a : Arbiter) : List KeyEvent := (a.candidate.toList ++ a.line).map Record.event

variable {km : Keymap} {a b : Arbiter} {c r : Record} {rest : List Record} {out : List Emission}

theorem awaited_of_free (free : a.undecided? = none) : a.awaited = a.line.map Record.event := by
  simp [awaited, free]

theorem awaited_of_undecided (hc : a.candidate = some c) (hu : c.isUndecided = true) :
    a.awaited = c.event :: a.line.map Record.event := by
  simp [awaited, undecided?_eq_some hc hu]

theorem awaited_withLine_of_free (free : a.undecided? = none) (rs : List Record) :
    (a.withLine rs).awaited = rs.map Record.event := awaited_of_free (a := a.withLine rs) free

theorem awaited_withLine_of_undecided (hc : a.candidate = some c) (hu : c.isUndecided = true)
    (rs : List Record) : (a.withLine rs).awaited = c.event :: rs.map Record.event :=
  awaited_of_undecided (a := a.withLine rs) hc hu

/-- An interrupted candidate is awaited as it was before. -/
theorem awaited_interrupt (hc : a.candidate = some c) :
    (a.withCandidate (some c.interrupt)).awaited = a.awaited := by
  have count : c.interrupt.isUndecided = c.isUndecided := rfl
  cases hu : c.isUndecided with
  | true =>
    rw [awaited_of_undecided hc hu, awaited_of_undecided rfl (count.trans hu)]
    rfl
  | false =>
    rw [awaited_of_free (undecided?_of_decided hc hu),
      awaited_of_free (undecided?_of_decided rfl (count.trans hu))]
    rfl

theorem awaited_of_undecided_of_line {pre post : List Record} (hc : a.candidate = some c)
    (hu : c.isUndecided = true) (hl : a.line = pre ++ r :: post) :
    a.awaited = (c.event :: pre.map Record.event) ++ r.event :: post.map Record.event := by
  rw [awaited_of_undecided hc hu, hl]
  simp

theorem candidate_mem_heldEvents (hc : a.candidate = some c) : c.event ∈ a.heldEvents := by
  simp [heldEvents, hc]

theorem line_mem_heldEvents (hr : r ∈ a.line) : r.event ∈ a.heldEvents :=
  List.mem_map_of_mem (List.mem_append_right _ hr)

/-! ## What a handover tells -/

theorem dispatchedEvents_dispatch (a : Arbiter) (km : Keymap) (real : r.isTick = false) :
    dispatchedEvents (a.dispatch km r false).emitted = [r.event] := by
  rw [dispatch_of_real a km real]
  rfl

theorem dispatchedEvents_synthetic (a : Arbiter) (km : Keymap) (r : Record) :
    dispatchedEvents (a.dispatch km r true).emitted = [] := by
  cases real : r.isTick with
  | true => rw [dispatch_of_tick a km real]; rfl
  | false => rw [dispatch_of_real a km real]; rfl

theorem dispatchedEvents_dispatchTap (a : Arbiter) (km : Keymap) (real : c.isTick = false) :
    dispatchedEvents (a.dispatchTap km c).emitted = [c.event] :=
  dispatchedEvents_dispatch (r := c.withCount 1) a km real

@[simp] theorem event_dispatchTap (a : Arbiter) (km : Keymap) (c : Record) :
    (a.dispatchTap km c).record.event = c.event := event_dispatch a km (c.withCount 1) false

theorem candidate_dispatchTap (a : Arbiter) (km : Keymap) (c : Record) :
    (a.dispatchTap km c).arbiter.candidate =
      if (a.dispatchTap km c).record.tap.count = 0 then none
      else some (a.dispatchTap km c).record := rfl

/-- Only the tap that has just been dispatched can be the candidate after it. -/
theorem eq_of_candidate_dispatchTap {d : Record}
    (hd : (a.dispatchTap km c).arbiter.candidate = some d) : d = (a.dispatchTap km c).record := by
  rw [candidate_dispatchTap] at hd
  split at hd
  · cases hd
  · exact (Option.some.inj hd).symm

/-- A tap that has been dispatched is no undecided candidate. -/
theorem undecided?_dispatchTap (a : Arbiter) (km : Keymap) (c : Record) :
    (a.dispatchTap km c).arbiter.undecided? = none := by
  rw [undecided?, candidate_dispatchTap]
  split
  · rfl
  · rename_i counted
    simp [Record.isUndecided, counted]

theorem undecided?_withLine (a : Arbiter) (rs : List Record) :
    (a.withLine rs).undecided? = a.undecided? := rfl

/-- A candidate that is up is not undecided, whether it stays the candidate or not. -/
theorem undecided?_of_kept_up (a : Arbiter) (keep : Bool) (up : c.event.pressed = false)
    (rs : List Record) :
    ((a.withCandidate (if keep then some c else none)).withLine rs).undecided? = none := by
  cases keep with
  | false => rfl
  | true => exact undecided?_of_decided rfl (Record.isUndecided_of_up up)

/-- The tap of a waiting release changes no event. -/
theorem map_event_modifyFirstIn (p : Record → Bool) (t : Tap) (rs : List Record) :
    (Backlog.modifyFirstIn p (fun s => { s with tap := t }) rs).map Record.event =
      rs.map Record.event := by
  induction rs with
  | nil => rfl
  | cons r rest ih =>
    unfold Backlog.modifyFirstIn
    split
    · rfl
    · rw [List.map_cons, List.map_cons, ih]

/-! ## The flow of events -/

/-- Which events are dispatched by the emissions of a move, and which are awaited after it. -/
inductive Flow (km : Keymap) (a : Arbiter) : List Emission → List KeyEvent → Prop where
  /-- The first events are dispatched. -/
  | inOrder {out : List Emission} {rest : List KeyEvent}
      (h : a.awaited = dispatchedEvents out ++ rest) : Flow km a out rest
  /-- A release overtakes events of other keys. -/
  | overtake {out : List Emission} {pre post : List KeyEvent} {e : KeyEvent}
      (h : a.awaited = pre ++ e :: post) (one : dispatchedEvents out = [e])
      (up : e.pressed = false) (other : ∀ s ∈ pre, s.key ≠ e.key) : Flow km a out (pre ++ post)
  /-- The first event is dispatched as an overruled tap, and comes back as an undecided press. -/
  | twice {out : List Emission} {e : KeyEvent} {rest : List KeyEvent} (h : a.awaited = e :: rest)
      (one : dispatchedEvents out = [e]) (down : e.pressed = true) {c : Record}
      (hc : a.candidate = some c) (pos : 0 < c.tap.count) (same : e.key = c.event.key)
      (modsTap : a.interpreter.isModsTapKeyAt km e.key = true)
      (press : a.backlog.hasOtherPress e.key = true)
      (late : ∃ d, out = [.dispatched d] ∧ d.isLateHold = true) : Flow km a out (e :: rest)
  /-- All awaited events are lost. -/
  | lost : Flow km a [.overflow] []

/-- What an overruled tap comes from. -/
theorem overruled_of_count (real : r.isTick = false) (s : Bool) (pos : 0 < r.tap.count)
    (zero : (a.dispatch km r s).record.tap.count = 0) :
    a.interpreter.isModsTapKeyAt km r.event.key = true ∧ r.event.pressed = true ∧
      (r.tap.interrupted = true ∨ a.backlog.hasOtherPress r.event.key = true) := by
  rw [record_dispatch a km real] at zero
  split at zero
  · rename_i overruled
    simp only [Interpreter.isOverruled, Bool.and_eq_true, Bool.or_eq_true] at overruled
    exact ⟨overruled.1, overruled.2.1.1, overruled.2.2⟩
  · exact absurd zero (Nat.ne_of_gt pos)

/-- A key with modifiers is no tap when it was interrupted or the press of another key waits. -/
theorem dispatchTap_overruled (real : c.isTick = false) (pressed : c.event.pressed = true)
    (modsTap : a.interpreter.isModsTapKeyAt km c.event.key = true)
    (overruled : c.tap.interrupted = true ∨ a.backlog.hasOtherPress c.event.key = true) :
    (a.dispatchTap km c).record.tap.count = 0 := by
  have overruled : Interpreter.isOverruled (c.withCount 1)
      (a.backlog.hasOtherPress (c.withCount 1).event.key) = true := by
    simpa [Interpreter.isOverruled, Record.withCount, pressed] using overruled
  have settled : (a.dispatchTap km c).record = _ :=
    record_dispatch (r := c.withCount 1) a km real false
  rw [settled, if_pos (by rw [overruled, Bool.and_true]; exact modsTap)]
  rfl

theorem one_lt_count_next {t : Tap} (pos : 0 < t.count) : 1 < t.next.count := by
  unfold Tap.next Tap.maxCount
  dsimp only
  split <;> omega

/-- One more tap that turns out to be a hold was overruled by the press of another key in line,
since the tap before it was not interrupted. -/
theorem overruled_again (real : r.isTick = false) (pos : 0 < c.tap.count)
    (calm : c.tap.interrupted = false)
    (zero : (a.dispatch km { r with tap := c.tap.next } false).record.tap.count = 0) :
    a.interpreter.isModsTapKeyAt km r.event.key = true ∧
      a.backlog.hasOtherPress r.event.key = true := by
  have counted : 0 < c.tap.next.count := Nat.lt_of_succ_lt (one_lt_count_next pos)
  obtain ⟨modsTap, -, reason⟩ :=
    overruled_of_count (r := { r with tap := c.tap.next }) real false counted zero
  exact ⟨modsTap, reason.resolve_left (by simp [Tap.next, calm])⟩

/-- What every keymap keeps. -/
structure Orderly (down : Position → Bool) (a : Arbiter) : Prop where
  real : ∀ e ∈ a.heldEvents, e.isTick = false
  fresh : ∀ r ∈ a.line, r.event.pressed = true → r.tap.count = 0
  alternates : Alternates down a.awaited
  tapped : ∀ c, a.candidate = some c → c.event.pressed = true → 0 < c.tap.count →
    (edges down a.awaited c.event.key).head? = some false

variable {down : Position → Bool}

theorem Orderly.real_candidate (o : Orderly down a) (hc : a.candidate = some c) :
    c.isTick = false := o.real _ (candidate_mem_heldEvents hc)

/-- The release that is made for the candidate is no tick. -/
theorem Orderly.real_made (o : Orderly down a) (hc : a.candidate = some c) (t : Time) :
    Record.isTick ⟨⟨c.event.key, false, t⟩, c.tap⟩ = false := by
  have real : c.event.key.isNowhere = false := o.real_candidate hc
  exact real

theorem Orderly.real_line (o : Orderly down a) (hr : r ∈ a.line) : r.isTick = false :=
  o.real _ (line_mem_heldEvents hr)

/-- The first in line is an undecided press, or a release. -/
theorem Orderly.undecided_front (o : Orderly down a) (hl : a.line = r :: rest)
    (pressed : r.event.pressed = true) : r.isUndecided = true := by
  have zero := o.fresh r (by simp [hl]) pressed
  simp [Record.isUndecided, pressed, zero]

/-- The first in line is dispatched, as it is or with another tap. -/
theorem flow_front (free : a.undecided? = none) (hl : a.line = r :: rest)
    (one : dispatchedEvents out = [r.event]) (free' : b.undecided? = none)
    (hl' : b.line.map Record.event = rest.map Record.event) : Flow km a out b.awaited := by
  refine .inOrder ?_
  rw [awaited_of_free free, awaited_of_free free', hl, hl', one]
  rfl

/-- A release of a key of which no press waits comes before all other edges of its key. -/
theorem ne_key_of_untyped {pre post : List Record} (alternates : Alternates down a.awaited)
    (hc : a.candidate = some c) (hu : c.isUndecided = true) (hl : a.line = pre ++ r :: post)
    (other : r.event.key ≠ c.event.key) (untyped : a.backlog.hasOpposite r.event = false) :
    ∀ s ∈ c.event :: pre.map Record.event, s.key ≠ r.event.key := by
  rw [awaited_of_undecided_of_line hc hu hl] at alternates
  apply ne_key_of_alternates alternates
  intro s hs same
  rcases List.mem_cons.mp hs with rfl | hs
  · exact absurd same.symm other
  · obtain ⟨t, ht, rfl⟩ := List.mem_map.mp hs
    have waits : t ∈ a.line := hl ▸ List.mem_append_left _ ht
    simpa [same] using List.any_eq_false.mp untyped t waits

/-- One more tap is dispatched, and where it is overruled it comes back as an undecided press. -/
theorem flow_again (real : r.isTick = false) (hc : a.candidate = some c)
    (up : c.event.pressed = false) (pos : 0 < c.tap.count) (calm : c.tap.interrupted = false)
    (hl : a.line = r :: rest) (pressed : r.event.pressed = true)
    (same : r.event.key = c.event.key) :
    Flow km a (a.dispatch km { r with tap := c.tap.next } false).emitted
      (((a.dispatch km { r with tap := c.tap.next } false).arbiter.withCandidate
        (some (a.dispatch km { r with tap := c.tap.next } false).record)).withLine
          rest).awaited := by
  have free : a.undecided? = none := undecided?_of_decided hc (Record.isUndecided_of_up up)
  have one : dispatchedEvents (a.dispatch km { r with tap := c.tap.next } false).emitted =
      [r.event] := dispatchedEvents_dispatch (r := { r with tap := c.tap.next }) a km real
  cases counted : (a.dispatch km { r with tap := c.tap.next } false).record.tap.count with
  | zero =>
    -- the press is undecided again, and the queue is as it was
    obtain ⟨modsTap, press⟩ := overruled_again real pos calm counted
    rw [awaited_withLine_of_undecided rfl (by simp [Record.isUndecided, pressed, counted]),
      event_dispatch]
    refine .twice ?_ one pressed hc pos same modsTap press ?_
    · rw [awaited_of_free free, hl]
      rfl
    · refine ⟨_, emitted_dispatch a km (r := { r with tap := c.tap.next }) real false, ?_⟩
      rw [← record_dispatch_eq a km (r := { r with tap := c.tap.next }) real false]
      simp [Dispatched.isLateHold, pressed, one_lt_count_next pos, counted]
  | succ n =>
    exact flow_front (r := r) free hl one
      (undecided?_of_decided rfl (by simp [Record.isUndecided, counted])) rfl

/-- Every move keeps the awaited events in order, but for the exceptions that `Flow` names. -/
theorem flow_move (o : Orderly down a) (m : Move km a out b) : Flow km a out b.awaited := by
  cases m with
  | @lapse c t hc up late =>
    refine .inOrder ?_
    rw [awaited_of_free (undecided?_of_decided hc (Record.isUndecided_of_up up))]
    rfl
  | @interrupt c hc waits =>
    exact .inOrder (awaited_interrupt hc).symm
  | @hold c hc hu =>
    refine .inOrder ?_
    rw [dispatchedEvents_dispatch a km (o.real_candidate hc), awaited_of_undecided hc hu,
      awaited_of_free rfl, line_withCandidate, line_dispatch]
    rfl
  | @tap c r rest hc hu hl own =>
    refine .inOrder ?_
    rw [dispatchedEvents_dispatchTap a km (o.real_candidate hc), awaited_of_undecided hc hu,
      awaited_withLine_of_free (undecided?_dispatchTap a km c), hl]
    rfl
  | @overtake c r pre post hc hu hl up other untyped =>
    -- no edge of its key comes before it: its press is not the candidate, and none is in line
    have before := ne_key_of_untyped o.alternates hc hu hl other untyped
    have left : (((a.dispatch km r false).arbiter.withLine (pre ++ post)).awaited) =
        (c.event :: pre.map Record.event) ++ post.map Record.event := by
      rw [awaited_withLine_of_undecided ((candidate_dispatch a km r false).trans hc) hu]
      simp
    rw [left]
    have real : r.isTick = false := o.real_line (by simp [hl])
    exact .overtake (awaited_of_undecided_of_line hc hu hl) (dispatchedEvents_dispatch a km real) up
      before
  | @pass r rest free hl plain other =>
    refine flow_front free hl (dispatchedEvents_dispatch a km (o.real_line (by simp [hl]))) ?_ rfl
    rw [undecided?_withLine, undecided?_dispatch, free]
  | @start r rest free hl pressed single alone =>
    refine .inOrder ?_
    rw [awaited_of_free free, hl,
      awaited_of_undecided (c := r) rfl (o.undecided_front hl pressed)]
    rfl
  | @startTap r rest free hl hu single own =>
    exact flow_front free hl (dispatchedEvents_dispatchTap a km (o.real_line (by simp [hl])))
      (undecided?_dispatchTap a km r) (map_event_modifyFirstIn _ _ rest)
  | @again c r rest hc up pos calm hl pressed same =>
    exact flow_again (o.real_line (by simp [hl])) hc up pos calm hl pressed same
  | @release c r rest keep hc pressed pos hl up same =>
    have free : a.undecided? = none :=
      undecided?_of_decided hc (Record.isUndecided_of_pos pos)
    have real : r.isTick = false := o.real_line (by simp [hl])
    have isUp : (a.dispatch km { r with tap := c.tap } false).record.event.pressed = false := by
      rw [event_dispatch]
      exact up
    exact flow_front (r := r) free hl
      (dispatchedEvents_dispatch (r := { r with tap := c.tap }) a km real)
      (undecided?_of_kept_up _ keep isUp rest) rfl
  | @displace c t hc pressed many =>
    have free : a.undecided? = none :=
      undecided?_of_decided hc (Record.isUndecided_of_pos (Nat.lt_of_succ_lt many))
    -- the arbiter makes this release itself, so no event leaves the queue
    refine .inOrder ?_
    rw [dispatchedEvents_synthetic, awaited_of_free free, awaited_of_free rfl, line_withCandidate,
      line_dispatch]
    rfl
  | overflow => exact .lost

end Arbiter

end TapHold
