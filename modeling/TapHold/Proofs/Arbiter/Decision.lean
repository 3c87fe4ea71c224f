import TapHold.Proofs.Arbiter.Window

/-!
# The decision about a tap key

One event decides about the tap key that is undecided after the events of a window. A release of a
key that was pressed meanwhile, or any event outside the term, makes it a hold (`handle_hold`). Its
own release within the term makes it a tap (`handle_tap`); the tap of a key with modifiers that was
interrupted by a press turns out to be a hold after all. Either way the records that wait pass in
order, since none of them is a tap key's press or the tap key's release, and the event that decided
comes last.
-/

set_option autoImplicit false

namespace TapHold

namespace Arbiter

variable {km : Keymap} {a b : Arbiter} {c r : Record} {p e : KeyEvent} {w : List KeyEvent}

/-! ## What follows a decision -/

/-- An event joins the line, unless it is a tick. -/
theorem postpone_ofEvent (room : a.line.length < a.backlog.capacity) (e : KeyEvent) :
    a.postpone (.ofEvent e) = (a.withLine (a.line ++ (realEvents [e]).map .ofEvent), []) := by
  cases tick : e.isTick with
  | true =>
    have none : realEvents [e] = [] := by simp [realEvents, tick]
    rw [postpone_tick a (show (Record.ofEvent e).isTick = true from tick), none, List.map_nil,
      List.append_nil, withLine_line]
  | false =>
    have one : realEvents [e] = [e] := by simp [realEvents, tick]
    rw [postpone_of_room (show (Record.ofEvent e).isTick = false from tick) room, one]
    rfl

/-- What waits for the decision passes a candidate that is a tap, and passes where there is none. -/
theorem Window.slips (window : a.Window km p w) (uniform : km.Uniform a.interpreter.settings)
    (real : p.isTick = false) (down : p.pressed = true)
    (settings : b.interpreter.settings = a.interpreter.settings)
    (decided : ∀ c, b.candidate = some c → c.event = p ∧ 0 < c.tap.count) :
    ∀ r ∈ a.deferred km w, b.Slips km r := by
  intro r hr
  obtain ⟨x, hx, waits, rfl⟩ := mem_deferred.mp hr
  have bystander := window.bystander x hx
  have notTick : (Record.ofEvent x).isTick = false := by
    rw [defers, Bool.and_eq_true, Bool.not_eq_true'] at waits
    exact waits.1
  refine slips_of_plain (settings ▸ uniform) notTick (Or.inl rfl) (fun _ => ?_) fun c hc => ?_
  · rw [isTapHoldKey, Interpreter.isTapHoldKey_of_uniform uniform settings]
    exact bystander.plain
  · obtain ⟨rfl, pos⟩ := decided c hc
    exact ⟨down, pos, fun _ => bystander.key_ne real⟩

/-- The state right after the press `p` was handed over with the tap count `n`: the candidate has
become `c`, and the records `rs` are in line. -/
def decidedAfter (a : Arbiter) (km : Keymap) (p : KeyEvent) (w : List KeyEvent) (n : Nat)
    (c : Option Record) (rs : List Record) : Arbiter :=
  ⟨((a.undecidedAfter km p w).interpreter.carryOut km [⟨p, ⟨n, hasPress w⟩⟩]).1,
    ⟨a.backlog.capacity, rs⟩, c⟩

theorem settings_decidedAfter (a : Arbiter) (km : Keymap) (p : KeyEvent) (w : List KeyEvent)
    (n : Nat) (c : Option Record) (rs : List Record) :
    (a.decidedAfter km p w n c rs).interpreter.settings = a.interpreter.settings :=
  (Interpreter.settings_carryOut _ km _).trans (settings_undecidedAfter a km p w)

/-! ## Holds -/

/-- What makes the tap key a hold: an event outside the term, or the release of a key that was
pressed meanwhile. -/
def MakesHold (a : Arbiter) (p : KeyEvent) (w : List KeyEvent) (e : KeyEvent) : Prop :=
  e.time.isWithin p.time a.term = false ∨
    (e.pressed = false ∧ ∃ x ∈ w, x.pressed = true ∧ x.key = e.key)

theorem attempt_hold (down : p.pressed = true) (real : p.isTick = false)
    (window : a.Window km p w) (settles : a.MakesHold p w e) :
    (a.undecidedAfter km p w).attempt km (.ofEvent e) =
      (a.undecidedAfter km p w).settleHold km ⟨p, ⟨0, hasPress w⟩⟩ (.ofEvent e) := by
  rw [attempt_undecided rfl (isUndecided_pending down w), attemptUndecided, term_undecidedAfter]
  rcases settles with late | ⟨up, x, hx, pressed, same⟩
  · simp only [Record.event_ofEvent, late, Bool.not_false, if_true]
  -- the key of the release went down meanwhile, so it is neither the tap key nor a tick's
  have bystander := window.bystander x hx
  have other : e.key ≠ p.key := same ▸ bystander.key_ne real
  have notTick : (Record.ofEvent e).isTick = false :=
    (isTick_of_key same).symm.trans (bystander.real_of_pressed pressed)
  have typed : (a.undecidedAfter km p w).backlog.hasOpposite e = true :=
    (hasOpposite_undecidedAfter window up).mpr ⟨x, hx, pressed, same⟩
  simp only [Record.event_ofEvent, up, other, notTick, typed, Bool.false_eq_true, if_false, if_true,
    ite_self]

/-- The tap key is handed over as no tap, and no candidate is left. -/
theorem accept_hold (down : p.pressed = true) (real : p.isTick = false)
    (window : a.Window km p w) (settles : a.MakesHold p w e) :
    (a.undecidedAfter km p w).accept km e =
      (a.decidedAfter km p w 0 none (a.deferred km w ++ (realEvents [e]).map .ofEvent),
        ((a.undecidedAfter km p w).interpreter.carryOut km [⟨p, ⟨0, hasPress w⟩⟩]).2) := by
  have handed := dispatch_eq_carryOut (a.undecidedAfter km p w) km
    (r := ⟨p, ⟨0, hasPress w⟩⟩) real (by simp only [Interpreter.isOverruled_of_count])
  have tried : (a.undecidedAfter km p w).attempt km (.ofEvent e) =
      ⟨a.decidedAfter km p w 0 none (a.deferred km w), some (.ofEvent e),
        ((a.undecidedAfter km p w).interpreter.carryOut km [⟨p, ⟨0, hasPress w⟩⟩]).2⟩ := by
    rw [attempt_hold down real window settles, settleHold, handed]
    rfl
  have joined := postpone_ofEvent (a := a.decidedAfter km p w 0 none (a.deferred km w))
    window.room e
  rw [accept, tried]
  dsimp only
  rw [joined, List.append_nil]
  rfl

/-- **A hold**: the tap key is dispatched as no tap, then what waits, in order, and then the event
that has decided. Nothing is left to decide. -/
theorem handle_hold (uniform : km.Uniform a.interpreter.settings) (down : p.pressed = true)
    (real : p.isTick = false) (window : a.Window km p w)
    (next : a.IsBystander km p.key e ∨ e.key = p.key ∧ e.pressed = false)
    (settles : a.MakesHold p w e) :
    let told := (a.undecidedAfter km p w).interpreter.carryOut km
      (⟨p, ⟨0, hasPress w⟩⟩ :: (a.deferred km w ++ (realEvents [e]).map .ofEvent))
    (a.undecidedAfter km p w).handle km e =
      (⟨told.1, .empty a.backlog.capacity, none⟩, told.2) := by
  let rs := a.deferred km w ++ (realEvents [e]).map .ofEvent
  have settings := settings_decidedAfter a km p w 0 none rs
  have slip : ∀ r ∈ rs, (a.decidedAfter km p w 0 none rs).Slips km r := by
    refine List.forall_mem_append.mpr ⟨?_, fun r hr => ?_⟩
    · exact window.slips uniform real down settings (forall_candidate_of_none rfl)
    -- the event itself: a release, or the press of a key that is no tap key
    obtain ⟨x, hx, rfl⟩ := List.mem_map.mp hr
    obtain ⟨rfl, notTick⟩ : x = e ∧ e.isTick = false := by
      obtain ⟨one, notTick⟩ := List.mem_filter.mp hx
      obtain rfl := List.mem_singleton.mp one
      exact ⟨rfl, by simpa using notTick⟩
    refine slips_of_plain (settings ▸ uniform) notTick (Or.inl rfl) (fun pressed => ?_)
      (forall_candidate_of_none rfl)
    rw [isTapHoldKey, Interpreter.isTapHoldKey_of_uniform uniform settings]
    rcases next with bystander | ⟨-, up⟩
    · exact bystander.plain
    · cases up.symm.trans pressed
  have drained := drain_of_all_slip (a := a.decidedAfter km p w 0 none rs) rfl slip
  rw [handle, accept_hold down real window settles]
  dsimp only
  rw [drained]
  rfl

/-! ## Taps -/

/-- What the tap of the undecided key is settled as: the tap of a key with modifiers that a press
has interrupted is none. -/
def settledTap (a : Arbiter) (km : Keymap) (p : KeyEvent) (w : List KeyEvent) : Tap :=
  ⟨if a.interpreter.isModsTapKeyAt km p.key && hasPress w then 0 else 1, hasPress w⟩

theorem isOverruled_pending (down : p.pressed = true) (w : List KeyEvent) (otherPress : Bool) :
    Interpreter.isOverruled ⟨p, ⟨1, hasPress w⟩⟩ otherPress = (hasPress w || otherPress) := by
  simp [Interpreter.isOverruled, down]

/-- A press that waits has interrupted the tap key, so nothing else overrules its tap. -/
theorem isOverruled_undecidedAfter (down : p.pressed = true) (key : Position) :
    Interpreter.isOverruled ⟨p, ⟨1, hasPress w⟩⟩
        ((a.undecidedAfter km p w).backlog.hasOtherPress key) =
      Interpreter.isOverruled ⟨p, ⟨1, hasPress w⟩⟩ false := by
  rw [isOverruled_pending down, isOverruled_pending down, Bool.or_false]
  cases waits : (a.undecidedAfter km p w).backlog.hasOtherPress key with
  | false => exact Bool.or_false _
  | true => rw [hasPress_of_hasOtherPress waits, Bool.or_true]

theorem record_settledTap (uniform : km.Uniform a.interpreter.settings) (down : p.pressed = true)
    (real : p.isTick = false) :
    ((a.undecidedAfter km p w).interpreter.dispatch km ⟨p, ⟨1, hasPress w⟩⟩ false).record =
      ⟨p, a.settledTap km p w⟩ := by
  rw [Interpreter.record_dispatch (r := ⟨p, ⟨1, hasPress w⟩⟩) _ km false real,
    isOverruled_pending down, Bool.or_false,
    Interpreter.isModsTapKeyAt_of_uniform uniform (settings_undecidedAfter a km p w), settledTap]
  split <;> rfl

/-- The release of the tap in front of the line comes last. -/
theorem drain_of_release (km : Keymap) (hc : a.candidate = some c) (down : c.event.pressed = true)
    (pos : 0 < c.tap.count) (hl : a.line = [⟨e, c.tap⟩]) (real : e.isTick = false)
    (same : e.key = c.event.key) (up : e.pressed = false)
    (inTerm : e.time.isWithin c.event.time a.term = true) :
    a.drain km = (⟨(a.interpreter.carryOut km [⟨e, c.tap⟩]).1, .empty a.backlog.capacity,
      some ⟨e, c.tap⟩⟩, (a.interpreter.carryOut km [⟨e, c.tap⟩]).2) := by
  have records : a.backlog.records = [⟨e, c.tap⟩] := hl
  have firm (otherPress : Bool) : Interpreter.isOverruled ⟨e, c.tap⟩ otherPress = false :=
    Interpreter.isOverruled_of_up up otherPress
  have settled : (a.interpreter.dispatch km ⟨e, c.tap⟩ false).record = ⟨e, c.tap⟩ := by
    rw [Interpreter.record_dispatch (r := ⟨e, c.tap⟩) _ km false real, firm, Bool.and_false]
    rfl
  have handed := dispatch_eq_carryOut a km (r := ⟨e, c.tap⟩) real
    ((firm _).trans (firm false).symm)
  have tried : a.attempt km ⟨e, c.tap⟩ =
      ⟨(a.withInterpreter (a.interpreter.carryOut km [⟨e, c.tap⟩]).1).withCandidate
        (some ⟨e, c.tap⟩), none, (a.interpreter.carryOut km [⟨e, c.tap⟩]).2⟩ := by
    simp only [attempt, hc, down, Bool.not_true, Bool.false_eq_true, if_false, Nat.ne_of_gt pos,
      attemptTapped, same, decide_true, up, Bool.not_false, Bool.and_self, if_true, releaseTap,
      inTerm, handed, settled]
    rfl
  have advanced : a.advance? km = some
      (⟨(a.interpreter.carryOut km [⟨e, c.tap⟩]).1, .empty a.backlog.capacity, some ⟨e, c.tap⟩⟩,
        (a.interpreter.carryOut km [⟨e, c.tap⟩]).2) := by
    simp only [advance?, records, tried]
    simp only [withInterpreter, withCandidate, Backlog.dropFront, records, List.tail_cons,
      Backlog.empty]
  rw [drain_of_advance? advanced, drain_of_line km rfl, List.append_nil]

/-- What passes the tap in front of its release is handed over in order, and the release comes
last. -/
theorem drain_of_tap {rs : List Record} (hc : a.candidate = some c) (down : c.event.pressed = true)
    (pos : 0 < c.tap.count) (hl : a.line = rs ++ [⟨e, c.tap⟩]) (slip : ∀ r ∈ rs, a.Slips km r)
    (real : e.isTick = false) (same : e.key = c.event.key) (up : e.pressed = false)
    (inTerm : e.time.isWithin c.event.time a.term = true) :
    a.drain km = (⟨(a.interpreter.carryOut km (rs ++ [⟨e, c.tap⟩])).1, .empty a.backlog.capacity,
      some ⟨e, c.tap⟩⟩, (a.interpreter.carryOut km (rs ++ [⟨e, c.tap⟩])).2) := by
  let last := (a.withInterpreter (a.interpreter.carryOut km rs).1).withLine [⟨e, c.tap⟩]
  have term : last.term = a.term :=
    congrArg Settings.term (Interpreter.settings_carryOut a.interpreter km rs)
  have released := drain_of_release km (a := last) hc down pos rfl real same up
    (term ▸ inTerm)
  rw [drain_of_slips hl slip, released, Interpreter.carryOut_append]
  rfl

/-- The candidate after the tap was handed over, before its release is. -/
def tapCandidate (a : Arbiter) (km : Keymap) (p : KeyEvent) (w : List KeyEvent) (e : KeyEvent) :
    Option Record :=
  if (a.settledTap km p w).count = 0 then none else some ⟨e, a.settledTap km p w⟩

/-- The tap key is handed over as a first tap, in which its release takes part. -/
theorem accept_tap (uniform : km.Uniform a.interpreter.settings) (down : p.pressed = true)
    (real : p.isTick = false) (window : a.Window km p w) (same : e.key = p.key)
    (up : e.pressed = false) (inTerm : e.time.isWithin p.time a.term = true) :
    (a.undecidedAfter km p w).accept km e =
      (a.decidedAfter km p w 1 (a.tapCandidate km p w p)
        (a.deferred km w ++ [⟨e, a.settledTap km p w⟩]),
        ((a.undecidedAfter km p w).interpreter.carryOut km [⟨p, ⟨1, hasPress w⟩⟩]).2) := by
  have within : e.time.isWithin p.time (a.undecidedAfter km p w).term = true := by
    rw [term_undecidedAfter]
    exact inTerm
  have notTick : e.isTick = false := (isTick_of_key same).trans real
  have handed := dispatch_eq_carryOut (a.undecidedAfter km p w) km
    (r := ⟨p, ⟨1, hasPress w⟩⟩) real (isOverruled_undecidedAfter down p.key)
  rw [record_settledTap uniform down real] at handed
  have tried : (a.undecidedAfter km p w).attempt km (.ofEvent e) =
      ⟨a.decidedAfter km p w 1 (a.tapCandidate km p w p) (a.deferred km w),
        some ⟨e, a.settledTap km p w⟩,
        ((a.undecidedAfter km p w).interpreter.carryOut km [⟨p, ⟨1, hasPress w⟩⟩]).2⟩ := by
    rw [attempt_undecided rfl (isUndecided_pending down w), attemptUndecided]
    simp only [Record.event_ofEvent, within, up, same, Bool.not_true, Bool.false_eq_true, if_false,
      if_true]
    rw [settleTap, dispatchTap, show Record.withCount ⟨p, ⟨0, hasPress w⟩⟩ 1 =
      ⟨p, ⟨1, hasPress w⟩⟩ from rfl, handed]
    rfl
  have joined := postpone_of_room (r := ⟨e, a.settledTap km p w⟩)
    (a := a.decidedAfter km p w 1 (a.tapCandidate km p w p) (a.deferred km w)) notTick window.room
  rw [accept, tried]
  dsimp only
  rw [joined, List.append_nil]
  rfl

/-- **A tap**: the tap key is dispatched as a first tap, then what waits, in order, and then its
release, with the tap as it was settled. The release stays the candidate for one more tap, unless
the tap turned out to be a hold. -/
theorem handle_tap (uniform : km.Uniform a.interpreter.settings) (down : p.pressed = true)
    (real : p.isTick = false) (window : a.Window km p w) (same : e.key = p.key)
    (up : e.pressed = false) (inTerm : e.time.isWithin p.time a.term = true) :
    let told := (a.undecidedAfter km p w).interpreter.carryOut km
      (⟨p, ⟨1, hasPress w⟩⟩ :: (a.deferred km w ++ [⟨e, a.settledTap km p w⟩]))
    (a.undecidedAfter km p w).handle km e =
      (⟨told.1, .empty a.backlog.capacity, a.tapCandidate km p w e⟩, told.2) := by
  have notTick : e.isTick = false := (isTick_of_key same).trans real
  let rs := a.deferred km w ++ [⟨e, a.settledTap km p w⟩]
  have settings (c : Option Record) := settings_decidedAfter a km p w 1 c rs
  rw [handle, accept_tap uniform down real window same up inTerm]
  unfold tapCandidate
  dsimp only
  by_cases zero : (a.settledTap km p w).count = 0
  · -- a hold after all: no candidate is left, and all that follows passes
    have slip : ∀ r ∈ rs, (a.decidedAfter km p w 1 none rs).Slips km r := by
      refine List.forall_mem_append.mpr ⟨?_, fun r hr => ?_⟩
      · exact window.slips uniform real down (settings none) (forall_candidate_of_none rfl)
      obtain rfl := List.mem_singleton.mp hr
      refine slips_of_plain (settings none ▸ uniform) notTick (Or.inl zero) (fun pressed => ?_)
        (forall_candidate_of_none rfl)
      cases up.symm.trans pressed
    have drained := drain_of_all_slip (a := a.decidedAfter km p w 1 none rs) rfl slip
    rw [if_pos zero, if_pos zero, drained]
    rfl
  · -- a tap: what waits passes it, and its release comes last
    let c : Record := ⟨p, a.settledTap km p w⟩
    have pos : 0 < c.tap.count := Nat.pos_of_ne_zero zero
    have slip := window.slips uniform real down (settings (some c)) fun d hd => by
      obtain rfl := Option.some.inj hd
      exact ⟨rfl, pos⟩
    have within : e.time.isWithin p.time (a.decidedAfter km p w 1 (some c) rs).term = true := by
      rw [term, settings]
      exact inTerm
    have drained := drain_of_tap (a := a.decidedAfter km p w 1 (some c) rs) (c := c) rfl down pos
      rfl slip notTick same up within
    rw [if_neg zero, if_neg zero, drained]
    rfl

/-! ## The whole window -/

/-- **The decision about one tap key.** On a keymap that no layer changes, with no candidate and
nothing in line, a tap key goes down, and events come that do not decide about it. After the first
of them, however many, exactly the releases among them that let no modifier go have been dispatched,
in order, and all other edges wait.

Then one event decides. Outside the term, or as the release of a key that was pressed meanwhile, it
makes the tap key a hold: the tap key is dispatched with count zero, then what waits, in order, and
then the event, unless it is a tick. If it is the tap key's release within the term, the tap key is
dispatched with count one; for a key with modifiers and a tap key, when another key was pressed
meanwhile, this is settled with count zero, as a hold. What waits follows in order, and the release
comes last, with the tap that was settled; it stays the candidate if that is a tap. -/
theorem decision_of_window (km : Keymap) (a : Arbiter) (p : KeyEvent) (w : List KeyEvent)
    (uniform : km.Uniform a.interpreter.settings) (idle : a.candidate = none) (empty : a.line = [])
    (down : p.pressed = true) (tapKey : a.isTapHoldKey km p.key = true)
    (window : a.Window km p w) :
    let last := (a.run km (p :: w)).1
    (∀ v, v <+: w → a.run km (p :: v) =
      (⟨(a.interpreter.carryOut km (a.overtaking km v)).1,
        ⟨a.backlog.capacity, a.deferred km v⟩, some ⟨p, ⟨0, hasPress v⟩⟩⟩,
        (a.interpreter.carryOut km (a.overtaking km v)).2)) ∧
    (∀ e, a.IsBystander km p.key e ∨ e.key = p.key ∧ e.pressed = false →
      a.MakesHold p w e →
        let told := last.interpreter.carryOut km
          (⟨p, ⟨0, hasPress w⟩⟩ :: (a.deferred km w ++ (realEvents [e]).map .ofEvent))
        last.handle km e = (⟨told.1, .empty a.backlog.capacity, none⟩, told.2)) ∧
    (∀ e, e.key = p.key → e.pressed = false → e.time.isWithin p.time a.term = true →
      let tap : Tap :=
        ⟨if a.interpreter.isModsTapKeyAt km p.key && hasPress w then 0 else 1, hasPress w⟩
      let told := last.interpreter.carryOut km
        (⟨p, ⟨1, hasPress w⟩⟩ :: (a.deferred km w ++ [⟨e, tap⟩]))
      (last.interpreter.dispatch km ⟨p, ⟨1, hasPress w⟩⟩ false).record = ⟨p, tap⟩ ∧
        last.handle km e = (⟨told.1, .empty a.backlog.capacity,
          if tap.count = 0 then none else some ⟨e, tap⟩⟩, told.2)) := by
  intro last
  have real := real_of_isTapHoldKey tapKey
  have state : last = a.undecidedAfter km p w :=
    congrArg Prod.fst (run_window uniform idle empty down tapKey window)
  rw [state]
  refine ⟨fun v front => ?_, fun e next settles => ?_, fun e same up inTerm => ⟨?_, ?_⟩⟩
  · obtain ⟨rest, rfl⟩ := front
    exact run_window uniform idle empty down tapKey window.left
  · exact handle_hold uniform down real window next settles
  · exact record_settledTap uniform down real
  · exact handle_tap uniform down real window same up inTerm

/-- Shift and a key are down when a key of control goes down. The other key comes up and is
dispatched at once; the release of shift waits, and so does the press of a third key. When the third
key comes up, control is held; when control comes up, its tap turns out to be a hold. -/
theorem decision_of_shifted_window :
    let km := Keymap.ofKeys fun key =>
      if key.col = 0 then 0x2104 else if key.col = 1 then 0x00e1 else 0x0005
    let press (col : Byte) (ms : Word) : KeyEvent := ⟨⟨0, col⟩, true, ⟨ms⟩⟩
    let release (col : Byte) (ms : Word) : KeyEvent := ⟨⟨0, col⟩, false, ⟨ms⟩⟩
    let a := ((start .standard 0 3).run km [press 1 0, press 3 5]).1
    let w := [.tick ⟨20⟩, release 3 25, release 1 30, press 2 40]
    let last := (a.run km (press 0 10 :: w)).1
    dispatchedEvents (a.run km (press 0 10 :: w)).2 = [release 3 25] ∧
      dispatchedEvents (last.handle km (release 2 50)).2 =
        [press 0 10, release 1 30, press 2 40, release 2 50] ∧
      (last.handle km (release 2 50)).1.candidate = none ∧
      dispatchedEvents (last.handle km (release 0 50)).2 =
        [press 0 10, release 1 30, press 2 40, release 0 50] ∧
      (last.interpreter.dispatch km ⟨press 0 10, ⟨1, true⟩⟩ false).record.tap = ⟨0, true⟩ := by
  intro km press release a w last
  have window : a.Window km (press 0 10) w :=
    ⟨by decide +kernel, by decide +kernel, by decide +kernel, by decide +kernel⟩
  obtain ⟨during, hold, tap⟩ := decision_of_window km a (press 0 10) w
    (Keymap.uniform_ofKeys _ _) (by decide +kernel) (by decide +kernel) rfl (by decide +kernel)
    window
  have held := hold (release 2 50) (Or.inl (by decide +kernel))
    (Or.inr ⟨rfl, press 2 40, by decide +kernel, rfl, rfl⟩)
  obtain ⟨settled, tapped⟩ := tap (release 0 50) rfl rfl (by decide +kernel)
  refine ⟨?_, ?_, ?_, ?_, ?_⟩
  · rw [during w (List.prefix_refl w)]
    decide +kernel
  · rw [held]
    decide +kernel
  · rw [held]
  · rw [tapped]
    decide +kernel
  · exact (congrArg Record.tap settled).trans (by decide +kernel)

end Arbiter

end TapHold
