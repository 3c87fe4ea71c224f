import TapHold.Proofs.Arbiter.Decision
import TapHold.Proofs.Arbiter.Tick

/-!
# One key at a time

As long as only one key is struck, nothing ever waits: each event hands over some records and leaves
a candidate (`carried`), and it does so in one step. A tick ends a term or does nothing; the press
of a tap key is undecided, or it counts as one more tap; its release settles it, or ends it.
-/

set_option autoImplicit false

namespace TapHold

/-- The action of a key tells whether it is a tap key. -/
theorem Interpreter.isTapHoldKey_of_resolve {i : Interpreter} {km : Keymap} {key : Position}
    {action : Action} (real : key.isNowhere = false) (bound : i.resolve km key = .ok action) :
    i.isTapHoldKey km key = action.dependsOnTap := by
  simp only [isTapHoldKey, real, bound, Bool.not_false, Bool.true_and]

namespace Arbiter

variable {km : Keymap} {a b : Arbiter} {c r : Record} {p e : KeyEvent} {rs ts : List Record}
  {out : List Emission} {now : Time} {within : Bool}

/-! ## What is handed over -/

/-- The state and the emissions when the records `rs` have been handed over, nothing is in line, and
`c` is the candidate. -/
def carried (a : Arbiter) (km : Keymap) (rs : List Record) (c : Option Record) :
    Arbiter × List Emission :=
  (⟨(a.interpreter.carryOut km rs).1, .empty a.backlog.capacity, c⟩,
    (a.interpreter.carryOut km rs).2)

theorem settings_carried (a : Arbiter) (km : Keymap) (rs : List Record) (c : Option Record) :
    (a.carried km rs c).1.interpreter.settings = a.interpreter.settings :=
  Interpreter.settings_carryOut a.interpreter km rs

theorem term_carried (a : Arbiter) (km : Keymap) (rs : List Record) (c : Option Record) :
    (a.carried km rs c).1.term = a.term := congrArg Settings.term (settings_carried a km rs c)

/-- Handing over goes on. -/
theorem carried_append (a : Arbiter) (km : Keymap) (rs ts : List Record) (c d : Option Record) :
    a.carried km (rs ++ ts) d =
      (((a.carried km rs c).1.carried km ts d).1,
        (a.carried km rs c).2 ++ ((a.carried km rs c).1.carried km ts d).2) := by
  simp only [carried, Interpreter.carryOut_append]
  rfl

/-- Where nothing is in line, only the candidate tells the state from the one before. -/
theorem carried_nil (hl : a.line = []) (c : Option Record) :
    a.carried km [] c = (a.withCandidate c, []) := by
  obtain ⟨i, ⟨n, rs⟩, c⟩ := a
  obtain rfl : rs = [] := hl
  rfl

/-- The candidate from before does not matter. -/
theorem carried_withCandidate (a : Arbiter) (km : Keymap) (rs : List Record)
    (c d : Option Record) : (a.withCandidate c).carried km rs d = a.carried km rs d := rfl

/-- A record that nothing has interrupted is handed over and settled as it is. -/
theorem dispatch_alone (km : Keymap) (hl : a.line = []) (real : r.isTick = false)
    (calm : r.tap.interrupted = false) :
    a.dispatch km r false =
      ⟨a.withInterpreter (a.interpreter.carryOut km [r]).1, r,
        (a.interpreter.carryOut km [r]).2⟩ := by
  have records : a.backlog.records = [] := hl
  -- neither what waits nor what has come in between overrules the record
  have alone : a.backlog.hasOtherPress r.event.key = false := by
    rw [Backlog.hasOtherPress, records, List.any_nil]
  have firm : Interpreter.isOverruled r false = false := by
    simp [Interpreter.isOverruled, calm]
  have settled : (a.interpreter.dispatch km r false).record = r := by
    rw [Interpreter.record_dispatch _ km r false real, firm, Bool.and_false]
    rfl
  rw [dispatch_eq_carryOut a km real (by rw [alone]), settled]

/-- The state after such a record, with some candidate. -/
theorem withInterpreter_eq_carried (hl : a.line = []) (rs : List Record) (c : Option Record) :
    (a.withInterpreter (a.interpreter.carryOut km rs).1).withCandidate c =
      (a.carried km rs c).1 := by
  obtain ⟨i, ⟨n, records⟩, d⟩ := a
  obtain rfl : records = [] := hl
  rfl

/-- An event that is consumed at once. -/
theorem handle_of_consumed (tried : a.attempt km (.ofEvent e) = ⟨b, none, out⟩)
    (hl : b.line = []) : a.handle km e = (b, out) := by
  rw [handle, accept, tried]
  dsimp only
  rw [drain_of_line km hl, List.append_nil]

/-! ## Ticks -/

/-- A tick only ends a term. -/
theorem handle_tick_alone (hl : a.line = [])
    (real : ∀ c, a.candidate = some c → c.isTick = false) :
    a.handle km (.tick now) = a.expire km now := by
  have accepted : a.accept km (.tick now) = a.expire km now :=
    accept_tick (e := .tick now) km rfl real
  have none : (a.expire km now).1.line = [] := by
    unfold expire
    repeat' split
    all_goals simp [hl]
  rw [handle, accepted, drain_of_line km none, List.append_nil]

/-- Nothing happens at a tick unless a term ends. -/
theorem handle_tick_kept (hl : a.line = [])
    (real : ∀ c, a.candidate = some c → c.isTick = false) (kept : a.Unexpired now) :
    a.handle km (.tick now) = a.carried km [] a.candidate := by
  rw [handle_tick_alone hl real, expire_of_unexpired km kept, carried_nil hl]
  rfl

/-- A tick drops a released tap whose term has passed. -/
theorem handle_tick_lapsed (hl : a.line = []) (hc : a.candidate = some c) (real : c.isTick = false)
    (up : c.event.pressed = false) (late : now.isWithin c.event.time a.term = false) :
    a.handle km (.tick now) = a.carried km [] none := by
  rw [handle_tick_alone hl (fun d hd => Option.some.inj (hc.symm.trans hd) ▸ real), expire, hc]
  simp only [late, Bool.false_eq_true, if_false, up, Bool.not_false, if_true]
  exact (carried_nil hl none).symm

/-- A tick makes an undecided press a hold when its term has passed. -/
theorem handle_tick_hold (hl : a.line = []) (hc : a.candidate = some ⟨p, ⟨0, false⟩⟩)
    (real : p.isTick = false) (down : p.pressed = true)
    (late : now.isWithin p.time a.term = false) :
    a.handle km (.tick now) = a.carried km [⟨p, ⟨0, false⟩⟩] none := by
  rw [handle_tick_alone hl (fun d hd => Option.some.inj (hc.symm.trans hd) ▸ real), expire, hc]
  simp only [late, Bool.false_eq_true, if_false, down, Bool.not_true, if_true,
    dispatch_alone km (r := ⟨p, ⟨0, false⟩⟩) hl real rfl, withInterpreter_eq_carried hl]
  rfl

/-! ## Presses and releases -/

/-- The press of a tap key makes it the candidate. -/
theorem handle_press_alone (hl : a.line = []) (idle : a.candidate = none)
    (down : p.pressed = true) (tapKey : a.isTapHoldKey km p.key = true) :
    a.handle km p = a.carried km [] (some ⟨p, ⟨0, false⟩⟩) :=
  handle_press idle hl down tapKey

/-- A release where nothing is to be decided is handed over. -/
theorem handle_release_alone (hl : a.line = []) (idle : a.candidate = none)
    (real : e.isTick = false) (up : e.pressed = false) :
    a.handle km e = a.carried km [.ofEvent e] none := by
  have tried : a.attempt km (.ofEvent e) = ⟨(a.carried km [.ofEvent e] none).1, none,
      (a.interpreter.carryOut km [.ofEvent e]).2⟩ := by
    rw [attempt, idle]
    simp only [attemptFree, Record.event_ofEvent, up, Bool.false_and, Bool.false_eq_true, if_false,
      pass, dispatch_alone km (r := .ofEvent e) hl real rfl]
    rw [← withInterpreter_eq_carried hl, withCandidate, ← idle]
    rfl
  exact handle_of_consumed tried rfl

/-- When the term of a released tap has passed, the press of a tap key makes it the candidate as if
there had been none. -/
theorem handle_press_lapsed (hl : a.line = []) (hc : a.candidate = some c)
    (up : c.event.pressed = false) (down : p.pressed = true)
    (tapKey : a.isTapHoldKey km p.key = true)
    (late : p.time.isWithin c.event.time a.term = false) :
    a.handle km p = a.carried km [] (some ⟨p, ⟨0, false⟩⟩) := by
  have tried : a.attempt km (.ofEvent p) = (a.withCandidate none).attempt km (.ofEvent p) := by
    simp only [attempt, hc, candidate_withCandidate, up, Bool.not_false, if_true, attemptReleased,
      Record.event_ofEvent, late]
    rfl
  have same : a.handle km p = (a.withCandidate none).handle km p := by
    rw [handle, handle, accept, accept, tried]
  rw [same, handle_press_alone (a := a.withCandidate none) hl rfl down tapKey,
    carried_withCandidate]

/-- The press of another key that is no tap key is handed over, and interrupts a released tap or
drops it. -/
theorem handle_press_plain (km : Keymap) (hl : a.line = []) (hc : a.candidate = some c)
    (up : c.event.pressed = false) (real : p.isTick = false) (down : p.pressed = true)
    (other : p.key ≠ c.event.key) (plain : a.isTapHoldKey km p.key = false) :
    ∃ d, a.handle km p = a.carried km [.ofEvent p] d := by
  have passed (d : Option Record) : (a.withCandidate d).pass km (.ofEvent p) =
      ⟨(a.carried km [.ofEvent p] d).1, none, (a.interpreter.carryOut km [.ofEvent p]).2⟩ := by
    rw [pass, dispatch_alone (a := a.withCandidate d) km (r := .ofEvent p) hl real rfl,
      ← withInterpreter_eq_carried hl]
    rfl
  -- the released tap is dropped outside its term, and interrupted within it
  have tried : ∃ d, a.attempt km (.ofEvent p) = (a.withCandidate d).pass km (.ofEvent p) := by
    cases told : p.time.isWithin c.event.time a.term with
    | false =>
      have plain' : (a.withCandidate none).isTapHoldKey km p.key = false := plain
      refine ⟨none, ?_⟩
      simp only [attempt, hc, up, Bool.not_false, if_true, attemptReleased, Record.event_ofEvent,
        told]
      show (a.withCandidate none).attemptFree km (.ofEvent p) = _
      simp only [attemptFree, Record.event_ofEvent, down, plain', Bool.and_false,
        Bool.false_eq_true, if_false]
    | true =>
      refine ⟨some c.interrupt, ?_⟩
      simp only [attempt, hc, up, Bool.not_false, if_true, attemptReleased, Record.event_ofEvent,
        told, Bool.not_true, Bool.false_eq_true, if_false, down, if_neg other, plain]
      rfl
  obtain ⟨d, tried⟩ := tried
  exact ⟨d, handle_of_consumed (tried.trans (passed d)) rfl⟩

/-- The key of a released tap goes down within the term: it is tapped once more. -/
theorem handle_again (km : Keymap) (hl : a.line = []) (hc : a.candidate = some c)
    (up : c.event.pressed = false) (calm : c.tap.interrupted = false) (pos : 0 < c.tap.count)
    (real : p.isTick = false) (down : p.pressed = true) (same : p.key = c.event.key)
    (inTerm : p.time.isWithin c.event.time a.term = true) :
    a.handle km p = a.carried km [⟨p, c.tap.next⟩] (some ⟨p, c.tap.next⟩) := by
  have handed := dispatch_alone km (r := ⟨p, c.tap.next⟩) hl real calm
  have tried : a.attempt km (.ofEvent p) =
      ⟨(a.carried km [⟨p, c.tap.next⟩] (some ⟨p, c.tap.next⟩)).1, none,
        (a.interpreter.carryOut km [⟨p, c.tap.next⟩]).2⟩ := by
    simp only [attempt, hc, up, Bool.not_false, if_true, attemptReleased, Record.event_ofEvent,
      inTerm, Bool.not_true, Bool.false_eq_true, if_false, down, same, calm, pos, decide_true,
      Bool.and_self]
    rw [handed, ← withInterpreter_eq_carried hl]
    rfl
  exact handle_of_consumed tried rfl

/-- A tap that is still down comes up: the release takes part in it, and stays the candidate if it
comes within the term. -/
theorem handle_release_tapped (hl : a.line = []) (hc : a.candidate = some c)
    (down : c.event.pressed = true) (calm : c.tap.interrupted = false) (pos : 0 < c.tap.count)
    (real : e.isTick = false) (up : e.pressed = false) (same : e.key = c.event.key)
    (told : e.time.isWithin c.event.time a.term = within) :
    a.handle km e = a.carried km [⟨e, c.tap⟩] (if within then some ⟨e, c.tap⟩ else none) := by
  have handed := dispatch_alone km (r := ⟨e, c.tap⟩) hl real calm
  have tried : a.attempt km (.ofEvent e) =
      ⟨(a.carried km [⟨e, c.tap⟩] (if within then some ⟨e, c.tap⟩ else none)).1, none,
        (a.interpreter.carryOut km [⟨e, c.tap⟩]).2⟩ := by
    simp only [attempt, hc, down, Bool.not_true, Bool.false_eq_true, if_false, Nat.ne_of_gt pos,
      attemptTapped, Record.event_ofEvent, same, decide_true, up, Bool.not_false, Bool.and_self,
      if_true, releaseTap, handed, told]
    rw [← withInterpreter_eq_carried hl]
    rfl
  exact handle_of_consumed tried rfl

/-- An undecided tap key comes up within the term: it has been tapped, and its release takes part in
the tap. -/
theorem handle_release_tap (hl : a.line = []) (hc : a.candidate = some ⟨p, ⟨0, false⟩⟩)
    (room : 0 < a.backlog.capacity) (down : p.pressed = true) (real : p.isTick = false)
    (up : e.pressed = false) (same : e.key = p.key)
    (inTerm : e.time.isWithin p.time a.term = true) :
    a.handle km e = a.carried km [⟨p, ⟨1, false⟩⟩, ⟨e, ⟨1, false⟩⟩] (some ⟨e, ⟨1, false⟩⟩) := by
  have notTick : e.isTick = false := (isTick_of_key same).trans real
  have handed := dispatch_alone km (r := ⟨p, ⟨1, false⟩⟩) hl real rfl
  let tapped := (a.carried km [⟨p, ⟨1, false⟩⟩] (some ⟨p, ⟨1, false⟩⟩)).1
  have tried : a.attempt km (.ofEvent e) = ⟨tapped, some ⟨e, ⟨1, false⟩⟩,
      (a.interpreter.carryOut km [⟨p, ⟨1, false⟩⟩]).2⟩ := by
    simp only [attempt, hc, down, Bool.not_true, Bool.false_eq_true, if_false, if_true,
      attemptUndecided, Record.event_ofEvent, inTerm, up, same, settleTap, dispatchTap]
    rw [show Record.withCount ⟨p, ⟨0, false⟩⟩ 1 = ⟨p, ⟨1, false⟩⟩ from rfl, handed]
    simp only [Nat.one_ne_zero, if_false, tapped, ← withInterpreter_eq_carried hl]
    rfl
  -- the release joins the line and is tried again, against the tap that it has made
  have joined := postpone_of_room (r := ⟨e, ⟨1, false⟩⟩) (a := tapped) notTick room
  have term : (tapped.withLine [⟨e, ⟨1, false⟩⟩]).term = a.term :=
    term_carried a km [⟨p, ⟨1, false⟩⟩] (some ⟨p, ⟨1, false⟩⟩)
  have drained := drain_of_release km (a := tapped.withLine [⟨e, ⟨1, false⟩⟩])
    (c := ⟨p, ⟨1, false⟩⟩) rfl down Nat.one_pos rfl notTick same up (term ▸ inTerm)
  rw [handle, accept, tried]
  dsimp only
  rw [joined, show tapped.line ++ [⟨e, ⟨1, false⟩⟩] = [⟨e, ⟨1, false⟩⟩] from rfl, drained]
  rfl

/-- An undecided tap key comes up outside the term: it has been held. -/
theorem handle_release_hold (hl : a.line = []) (hc : a.candidate = some ⟨p, ⟨0, false⟩⟩)
    (room : 0 < a.backlog.capacity) (down : p.pressed = true) (real : p.isTick = false)
    (up : e.pressed = false) (same : e.key = p.key)
    (late : e.time.isWithin p.time a.term = false) :
    a.handle km e = a.carried km [⟨p, ⟨0, false⟩⟩, ⟨e, ⟨0, false⟩⟩] none := by
  have notTick : e.isTick = false := (isTick_of_key same).trans real
  have handed := dispatch_alone km (r := ⟨p, ⟨0, false⟩⟩) hl real rfl
  let held := (a.carried km [⟨p, ⟨0, false⟩⟩] none).1
  have tried : a.attempt km (.ofEvent e) = ⟨held, some (.ofEvent e),
      (a.interpreter.carryOut km [⟨p, ⟨0, false⟩⟩]).2⟩ := by
    simp only [attempt, hc, down, Bool.not_true, Bool.not_false, Bool.false_eq_true, if_false,
      if_true, attemptUndecided, Record.event_ofEvent, late, settleHold, handed, held,
      ← withInterpreter_eq_carried hl]
    rfl
  have joined := postpone_of_room (r := .ofEvent e) (a := held) notTick room
  -- no candidate is left, so the release passes
  have slips : (held.withLine [.ofEvent e]).Slips km (.ofEvent e) := by
    refine ⟨notTick, fun other => Interpreter.isOverruled_of_up up other, fun b free _ => ?_⟩
    rw [attempt, show b.candidate = none from free]
    simp only [attemptFree, Record.event_ofEvent, up, Bool.false_and, Bool.false_eq_true, if_false]
  have drained := drain_of_all_slip (a := held.withLine [.ofEvent e]) rfl fun r hr => by
    obtain rfl := List.mem_singleton.mp hr
    exact slips
  rw [handle, accept, tried]
  dsimp only
  rw [joined, show held.line ++ [.ofEvent e] = [.ofEvent e] from rfl, drained]
  rfl

end Arbiter

end TapHold
