import TapHold.Proofs.Arbiter.Carry
import TapHold.Proofs.Arbiter.Run
import TapHold.Proofs.Arbiter.Tries

/-!
# From the press of a tap key to its decision

While a tap key is undecided, ticks and edges of other keys come. The state of the arbiter after
them is not found by running it: `undecidedAfter` computes it from the list of the events that came.
Releases overtake, unless they let a modifier go, and all else is deferred. Each further event leads
from the state after some events to the state after one more (`handle_undecidedAfter`), and the
oldest record in line, when it is tried again, changes nothing (`advance?_undecidedAfter`).

One event then decides. A release of a key that was pressed meanwhile, or any event outside the
term, makes the tap key a hold (`handle_hold`); its own release within the term makes it a tap
(`handle_tap`), which may yet be overruled. Either way the deferred records follow in order, and
then the event itself.
-/

set_option autoImplicit false

namespace TapHold

namespace Arbiter

variable {km : Keymap} {a b : Arbiter} {c r : Record} {p e x : KeyEvent} {v w : List KeyEvent}

/-! ## Events while a tap key is undecided -/

/-- A tick, or an edge of a key other than `key` that is no tap key. -/
def IsBystander (km : Keymap) (a : Arbiter) (key : Position) (e : KeyEvent) : Prop :=
  e = .tick e.time ∨ (e.isTick = false ∧ e.key ≠ key ∧ a.isTapHoldKey km e.key = false)

instance (km : Keymap) (a : Arbiter) (key : Position) (e : KeyEvent) :
    Decidable (a.IsBystander km key e) := inferInstanceAs (Decidable (_ ∨ _))

/-- Whether an event has to wait for the decision: a press, or a release that lets a modifier go. -/
def defers (a : Arbiter) (km : Keymap) (e : KeyEvent) : Bool :=
  !e.isTick && (e.pressed || a.interpreter.holdsModifier km (.ofEvent e))

/-- Whether an event is dispatched before the decision: any other release. -/
def overtakes (a : Arbiter) (km : Keymap) (e : KeyEvent) : Bool :=
  !e.isTick && !(e.pressed || a.interpreter.holdsModifier km (.ofEvent e))

/-- The records of the events that wait for the decision. -/
def deferred (a : Arbiter) (km : Keymap) (v : List KeyEvent) : List Record :=
  (v.filter (a.defers km)).map .ofEvent

/-- The records of the events that are dispatched before the decision. -/
def overtaking (a : Arbiter) (km : Keymap) (v : List KeyEvent) : List Record :=
  (v.filter (a.overtakes km)).map .ofEvent

/-- Whether a key goes down. -/
def hasPress (v : List KeyEvent) : Bool := v.any KeyEvent.pressed

/-- Events that come after the press `p` and leave it undecided: ticks and edges of other keys,
within the term and fewer to defer than there is room for, and none of them is the release of a key
that goes down among them. -/
structure Window (km : Keymap) (a : Arbiter) (p : KeyEvent) (w : List KeyEvent) : Prop where
  bystander : ∀ x ∈ w, a.IsBystander km p.key x
  inTerm : ∀ x ∈ w, x.time.isWithin p.time a.term = true
  untyped : ∀ x ∈ w, ∀ y ∈ w, x.isTick = false → x.pressed = false → y.pressed = true →
    y.key ≠ x.key
  room : (a.deferred km w).length < a.backlog.capacity

/-- The state after the press `p` and the events `v`, of which none has decided about `p`. -/
def undecidedAfter (a : Arbiter) (km : Keymap) (p : KeyEvent) (v : List KeyEvent) : Arbiter :=
  ⟨(a.interpreter.carryOut km (a.overtaking km v)).1, ⟨a.backlog.capacity, a.deferred km v⟩,
    some ⟨p, ⟨0, hasPress v⟩⟩⟩

/-- Whether an event is a tick is a matter of its key. -/
theorem isTick_of_key (same : e.key = p.key) : e.isTick = p.isTick :=
  congrArg Position.isNowhere same

theorem IsBystander.real_of_pressed {key : Position} (h : a.IsBystander km key e)
    (pressed : e.pressed = true) : e.isTick = false := by
  rcases h with tick | ⟨real, -⟩
  · rw [tick] at pressed
    cases pressed
  · exact real

theorem IsBystander.plain {key : Position} (h : a.IsBystander km key e) :
    a.isTapHoldKey km e.key = false := by
  rcases h with tick | ⟨-, -, plain⟩
  · rw [tick]
    exact isTapHoldKey_of_tick (r := .ofEvent (.tick e.time)) a km rfl
  · exact plain

theorem IsBystander.key_ne (h : a.IsBystander km p.key e) (real : p.isTick = false) :
    e.key ≠ p.key := by
  rcases h with tick | ⟨-, other, -⟩
  · rw [tick]
    intro same
    cases (isTick_of_key same).trans real
  · exact other

theorem deferred_append (a : Arbiter) (km : Keymap) (v w : List KeyEvent) :
    a.deferred km (v ++ w) = a.deferred km v ++ a.deferred km w := by
  simp only [deferred, List.filter_append, List.map_append]

theorem overtaking_append (a : Arbiter) (km : Keymap) (v w : List KeyEvent) :
    a.overtaking km (v ++ w) = a.overtaking km v ++ a.overtaking km w := by
  simp only [overtaking, List.filter_append, List.map_append]

theorem mem_deferred : r ∈ a.deferred km v ↔ ∃ x ∈ v, a.defers km x = true ∧ .ofEvent x = r := by
  simp only [deferred, List.mem_map, List.mem_filter, and_assoc]

/-- The first events of a window are one. -/
theorem Window.left (h : a.Window km p (v ++ w)) : a.Window km p v where
  bystander := fun x hx => h.bystander x (List.mem_append_left w hx)
  inTerm := fun x hx => h.inTerm x (List.mem_append_left w hx)
  untyped := fun x hx y hy =>
    h.untyped x (List.mem_append_left w hx) y (List.mem_append_left w hy)
  room := by
    have room := h.room
    rw [deferred_append, List.length_append] at room
    omega

/-! ## What waits -/

/-- The state after one more event. -/
theorem undecidedAfter_concat (a : Arbiter) (km : Keymap) (p : KeyEvent) (v : List KeyEvent)
    (x : KeyEvent) : a.undecidedAfter km p (v ++ [x]) =
      ⟨((a.undecidedAfter km p v).interpreter.carryOut km (a.overtaking km [x])).1,
        ⟨a.backlog.capacity, a.deferred km v ++ a.deferred km [x]⟩,
        some ⟨p, ⟨0, hasPress v || x.pressed⟩⟩⟩ := by
  simp only [undecidedAfter, overtaking_append, deferred_append, Interpreter.carryOut_append,
    hasPress, List.any_append, List.any_cons, List.any_nil, Bool.or_false]

theorem settings_undecidedAfter (a : Arbiter) (km : Keymap) (p : KeyEvent) (v : List KeyEvent) :
    (a.undecidedAfter km p v).interpreter.settings = a.interpreter.settings :=
  Interpreter.settings_carryOut a.interpreter km _

theorem term_undecidedAfter (a : Arbiter) (km : Keymap) (p : KeyEvent) (v : List KeyEvent) :
    (a.undecidedAfter km p v).term = a.term :=
  congrArg Settings.term (settings_undecidedAfter a km p v)

/-- The opposite edge of a release waits when the key went down meanwhile. -/
theorem hasOpposite_undecidedAfter (window : a.Window km p v) (up : x.pressed = false) :
    (a.undecidedAfter km p v).backlog.hasOpposite x = true ↔
      ∃ y ∈ v, y.pressed = true ∧ y.key = x.key := by
  show (a.deferred km v).any _ = true ↔ _
  rw [List.any_eq_true]
  constructor
  · rintro ⟨r, hr, opposite⟩
    obtain ⟨y, hy, -, rfl⟩ := mem_deferred.mp hr
    simp only [Record.event_ofEvent, up, Bool.and_eq_true, beq_iff_eq, bne_iff_ne,
      Bool.not_eq_false] at opposite
    exact ⟨y, hy, opposite.2, opposite.1⟩
  · rintro ⟨y, hy, pressed, same⟩
    have real := (window.bystander y hy).real_of_pressed pressed
    refine ⟨.ofEvent y, mem_deferred.mpr ⟨y, hy, ?_, rfl⟩, ?_⟩
    · simp [defers, real, pressed]
    · simp [same, pressed, up]

/-- A press that waits is one that came meanwhile. -/
theorem hasPress_of_hasOtherPress {key : Position}
    (found : (a.undecidedAfter km p v).backlog.hasOtherPress key = true) : hasPress v = true := by
  obtain ⟨r, hr, other⟩ := List.any_eq_true.mp found
  obtain ⟨y, hy, -, rfl⟩ := mem_deferred.mp hr
  simp only [Record.event_ofEvent, Bool.and_eq_true] at other
  exact List.any_eq_true.mpr ⟨y, hy, other.1⟩

/-! ## One more event -/

/-- An event within the term that decides nothing about the candidate `c`. -/
theorem attempt_undeciding (km : Keymap) (hc : a.candidate = some c) (hu : c.isUndecided = true)
    (inTerm : e.time.isWithin c.event.time a.term = true) (other : e.key ≠ c.event.key)
    (untyped : e.isTick = false → e.pressed = false → a.backlog.hasOpposite e = false) :
    a.attempt km (.ofEvent e) =
      if e.pressed then ⟨a.withCandidate (some c.interrupt), some (.ofEvent e), []⟩
      else if e.isTick || a.interpreter.holdsModifier km (.ofEvent e) then
        ⟨a, some (.ofEvent e), []⟩
      else a.pass km (.ofEvent e) := by
  have real : (Record.ofEvent e).isTick = e.isTick := rfl
  rw [attempt_undecided hc hu, attemptUndecided]
  simp only [Record.event_ofEvent, inTerm, Bool.not_true, Bool.false_eq_true, if_false, other, real]
  split
  · rfl
  rename_i up
  rw [Bool.not_eq_true] at up
  cases tick : e.isTick with
  | true => simp only [if_true, Bool.true_or]
  | false => simp only [untyped tick up, Bool.false_eq_true, if_false, Bool.false_or]

/-- The candidate of a window is undecided. -/
theorem isUndecided_pending (down : p.pressed = true) (v : List KeyEvent) :
    Record.isUndecided ⟨p, ⟨0, hasPress v⟩⟩ = true := Record.isUndecided_iff.mpr ⟨down, rfl⟩

/-- An attempt at an event of a window, in the state after some of its events. -/
theorem attempt_undecidedAfter (uniform : km.Uniform a.interpreter.settings)
    (down : p.pressed = true) (real : p.isTick = false) (window : a.Window km p v)
    (bystander : a.IsBystander km p.key x) (inTerm : x.time.isWithin p.time a.term = true)
    (untyped : x.isTick = false → x.pressed = false → ∀ y ∈ v, y.pressed = true → y.key ≠ x.key) :
    (a.undecidedAfter km p v).attempt km (.ofEvent x) =
      if x.pressed then
        ⟨(a.undecidedAfter km p v).withCandidate (some ⟨p, ⟨0, true⟩⟩), some (.ofEvent x), []⟩
      else if x.isTick || a.interpreter.holdsModifier km (.ofEvent x) then
        ⟨a.undecidedAfter km p v, some (.ofEvent x), []⟩
      else (a.undecidedAfter km p v).pass km (.ofEvent x) := by
  have within : x.time.isWithin p.time (a.undecidedAfter km p v).term = true := by
    rw [term_undecidedAfter]
    exact inTerm
  have notTyped (tick : x.isTick = false) (up : x.pressed = false) :
      (a.undecidedAfter km p v).backlog.hasOpposite x = false := by
    rw [Bool.eq_false_iff]
    intro opposite
    obtain ⟨y, hy, pressed, same⟩ := (hasOpposite_undecidedAfter window up).mp opposite
    exact untyped tick up y hy pressed same
  have tried := attempt_undeciding km (a := a.undecidedAfter km p v) rfl
    (isUndecided_pending down v) within (bystander.key_ne real) notTyped
  rw [Interpreter.holdsModifier_of_uniform uniform (settings_undecidedAfter a km p v)] at tried
  exact tried

/-- A record in front that has to wait and leaves the candidate as it is changes nothing. -/
theorem advance?_of_waiting {rest : List Record} {s : Record} (hl : a.line = r :: rest)
    (waits : (a.attempt km r).waiting = some s)
    (same : (a.attempt km r).arbiter.candidate = a.candidate) : a.advance? km = none := by
  have records : a.backlog.records = r :: rest := hl
  simp only [advance?, records, waits, same, if_true]

/-- Before the decision the oldest record in line changes nothing when it is tried again. -/
theorem advance?_undecidedAfter (uniform : km.Uniform a.interpreter.settings)
    (down : p.pressed = true) (real : p.isTick = false) (window : a.Window km p v) :
    (a.undecidedAfter km p v).advance? km = none := by
  cases hl : a.deferred km v with
  | nil =>
    have records : (a.undecidedAfter km p v).backlog.records = [] := hl
    simp only [advance?, records]
  | cons r rest =>
    obtain ⟨x, hx, waits, rfl⟩ := mem_deferred.mp (hl ▸ List.mem_cons_self : r ∈ a.deferred km v)
    have tried := attempt_undecidedAfter uniform down real window (window.bystander x hx)
      (window.inTerm x hx) fun tick up y hy => window.untyped x hx y hy tick up
    cases pressed : x.pressed with
    | true =>
      -- the candidate has been interrupted already
      have interrupted : hasPress v = true := List.any_eq_true.mpr ⟨x, hx, pressed⟩
      rw [if_pos pressed] at tried
      refine advance?_of_waiting hl (congrArg Attempt.waiting tried) ?_
      rw [tried, undecidedAfter, interrupted]
      rfl
    | false =>
      have holds : a.interpreter.holdsModifier km (.ofEvent x) = true := by
        simp only [defers, pressed, Bool.and_eq_true, Bool.false_or] at waits
        exact waits.2
      rw [if_neg (by simp [pressed]), holds, Bool.or_true, if_pos rfl] at tried
      refine advance?_of_waiting hl (congrArg Attempt.waiting tried) ?_
      rw [tried]

/-- An event of a window is dispatched if it overtakes, joins the line if it is deferred, and
interrupts the candidate if it is a press. -/
theorem accept_undecidedAfter (uniform : km.Uniform a.interpreter.settings)
    (down : p.pressed = true) (real : p.isTick = false) (window : a.Window km p (v ++ [x])) :
    (a.undecidedAfter km p v).accept km x = (a.undecidedAfter km p (v ++ [x]),
      ((a.undecidedAfter km p v).interpreter.carryOut km (a.overtaking km [x])).2) := by
  have last : x ∈ v ++ [x] := List.mem_append_right v (List.mem_singleton_self x)
  have bystander := window.bystander x last
  have tried := attempt_undecidedAfter uniform down real window.left bystander
    (window.inTerm x last) fun tick up y hy =>
      window.untyped x last y (List.mem_append_left _ hy) tick up
  have room : (a.undecidedAfter km p v).line.length < a.backlog.capacity := window.left.room
  rw [accept, tried, undecidedAfter_concat]
  cases pressed : x.pressed with
  | true =>
    have notTick := bystander.real_of_pressed pressed
    have waits : a.deferred km [x] = [.ofEvent x] := by simp [deferred, defers, notTick, pressed]
    have stays : a.overtaking km [x] = [] := by simp [overtaking, overtakes, pressed]
    have joined := postpone_of_room (r := .ofEvent x)
      (a := (a.undecidedAfter km p v).withCandidate (some ⟨p, ⟨0, true⟩⟩)) notTick room
    rw [if_pos rfl, waits, stays, Bool.or_true]
    dsimp only
    rw [joined]
    rfl
  | false =>
    rw [if_neg Bool.false_ne_true, Bool.or_false]
    cases tick : x.isTick with
    | true =>
      have gone : a.deferred km [x] = [] := by simp [deferred, defers, tick]
      have stays : a.overtaking km [x] = [] := by simp [overtaking, overtakes, tick]
      rw [Bool.true_or, if_pos rfl, gone, stays, List.append_nil]
      dsimp only
      rw [postpone_tick _ (show (Record.ofEvent x).isTick = true from tick)]
      rfl
    | false =>
      rw [Bool.false_or]
      cases holds : a.interpreter.holdsModifier km (.ofEvent x) with
      | true =>
        have waits : a.deferred km [x] = [.ofEvent x] := by simp [deferred, defers, tick, holds]
        have stays : a.overtaking km [x] = [] := by simp [overtaking, overtakes, holds]
        have joined := postpone_of_room (r := .ofEvent x) (a := a.undecidedAfter km p v) tick room
        rw [if_pos rfl, waits, stays]
        dsimp only
        rw [joined]
        rfl
      | false =>
        have gone : a.deferred km [x] = [] := by simp [deferred, defers, pressed, holds]
        have passes : a.overtaking km [x] = [.ofEvent x] := by
          simp [overtaking, overtakes, pressed, holds, tick]
        have up : (Record.ofEvent x).event.pressed = false := pressed
        have handed := dispatch_eq_carryOut (a.undecidedAfter km p v) km (r := .ofEvent x)
          tick (by simp only [Interpreter.isOverruled_of_up up])
        rw [if_neg Bool.false_ne_true, gone, passes, List.append_nil, pass, handed]
        rfl

/-- **One more event of a window**: it is dispatched at once if it overtakes, and otherwise nothing
is. -/
theorem handle_undecidedAfter (uniform : km.Uniform a.interpreter.settings)
    (down : p.pressed = true) (real : p.isTick = false) (window : a.Window km p (v ++ [x])) :
    (a.undecidedAfter km p v).handle km x = (a.undecidedAfter km p (v ++ [x]),
      ((a.undecidedAfter km p v).interpreter.carryOut km (a.overtaking km [x])).2) := by
  rw [handle, accept_undecidedAfter uniform down real window]
  dsimp only
  rw [drain_of_stuck (advance?_undecidedAfter uniform down real window), List.append_nil]

/-- A tick is at no tap key. -/
theorem real_of_isTapHoldKey (tapKey : a.isTapHoldKey km p.key = true) : p.isTick = false := by
  by_contra tick
  rw [Bool.not_eq_false] at tick
  cases tapKey.symm.trans (isTapHoldKey_of_tick (r := .ofEvent p) a km tick)

/-- The press of a tap key, with no candidate and nothing in line, is undecided. -/
theorem handle_press (idle : a.candidate = none) (empty : a.line = []) (down : p.pressed = true)
    (tapKey : a.isTapHoldKey km p.key = true) : a.handle km p = (a.undecidedAfter km p [], []) := by
  have records : a.backlog.records = [] := empty
  have tried : a.attempt km (.ofEvent p) = ⟨a.withCandidate (some (.ofEvent p)), none, []⟩ := by
    simp only [attempt, idle, attemptFree, Record.event_ofEvent, down, tapKey, Bool.and_self,
      if_true, adopt, records, List.any_nil, Bool.and_false, Bool.false_eq_true, if_false]
    rfl
  have state : a.withCandidate (some (.ofEvent p)) = a.undecidedAfter km p [] := by
    obtain ⟨i, ⟨n, rs⟩, c⟩ := a
    obtain rfl : rs = [] := records
    rfl
  rw [handle, accept, tried]
  dsimp only
  rw [drain_of_line km (show (a.withCandidate (some (.ofEvent p))).line = [] from empty), state]
  rfl

/-- The state after the press of a tap key and some events of a window, and what they have
dispatched. -/
theorem run_window (uniform : km.Uniform a.interpreter.settings) (idle : a.candidate = none)
    (empty : a.line = []) (down : p.pressed = true) (tapKey : a.isTapHoldKey km p.key = true)
    (window : a.Window km p v) :
    a.run km (p :: v) = (a.undecidedAfter km p v,
      (a.interpreter.carryOut km (a.overtaking km v)).2) := by
  have real := real_of_isTapHoldKey tapKey
  induction v using List.reverseRecOn with
  | nil =>
    rw [run, handle_press idle empty down tapKey]
    rfl
  | append_singleton v x ih =>
    rw [← List.cons_append, run_concat, ih window.left,
      handle_undecidedAfter uniform down real window, overtaking_append,
      Interpreter.carryOut_append]
    rfl

end Arbiter

end TapHold
