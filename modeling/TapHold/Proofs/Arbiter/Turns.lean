import TapHold.Proofs.Arbiter.Due
import TapHold.Proofs.Arbiter.Run

/-!
# The turns of a key

The records of one key are dispatched in turn: a press, then a release. A tap that another tap key
ends while its key is still down is released by a record that the arbiter makes, and the release of
the key itself follows later, so there a second release comes (`Dispatched.Precedes`). Leaving out
what the arbiter made, the records are those of the key's events that came first.

The exception is a tap after the first that turns out to be a hold: its press is dispatched again
(`late_move`). `finalEvents` counts every event when it is dispatched for the last time.

`Turn` says what one step means for one key; `turn_move` and `turn_arrival` show that every step is
like this, but for that exception. `isChain_dispatchesOf` is the result for a run.
-/

set_option autoImplicit false

namespace TapHold

/-- What may follow a record of a key. After a press, and after a release that the arbiter made,
comes a release; after a release of the key itself comes a press. The arbiter makes a release only
for a key that it has just pressed. -/
structure Dispatched.Precedes (x y : Dispatched) : Prop where
  edge : y.given.event.pressed = (!x.given.event.pressed && !x.synthetic)
  made : y.synthetic = true → x.given.event.pressed = true

/-- The edge that comes to the interpreter after a record of a key, or first of all. -/
def nextEdge : Option Dispatched → Bool
  | none => true
  | some d => !d.given.event.pressed && !d.synthetic

/-- No backlog overflows, and no tap of the key after the first turns out to be a hold. -/
def Emission.IsCalm (key : Position) (x : Emission) : Prop :=
  x ≠ .overflow ∧ ∀ d, x = .dispatched d → d.given.event.key = key → d.isLateHold = false

/-- Whether the event of the record is not dispatched again: the arbiter did not make the record,
and it is no tap after the first that turned out to be a hold. -/
def Dispatched.isFinal (d : Dispatched) : Bool := !d.synthetic && !d.isLateHold

/-- The event that an emission dispatches for the last time. -/
def Emission.finalEvent? : Emission → Option KeyEvent
  | .dispatched d => if d.isFinal then some d.given.event else none
  | .overflow => none

/-- The events that are not dispatched again, in the order in which they were. -/
def finalEvents (out : List Emission) : List KeyEvent := out.filterMap Emission.finalEvent?

@[simp] theorem finalEvents_nil : finalEvents [] = [] := rfl

@[simp] theorem finalEvents_append (out out' : List Emission) :
    finalEvents (out ++ out') = finalEvents out ++ finalEvents out' :=
  List.filterMap_append

theorem finalEvents_singleton (d : Dispatched) :
    finalEvents [.dispatched d] = if d.isFinal then [d.given.event] else [] := by
  cases final : d.isFinal <;> simp [finalEvents, Emission.finalEvent?, final]

/-- A record whose event is dispatched again is the only exception. -/
theorem finalEvents_of_not_late {d : Dispatched} (notLate : d.isLateHold = false) :
    finalEvents [.dispatched d] = dispatchedEvents [.dispatched d] := by
  rw [finalEvents_singleton, Dispatched.isFinal, notLate, Bool.not_false, Bool.and_true]
  cases made : d.synthetic <;> simp [dispatchedEvents, Emission.event?, made]

theorem eq_of_dispatchedEvents {d : Dispatched} {e : KeyEvent}
    (one : dispatchedEvents [.dispatched d] = [e]) : d.given.event = e := by
  cases made : d.synthetic <;> simp [dispatchedEvents, Emission.event?, made] at one
  exact one

/-- Two ways to the events of one key that are dispatched for the last time. -/
theorem filter_finalEvents (key : Position) (out : List Emission) :
    (finalEvents out).filter (fun e => e.key = key) =
      ((dispatchesOf key out).filter Dispatched.isFinal).map fun d => d.given.event := by
  induction out with
  | nil => rfl
  | cons x out ih =>
    rw [← List.singleton_append, finalEvents_append, dispatchesOf_append, List.filter_append,
      List.filter_append, List.map_append, ih]
    congr 1
    cases x with
    | overflow => rfl
    | dispatched d =>
      rw [finalEvents_singleton]
      by_cases isKey : d.given.event.key = key
      · rw [dispatchesOf_singleton_of_eq isKey]
        cases final : d.isFinal <;> simp [final, isKey]
      · rw [dispatchesOf_singleton_of_ne isKey]
        cases final : d.isFinal <;> simp [isKey]

namespace Arbiter

variable {km : Keymap} {settings : Settings} {a b : Arbiter} {c r : Record} {rest : List Record}
  {out : List Emission} {down down' : Position → Bool} {arrived : List KeyEvent} {e : KeyEvent}
  {key : Position} {t : Tap} {d : Dispatched} {ds : List Dispatched}

/-- The key is the candidate, it has been tapped and is still down. -/
def HeldTap (a : Arbiter) (key : Position) (t : Tap) : Prop :=
  ∃ c, a.candidate = some c ∧ c.event.pressed = true ∧ c.event.key = key ∧ c.tap = t ∧ 0 < t.count

theorem not_heldTap_of_none (hc : a.candidate = none) : ¬ HeldTap a key t := by
  rintro ⟨c, h, -⟩
  cases hc.symm.trans h

/-- What a step means for one key. -/
inductive Turn (down : Position → Bool) (a : Arbiter) (out : List Emission)
    (down' : Position → Bool) (b : Arbiter) (key : Position) : Prop where
  /-- No record of the key is dispatched. -/
  | other (none : dispatchesOf key out = [])
      (next : (edges down' b.awaited key).head? = (edges down a.awaited key).head?)
      (held : ∀ t, HeldTap b key t → HeldTap a key t)
  /-- The first awaited edge of the key is dispatched. -/
  | own (d : Dispatched) (one : out = [.dispatched d]) (isKey : d.given.event.key = key)
      (real : d.synthetic = false)
      (before : (edges down a.awaited key).head? = some d.given.event.pressed)
      (next : (edges down' b.awaited key).head? = some (!d.given.event.pressed))
      (source : d.given.event.pressed = false → d.given ∈ a.line ∨ HeldTap a key d.given.tap)
      (held : ∀ t, HeldTap b key t → d.given.event.pressed = true ∧ d.settled.tap = t)
  /-- A release is made for the key, which was tapped. -/
  | made (d : Dispatched) (one : out = [.dispatched d]) (isKey : d.given.event.key = key)
      (synthetic : d.synthetic = true) (up : d.given.event.pressed = false)
      (next : (edges down' b.awaited key).head? = (edges down a.awaited key).head?)
      (source : HeldTap a key d.given.tap) (held : ∀ t, ¬ HeldTap b key t)

/-! ## Taps that are still down -/

/-- A tap that stays the candidate is the press that has just been dispatched. -/
theorem heldTap_dispatchTap (real : c.isTick = false) {rs : List Record}
    (h : HeldTap ((a.dispatchTap km c).arbiter.withLine rs) key t) :
    ∃ d, (a.dispatchTap km c).emitted = [.dispatched d] ∧ d.given.event.key = key ∧
      d.given.event.pressed = true ∧ d.settled.tap = t := by
  obtain ⟨x, hx, pressed, isKey, isTap, -⟩ := h
  obtain rfl := eq_of_candidate_dispatchTap hx
  rw [event_dispatchTap] at pressed isKey
  refine ⟨_, emitted_dispatch (r := c.withCount 1) a km real false, isKey, pressed, ?_⟩
  rw [← record_dispatch_eq (r := c.withCount 1) a km real false]
  exact isTap

/-- A record that is passed on is not of the key of a tap that is still down: the next edge of that
key is its release, which is not passed on. -/
theorem key_ne_of_pass (o : Orderly down a) (hc : a.candidate = some c)
    (pressed : c.event.pressed = true) (pos : 0 < c.tap.count) (hl : a.line = r :: rest)
    (other : ∀ c, a.candidate = some c → c.event.pressed = true → r.event.pressed = false →
      r.event.key ≠ c.event.key) : r.event.key ≠ c.event.key := by
  intro same
  have next := o.tapped c hc pressed pos
  rw [awaited_of_free (undecided?_of_decided hc (Record.isUndecided_of_pos pos)), hl, List.map_cons,
    edges_cons_of_eq same] at next
  exact other c hc pressed (Option.some.inj next) same

/-- A tap that is down after a move was down before it, or has just been dispatched. -/
theorem heldTap_move (o : Orderly down a) (m : Move km a out b) (h : HeldTap b key t) :
    (HeldTap a key t ∧ dispatchesOf key out = []) ∨
      ∃ d, out = [.dispatched d] ∧ d.given.event.key = key ∧ d.given.event.pressed = true ∧
        d.settled.tap = t := by
  cases m with
  | lapse t hc up late => exact absurd h (not_heldTap_of_none rfl)
  | hold hc hu => exact absurd h (not_heldTap_of_none rfl)
  | displace t hc pressed many => exact absurd h (not_heldTap_of_none rfl)
  | overflow => exact absurd h (not_heldTap_of_none rfl)
  | @interrupt c hc waits =>
    obtain ⟨x, hx, pressed, isKey, rfl, pos⟩ := h
    obtain rfl := Option.some.inj hx
    rcases waits with up | zero
    · cases up.symm.trans pressed
    · exact absurd zero (Nat.ne_of_gt pos)
  | @tap c r rest hc hu hl own => exact Or.inr (heldTap_dispatchTap (o.real_candidate hc) h)
  | @overtake c r pre post hc hu hl up other untyped =>
    obtain ⟨x, hx, pressed, isKey, rfl, pos⟩ := h
    rw [candidate_withLine, candidate_dispatch, hc] at hx
    obtain rfl := Option.some.inj hx
    cases hu.symm.trans (Record.isUndecided_of_pos pos)
  | @pass r rest free hl plain other =>
    obtain ⟨c, hc, pressed, isKey, isTap, pos⟩ := h
    rw [candidate_withLine, candidate_dispatch] at hc
    refine Or.inl ⟨⟨c, hc, pressed, isKey, isTap, pos⟩, ?_⟩
    have foreign : r.event.key ≠ key := isKey ▸ key_ne_of_pass o hc pressed (isTap ▸ pos) hl other
    have real : r.isTick = false := o.real_line (by simp [hl])
    rw [emitted_dispatch a km real]
    exact dispatchesOf_singleton_of_ne foreign
  | @start r rest free hl pressed single alone =>
    obtain ⟨x, hx, -, -, rfl, pos⟩ := h
    obtain rfl := Option.some.inj hx
    exact absurd (o.fresh r (by simp [hl]) pressed) (Nat.ne_of_gt pos)
  | @startTap r rest free hl hu single own =>
    exact Or.inr (heldTap_dispatchTap (o.real_line (by simp [hl])) h)
  | @again c r rest hc up pos calm hl pressed same =>
    have real : r.isTick = false := o.real_line (by simp [hl])
    obtain ⟨x, hx, -, isKey, isTap, -⟩ := h
    obtain rfl := Option.some.inj hx
    rw [event_dispatch] at isKey
    refine Or.inr ⟨_, emitted_dispatch (r := { r with tap := c.tap.next }) a km real false, isKey,
      pressed, ?_⟩
    rw [← record_dispatch_eq (r := { r with tap := c.tap.next }) a km real false]
    exact isTap
  | @release c r rest keep hc pressed pos hl up same =>
    obtain ⟨x, hx, isPress, -⟩ := h
    cases keep with
    | false => cases hx
    | true =>
      obtain rfl := Option.some.inj hx
      rw [event_dispatch] at isPress
      cases up.symm.trans isPress

/-- A release that is dispatched waited in line as it is, or takes part in the tap of the candidate.
If the arbiter made it, no candidate is left. -/
theorem source_of_release (o : Orderly down a) (m : Move km a out b) (hd : out = [.dispatched d])
    (up : d.given.event.pressed = false) :
    (d.given ∈ a.line ∨ HeldTap a d.given.event.key d.given.tap) ∧
      (d.synthetic = true → HeldTap a d.given.event.key d.given.tap ∧ b.candidate = none) := by
  cases releases_of_move o m hd up with
  | @overtake c r pre post effect real hc hu hl other untyped =>
    exact ⟨Or.inl (show r ∈ a.line by simp [hl]), nofun⟩
  | @pass r rest effect real free hl other =>
    exact ⟨Or.inl (show r ∈ a.line by simp [hl]), nofun⟩
  | @release c r rest effect keep real hc pressed pos hl same =>
    exact ⟨Or.inr ⟨c, hc, pressed, same.symm, rfl, pos⟩, nofun⟩
  | @displace c effect t hc pressed pos =>
    have held : HeldTap a c.event.key c.tap := ⟨c, hc, pressed, rfl, rfl, pos⟩
    exact ⟨Or.inr held, fun _ => ⟨held, rfl⟩⟩

/-! ## Presses that are dispatched again -/

/-- A tap after the first that turns out to be a hold was overruled by the press of another key in
line, and nothing else of what is awaited changes: its press is to be dispatched again. -/
theorem late_move (o : Orderly down a) (m : Move km a out b) (hd : out = [.dispatched d])
    (late : d.isLateHold = true) :
    b.awaited = a.awaited ∧ ∃ (c : Record) (e : KeyEvent) (es : List KeyEvent),
      a.candidate = some c ∧ 0 < c.tap.count ∧ a.awaited = e :: es ∧ e.pressed = true ∧
        e.key = c.event.key ∧ a.interpreter.isModsTapKeyAt km e.key = true ∧
          a.backlog.hasOtherPress e.key = true := by
  simp only [Dispatched.isLateHold, Bool.and_eq_true, decide_eq_true_eq, beq_iff_eq] at late
  obtain ⟨⟨pressed, many⟩, zero⟩ := late
  cases presses_of_move o m hd pressed with
  | @hold c effect real hc hu =>
    have none : c.tap.count = 0 := (Record.isUndecided_iff.mp hu).2
    exact absurd many (by simp [none])
  | tap effect real hc hu hl own => exact absurd many (Nat.lt_irrefl 1)
  | pass effect real free hl none => exact absurd many (by simp [none])
  | startTap effect real free hl own => exact absurd many (Nat.lt_irrefl 1)
  | @again c r rest effect real hc up pos calm hl same =>
    -- the only press with a count above one: what was in front becomes the undecided candidate
    obtain ⟨modsTap, press⟩ := overruled_again real pos calm zero
    have front : a.awaited = r.event :: rest.map Record.event := by
      rw [awaited_of_free (undecided?_of_decided hc (Record.isUndecided_of_up up)), hl]
      rfl
    refine ⟨?_, c, r.event, rest.map Record.event, hc, pos, front, pressed, same, modsTap, press⟩
    rw [front, awaited_of_undecided rfl (Record.isUndecided_iff.mpr ⟨?_, zero⟩), event_dispatch]
    · rfl
    · rw [event_dispatch]
      exact pressed

/-- Counting every event when it is dispatched for the last time, a move takes the first events out
of the awaited ones, or a release that overtakes events of other keys. -/
theorem finalFlow_move (o : Orderly down a) (m : Move km a out b) (kept : out ≠ [.overflow]) :
    a.awaited = finalEvents out ++ b.awaited ∨
      ∃ pre e post, a.awaited = pre ++ e :: post ∧ finalEvents out = [e] ∧ e.pressed = false ∧
        (∀ s ∈ pre, s.key ≠ e.key) ∧ b.awaited = pre ++ post := by
  have flow := flow_move o m
  rcases emits_move o m kept with ⟨rfl, -⟩ | ⟨r, synthetic, -, -, one, -⟩
  · generalize b.awaited = es at flow ⊢
    cases flow with
    | inOrder h => exact Or.inl h
    | overtake h one => cases one
    | twice h one => cases one
  -- one record is handed over, and its event is awaited still only if it is a late hold
  cases late :
      Dispatched.isLateHold ⟨r, (a.outcome km r).record, (a.outcome km r).effect, synthetic⟩ with
  | true =>
    left
    rw [(late_move o m one late).1, one, finalEvents_singleton, Dispatched.isFinal, late,
      Bool.not_true, Bool.and_false, if_neg Bool.false_ne_true, List.nil_append]
  | false =>
    have same : finalEvents out = dispatchedEvents out := by
      rw [one]
      exact finalEvents_of_not_late late
    rw [same]
    generalize b.awaited = es at flow ⊢
    cases flow with
    | inOrder h => exact Or.inl h
    | overtake h one' up other => exact Or.inr ⟨_, _, _, h, one', up, other, rfl⟩
    | twice h one' pressed hc pos key modsTap press isLate =>
      obtain ⟨d, hd, isLate⟩ := isLate
      obtain rfl := Emission.eq_of_dispatched (one.symm.trans hd)
      cases late.symm.trans isLate
    | lost => exact absurd rfl kept

/-- What an arriving event makes a tap is a first tap. -/
theorem isCalm_arrival (o : Orderly down a) (arrival : Arrival km e a out b) :
    ∀ x ∈ out, x.IsCalm key := by
  intro x hx
  cases arrival with
  | join loose alone => cases hx
  | @tap c hc hu own =>
    have real : c.isTick = false := o.real_candidate hc
    have one : (a.dispatchTap km c).emitted = _ :=
      emitted_dispatch (r := c.withCount 1) a km real false
    rw [one, List.mem_singleton] at hx
    subst hx
    refine ⟨Emission.noConfusion, fun d same _ => ?_⟩
    obtain rfl := Emission.dispatched.inj same
    simp [Dispatched.isLateHold, Record.withCount]

theorem finalFlow_arrival (o : Orderly down a) (arrival : Arrival km e a out b) :
    a.awaited ++ [e] = finalEvents out ++ b.awaited := by
  rw [flow_arrival o arrival]
  congr 1
  rcases emits_arrival o arrival with ⟨rfl, -⟩ | ⟨r, synthetic, -, -, one, -⟩
  · rfl
  · have calm : ∀ x ∈ out, x.IsCalm r.event.key := isCalm_arrival o arrival
    rw [one] at calm ⊢
    exact (finalEvents_of_not_late ((calm _ (List.mem_singleton_self _)).2 _ rfl rfl)).symm

/-! ## Every step gives a key its turn -/

/-- An event that is dispatched is the first awaited one of its key; the opposite edge follows. -/
theorem head?_edges_of_flow {es : List KeyEvent} (alternates : Alternates down a.awaited)
    (f : Flow km a out es) (calm : ∀ x ∈ out, x.IsCalm e.key) (one : dispatchedEvents out = [e]) :
    (edges down a.awaited e.key).head? = some e.pressed ∧
      (edges down es e.key).head? = some (!e.pressed) := by
  cases f with
  | inOrder h =>
    rw [h, one, List.singleton_append] at alternates ⊢
    exact ⟨by rw [edges_cons_of_eq rfl]; rfl, head?_edges alternates⟩
  | overtake h one' up other =>
    obtain rfl := List.singleton_inj.mp (one.symm.trans one')
    rw [h] at alternates ⊢
    rw [edges_append_of_ne other, edges_append_of_ne other, edges_cons_of_eq rfl]
    exact ⟨rfl, head?_edges (alternates_drop alternates)⟩
  | twice h one' isPress hc pos same modsTap press late =>
    -- the press would be dispatched twice, but no tap of this key turns out to be a hold
    obtain ⟨d, rfl, isLate⟩ := late
    have isKey : d.given.event.key = e.key := congrArg KeyEvent.key (eq_of_dispatchedEvents one)
    have notLate := (calm _ (List.mem_singleton_self _)).2 d rfl isKey
    cases notLate.symm.trans isLate
  | lost => exact absurd rfl (calm _ (List.mem_singleton_self _)).1

theorem ne_overflow_of_isCalm (calm : ∀ x ∈ out, x.IsCalm key) : out ≠ [.overflow] :=
  ne_overflow_of_fine fun x hx => (calm x hx).1

theorem turn_move (o : Orderly down a) (m : Move km a out b) (calm : ∀ x ∈ out, x.IsCalm key) :
    Turn down a out down b key := by
  have kept := ne_overflow_of_isCalm calm
  have flow := flow_move o m
  have held : ∀ t, HeldTap b key t → _ := fun t h => heldTap_move (t := t) o m h
  rcases emits_move o m kept with ⟨rfl, -⟩ | ⟨r, synthetic, -, isRelease, one, -⟩
  · refine .other rfl (head?_edges_flow flow kept (by simp)) fun t h => ?_
    rcases held t h with ⟨before, -⟩ | ⟨d, hd, -⟩
    · exact before
    · cases hd
  -- the record `r` is dispatched
  by_cases isKey : r.event.key = key
  · -- it is one of the key: its first awaited edge, or a release made for its tap
    cases synthetic with
    | false =>
      subst isKey
      obtain ⟨before, next⟩ :=
        head?_edges_of_flow o.alternates flow calm (e := r.event) (by rw [one]; rfl)
      refine .own _ one rfl rfl before next (fun up => (source_of_release o m one up).1) fun t h => ?_
      rcases held t h with ⟨-, none⟩ | ⟨d, hd, -, pressed, isTap⟩
      · have some : dispatchesOf r.event.key out = [_] := one ▸ dispatchesOf_singleton_of_eq rfl
        cases none.symm.trans some
      · obtain rfl := Emission.eq_of_dispatched (one.symm.trans hd)
        exact ⟨pressed, isTap⟩
    | true =>
      have up := isRelease rfl
      obtain ⟨source, none⟩ := (source_of_release o m one up).2 rfl
      refine .made _ one isKey rfl up (head?_edges_flow flow kept ?_) (isKey ▸ source) fun t =>
        not_heldTap_of_none none
      rw [one]
      nofun
  · have none : dispatchesOf key out = [] := by
      rw [one]
      exact dispatchesOf_singleton_of_ne isKey
    refine .other none (head?_edges_flow flow kept ?_) fun t h => ?_
    · rw [one]
      cases synthetic with
      | false => simpa [dispatchedEvents, Emission.event?] using isKey
      | true => nofun
    · rcases held t h with ⟨before, -⟩ | ⟨d, hd, same, -⟩
      · exact before
      · obtain rfl := Emission.eq_of_dispatched (one.symm.trans hd)
        exact absurd same isKey

theorem turn_arrival (o : Orderly down a) (arrival : Arrival km e a out b)
    (next : e.pressed = !down e.key) (key : Position) : Turn down a out (e.after down) b key := by
  have flow := flow_arrival o arrival
  cases arrival with
  | join loose alone =>
    refine .other rfl ?_ fun t h => h
    rw [dispatchedEvents_nil, List.nil_append] at flow
    rw [← flow, head?_edges_join next]
  | @tap c hc hu own =>
    have pressed : c.event.pressed = true := (Record.isUndecided_iff.mp hu).1
    have real : c.isTick = false := o.real_candidate hc
    have one := emitted_dispatch (r := c.withCount 1) a km real false
    have longer := alternates_join o.alternates next
    rw [dispatchedEvents_dispatchTap a km real, List.singleton_append] at flow
    rw [flow] at longer
    by_cases isKey : c.event.key = key
    · subst isKey
      refine .own _ one rfl rfl ?_ (head?_edges longer) (fun up => ?_) fun t h => ?_
      · rw [awaited_of_undecided hc hu, edges_cons_of_eq rfl]
        rfl
      · cases up.symm.trans pressed
      · obtain ⟨d, hd, -, isPress, isTap⟩ := heldTap_dispatchTap real h
        obtain rfl := Emission.eq_of_dispatched (one.symm.trans hd)
        exact ⟨isPress, isTap⟩
    · refine .other ?_ ?_ fun t h => ?_
      · rw [show (a.dispatchTap km c).emitted = _ from one]
        exact dispatchesOf_singleton_of_ne isKey
      · rw [← head?_edges_join next, flow, edges_cons_of_ne isKey]
      · obtain ⟨d, hd, same, -⟩ := heldTap_dispatchTap real h
        obtain rfl := Emission.eq_of_dispatched (one.symm.trans hd)
        exact absurd same isKey

/-! ## What a step keeps -/

/-- The records of a key are dispatched in turn, and the next edge that is awaited fits. -/
structure Takes (down : Position → Bool) (a : Arbiter) (key : Position) (ds : List Dispatched) :
    Prop where
  chain : ds.IsChain Dispatched.Precedes
  first : ∀ d, ds.head? = some d → d.given.event.pressed = true ∧ d.synthetic = false
  next : (edges down a.awaited key).head? = some (nextEdge ds.getLast?)
  held : ∀ t, HeldTap a key t → ∃ d, ds.getLast? = some d ∧ d.given.event.pressed = true

/-- One more record of a key is dispatched in its turn. -/
theorem Takes.push (h : Takes down a key ds) (edge : d.given.event.pressed = nextEdge ds.getLast?)
    (made : d.synthetic = true → ∃ x, ds.getLast? = some x ∧ x.given.event.pressed = true)
    (next : (edges down' b.awaited key).head? = some (!d.given.event.pressed && !d.synthetic))
    (held : ∀ t, HeldTap b key t → d.given.event.pressed = true) :
    Takes down' b key (ds ++ [d]) where
  chain := by
    refine h.chain.append (List.isChain_singleton d) ?_
    intro x hx y hy
    obtain rfl : d = y := Option.some.inj hy
    rw [Option.mem_def.mp hx] at edge
    refine ⟨edge, fun synthetic => ?_⟩
    obtain ⟨z, hz, pressed⟩ := made synthetic
    exact Option.some.inj (hz.symm.trans hx) ▸ pressed
  first := by
    intro x hx
    cases ds with
    | cons y ys => exact h.first x hx
    | nil =>
      obtain rfl : d = x := Option.some.inj hx
      refine ⟨edge, (Bool.not_eq_true _).mp fun synthetic => ?_⟩
      obtain ⟨z, none, -⟩ := made synthetic
      cases none
  next := by
    rw [List.getLast?_concat]
    exact next
  held := fun t ht => ⟨d, List.getLast?_concat, held t ht⟩

theorem Takes.step (h : Takes down a key ds) (turn : Turn down a out down' b key) :
    Takes down' b key (ds ++ dispatchesOf key out) := by
  cases turn with
  | other none next held =>
    rw [none, List.append_nil]
    exact ⟨h.chain, h.first, next.trans h.next, fun t ht => h.held t (held t ht)⟩
  | own d one isKey real before next source held =>
    rw [one, dispatchesOf_singleton_of_eq isKey]
    have edge : d.given.event.pressed = nextEdge ds.getLast? :=
      Option.some.inj (before.symm.trans h.next)
    refine h.push edge (fun synthetic => ?_) ?_ fun t ht => (held t ht).1
    · cases real.symm.trans synthetic
    · rw [real, Bool.not_false, Bool.and_true]
      exact next
  | made d one isKey synthetic up next source held =>
    rw [one, dispatchesOf_singleton_of_eq isKey]
    obtain ⟨x, last, pressed⟩ := h.held _ source
    -- the press of the tap was the last record, and its own release is awaited still
    have release : nextEdge ds.getLast? = false := by
      rw [last, nextEdge, pressed]
      rfl
    refine h.push (up.trans release.symm) (fun _ => ⟨x, last, pressed⟩) ?_ fun t ht =>
      absurd ht (held t)
    rw [next, h.next, release, synthetic, Bool.not_true, Bool.and_false]

/-- The events of a key that are dispatched or awaited are those that came, in order. -/
def KeepsOrder (key : Position) (arrived : List KeyEvent) (out : List Emission) (a : Arbiter) :
    Prop :=
  (finalEvents out ++ a.awaited).filter (fun e => e.key = key) =
    arrived.filter fun e => e.key = key

theorem keepsOrder_move {out' : List Emission} (o : Orderly down a) (m : Move km a out' b)
    (kept : out' ≠ [.overflow]) (h : KeepsOrder key arrived out a) :
    KeepsOrder key arrived (out ++ out') b := by
  unfold KeepsOrder at h ⊢
  rw [← h, finalEvents_append, List.append_assoc, List.filter_append,
    List.filter_append (finalEvents out)]
  congr 1
  rcases finalFlow_move o m kept with flow | ⟨pre, e, post, split, one, -, other, left⟩
  · rw [flow]
  · rw [one, left, split]
    exact filter_overtake other key

theorem keepsOrder_arrival {out' : List Emission} (o : Orderly down a)
    (arrival : Arrival km e a out' b) (h : KeepsOrder key arrived out a) :
    KeepsOrder key (arrived ++ [e]) (out ++ out') b := by
  unfold KeepsOrder at h ⊢
  rw [finalEvents_append, List.append_assoc, ← finalFlow_arrival o arrival, ← List.append_assoc,
    List.filter_append, h, ← List.filter_append]

/-- The events of a key that are not dispatched again are the first of those that came. -/
theorem KeepsOrder.isPrefix (h : KeepsOrder key arrived out a) :
    ((dispatchesOf key out).filter Dispatched.isFinal).map (fun d => d.given.event) <+:
      arrived.filter fun e => e.key = key := by
  rw [← filter_finalEvents, ← h, List.filter_append]
  exact List.prefix_append _ _

/-- What holds of the turns of a key while events are processed. -/
structure InTurns (key : Position) (down : Position → Bool) (arrived : List KeyEvent)
    (out : List Emission) (a : Arbiter) : Prop where
  orderly : Orderly down a
  calm : ∀ x ∈ out, x.IsCalm key
  takes : Takes down a key (dispatchesOf key out)
  order : KeepsOrder key arrived out a

theorem kept_inTurns (km : Keymap) (key : Position) :
    Kept km (fun _ _ => true) (Emission.IsCalm key) (InTurns key) where
  real := fun h _ hc => h.orderly.real_candidate hc
  stays := fun _ admitted => admitted
  move := fun m calm h => {
    orderly := orderly_move m h.orderly
    calm := List.forall_mem_append.mpr ⟨h.calm, calm⟩
    takes := by
      rw [dispatchesOf_append]
      exact h.takes.step (turn_move h.orderly m calm)
    order := keepsOrder_move h.orderly m (ne_overflow_of_isCalm calm) h.order }
  arrival := fun arrival real next _ h => {
    orderly := orderly_arrival arrival real next h.orderly
    calm := List.forall_mem_append.mpr ⟨h.calm, isCalm_arrival h.orderly arrival⟩
    takes := by
      rw [dispatchesOf_append]
      exact h.takes.step (turn_arrival h.orderly arrival next key)
    order := keepsOrder_arrival h.orderly arrival h.order }

theorem takes_of_nothing (hc : a.candidate = none) (hl : a.line = []) (up : down key = false) :
    Takes down a key [] where
  chain := List.isChain_nil
  first := fun _ none => by cases none
  next := by
    rw [awaited_of_free (undecided?_of_none hc), hl, edges, up]
    rfl
  held := fun _ h => absurd h (not_heldTap_of_none hc)

theorem inTurns_start (key : Position) (settings : Settings) (layer : LayerNumber) (capacity : Nat) :
    InTurns key allUp [] [] (start settings layer capacity) where
  orderly := orderly_of_nothing rfl rfl
  calm := fun _ hx => by cases hx
  takes := takes_of_nothing rfl rfl rfl
  order := rfl

/-- The dispatched events of a key are the first of those that came, if none is dispatched again. -/
theorem InTurns.isPrefix (h : InTurns key down arrived out a) :
    ((dispatchesOf key out).filter fun d => !d.synthetic).map (fun d => d.given.event) <+:
      arrived.filter fun e => e.key = key := by
  have same : (dispatchesOf key out).filter (fun d => !d.synthetic) =
      (dispatchesOf key out).filter Dispatched.isFinal := by
    apply List.filter_congr
    intro d hd
    have notLate : d.isLateHold = false :=
      (h.calm _ (mem_dispatchesOf_iff.mp hd).1).2 d rfl (mem_dispatchesOf_iff.mp hd).2
    rw [Dispatched.isFinal, notLate, Bool.not_false, Bool.and_true]
  rw [same]
  exact h.order.isPrefix

/-- Without extensions and overflows, the records of each key of which no tap after the first turns
out to be a hold are handed over in turn, a press first; only a release that the arbiter makes for a
tap is followed by the release of the key itself. The others are the first events of the key that
came, in order. -/
theorem isChain_dispatchesOf (km : Keymap) (settings : Settings) (layer : LayerNumber)
    (capacity : Nat) (es : List KeyEvent) (turns : inTurn allUp es = true)
    (kept : Emission.overflow ∉ ((start settings layer capacity).run km es).2) :
    let done := ((start settings layer capacity).run km es).2
    let last := ((start settings layer capacity).run km es).1
    (∀ key : Position, (∀ d ∈ dispatchesOf key done, d.isLateHold = false) →
      (dispatchesOf key done).IsChain Dispatched.Precedes ∧
      (∀ d, (dispatchesOf key done).head? = some d →
        d.given.event.pressed = true ∧ d.synthetic = false) ∧
      ((dispatchesOf key done).filter fun d => !d.synthetic).map (fun d => d.given.event) <+:
        (realEvents es).filter fun e => e.key = key) ∧
    ∀ (η : Type) [Host η] (host : η),
      es.foldl (fun kb e => kb.process km e)
          (Keyboard.start settings layer capacity host NoHooks.none) =
        ⟨last, (Outlet.mk host NoHooks.none []).emitAll done⟩ := by
  intro done last
  refine ⟨fun key calm => ?_, fun η _ host => Keyboard.foldl_process _ km es rfl⟩
  have rested : (start settings layer capacity).Rested := fun _ => rfl
  have fine : ∀ x ∈ done, x.IsCalm key := by
    intro x hx
    constructor
    · rintro rfl
      exact kept hx
    · rintro d rfl isKey
      exact calm d (mem_dispatchesOf_iff.mpr ⟨hx, isKey⟩)
  have h := (kept_inTurns km key).run es rested (admits_of_inTurn km _ turns) fine
    (inTurns_start key settings layer capacity)
  exact ⟨h.takes.chain, h.takes.first, h.isPrefix⟩

/-- A key that toggles a layer is tapped twice, and another tap key comes while it is down the
second time: the arbiter releases it, and its own release follows. -/
theorem isChain_dispatchesOf_of_displaced_run :
    let km := Keymap.ofKeys fun key => if key = ⟨0, 0⟩ then 0x82f0 else 0x812c
    let es : List KeyEvent :=
      [⟨⟨0, 0⟩, true, ⟨10⟩⟩, ⟨⟨0, 0⟩, false, ⟨20⟩⟩, ⟨⟨0, 0⟩, true, ⟨30⟩⟩, ⟨⟨0, 1⟩, true, ⟨40⟩⟩,
        ⟨⟨0, 0⟩, false, ⟨50⟩⟩]
    let done := ((start .standard 0 8).run km es).2
    inTurn allUp es = true ∧ Emission.overflow ∉ done ∧
      (∀ d ∈ dispatchesOf ⟨0, 0⟩ done, d.isLateHold = false) ∧
      (dispatchesOf ⟨0, 0⟩ done).map (fun d => (d.given.event.pressed, d.synthetic)) =
        [(true, false), (false, false), (true, false), (false, true), (false, false)] ∧
      (dispatchesOf ⟨0, 0⟩ done).IsChain Dispatched.Precedes := by
  intro km es done
  have turns : inTurn allUp es = true := by decide
  have kept : Emission.overflow ∉ done := by decide +kernel
  have calm : ∀ d ∈ dispatchesOf ⟨0, 0⟩ done, d.isLateHold = false := by decide +kernel
  have chain := (isChain_dispatchesOf km .standard 0 8 es turns kept).1 ⟨0, 0⟩ calm
  exact ⟨turns, kept, calm, by decide +kernel, chain.1⟩

/-- So two releases of a key can be dispatched in a row. -/
theorem not_isChain_ne_of_displaced_run :
    let km := Keymap.ofKeys fun key => if key = ⟨0, 0⟩ then 0x82f0 else 0x812c
    let es : List KeyEvent :=
      [⟨⟨0, 0⟩, true, ⟨10⟩⟩, ⟨⟨0, 0⟩, false, ⟨20⟩⟩, ⟨⟨0, 0⟩, true, ⟨30⟩⟩, ⟨⟨0, 1⟩, true, ⟨40⟩⟩,
        ⟨⟨0, 0⟩, false, ⟨50⟩⟩]
    let done := ((start .standard 0 8).run km es).2
    inTurn allUp es = true ∧ timely km (start .standard 0 8) es = true ∧ Emission.overflow ∉ done ∧
      ¬ ((dispatchesOf ⟨0, 0⟩ done).map fun d => d.given.event.pressed).IsChain (· ≠ ·) := by
  decide +kernel

end Arbiter

end TapHold
