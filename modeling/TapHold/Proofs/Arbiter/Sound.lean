import TapHold.Proofs.Arbiter.Cause
import TapHold.Proofs.Arbiter.Overflow
import TapHold.Proofs.Arbiter.Typed

/-!
# What holds whatever comes

Edges that do not come in turn, layers and settings that change in between, and events that
extensions queue make no difference to `Sound`: no tick is held, no press in line has a tap yet, and
a candidate that is up is a tap. Nor do they make an event come out twice or not at all. The order
of the keys' events may be lost then, but the arrivals are what was dispatched for the last time
together with what is awaited (`Complete`), as long as the backlog does not overflow.
-/

set_option autoImplicit false

namespace TapHold

namespace Arbiter

variable {km : Keymap} {a b : Arbiter} {c r : Record} {rest : List Record}
  {out out' : List Emission} {arrived : List KeyEvent} {e : KeyEvent}

/-! ## Candidates and records in line -/

/-- What is held, whatever comes. -/
structure Sound (a : Arbiter) : Prop where
  real : RealHeld a
  fresh : ∀ r ∈ a.line, IsFresh r
  counted : ∀ c, a.candidate = some c →
    c.tap.count ≤ Tap.maxCount ∧ (c.event.pressed = false → 0 < c.tap.count)

theorem Sound.real_candidate (s : Sound a) (hc : a.candidate = some c) : c.isTick = false :=
  s.real _ (candidate_mem_heldEvents hc)

theorem Sound.real_front (s : Sound a) (hl : a.line = r :: rest) : r.isTick = false :=
  s.real _ (line_mem_heldEvents (by simp [hl]))

theorem Sound.zero_front (s : Sound a) (hl : a.line = r :: rest)
    (pressed : r.event.pressed = true) :
    r.tap.count = 0 := by
  rw [s.fresh r (by simp [hl]) pressed]
  rfl

/-- The interpreter raises no count. -/
theorem count_dispatch_le (a : Arbiter) (km : Keymap) (r : Record) (s : Bool) :
    (a.dispatch km r s).record.tap.count ≤ r.tap.count := by
  cases real : r.isTick with
  | true =>
    rw [dispatch_of_tick a km real]
  | false =>
    rw [record_dispatch a km real]
    split
    · exact Nat.zero_le _
    · exact Nat.le_refl _

/-- The count of a release is final. -/
theorem record_dispatch_of_up (a : Arbiter) (km : Keymap) (up : r.event.pressed = false)
    (s : Bool) :
    (a.dispatch km r s).record = r := by
  cases real : r.isTick with
  | true => rw [dispatch_of_tick a km real]
  | false =>
    rw [record_dispatch a km real, Interpreter.isOverruled_of_up up, Bool.and_false,
      if_neg Bool.false_ne_true]

theorem count_next_le (t : Tap) (h : t.count ≤ Tap.maxCount) : t.next.count ≤ Tap.maxCount := by
  unfold Tap.next
  dsimp only
  split <;> omega

/-- A tap that stays the candidate is a first tap of a press. -/
theorem counted_dispatchTap (pressed : c.event.pressed = true) {d : Record}
    (hd : (a.dispatchTap km c).arbiter.candidate = some d) :
    d.tap.count ≤ Tap.maxCount ∧ (d.event.pressed = false → 0 < d.tap.count) := by
  rw [eq_of_candidate_dispatchTap hd]
  have one : (a.dispatchTap km c).record.tap.count ≤ 1 :=
    count_dispatch_le a km (c.withCount 1) false
  refine ⟨Nat.le_trans one (by decide), fun up => ?_⟩
  rw [event_dispatchTap] at up
  cases up.symm.trans pressed

theorem sound_move (m : Move km a out b) (s : Sound a) : Sound b where
  real := fun e he => s.real e ((heldEvents_move m).subset he)
  fresh := isFresh_move m s.fresh
  counted := by
    intro d hd
    cases m with
    | lapse t hc up late => cases hd
    | hold hc hu => cases hd
    | displace t hc pressed many => cases hd
    | overflow => cases hd
    | @interrupt c hc waits =>
      obtain rfl := Option.some.inj hd
      exact s.counted c hc
    | @tap c r rest hc hu hl own => exact counted_dispatchTap (Record.isUndecided_iff.mp hu).1 hd
    | overtake hc hu hl up other untyped =>
      rw [candidate_withLine, candidate_dispatch] at hd
      exact s.counted d hd
    | pass free hl plain other =>
      rw [candidate_withLine, candidate_dispatch] at hd
      exact s.counted d hd
    | start free hl pressed single alone =>
      obtain rfl := Option.some.inj hd
      rw [s.zero_front hl pressed]
      exact ⟨Nat.zero_le _, fun up => by cases up.symm.trans pressed⟩
    | startTap free hl hu single own =>
      exact counted_dispatchTap (Record.isUndecided_iff.mp hu).1 hd
    | @again c r rest hc up pos calm hl pressed same =>
      obtain rfl := Option.some.inj hd
      refine ⟨(count_dispatch_le a km _ false).trans (count_next_le c.tap (s.counted c hc).1),
        fun isUp => ?_⟩
      rw [event_dispatch] at isUp
      cases isUp.symm.trans pressed
    | @release c r rest keep hc pressed pos hl up same =>
      cases keep with
      | false => cases hd
      | true =>
        obtain rfl := Option.some.inj hd
        rw [record_dispatch_of_up (r := { r with tap := c.tap }) a km up]
        exact ⟨(s.counted c hc).1, fun _ => pos⟩

theorem sound_arrival (arrival : Arrival km e a out b) (real : e.isTick = false) (s : Sound a) :
    Sound b where
  real := by
    intro x hx
    rcases List.mem_append.mp ((heldEvents_arrival arrival).subset hx) with held | new
    · exact s.real x held
    · rw [List.mem_singleton.mp new]
      exact real
  fresh := isFresh_arrival arrival s.fresh
  counted := by
    intro d hd
    cases arrival with
    | join => exact s.counted d hd
    | tap hc hu own => exact counted_dispatchTap (Record.isUndecided_iff.mp hu).1 hd

/-- What is held is sound after every event, whatever comes. -/
theorem sound_handle (s : Sound a) (rested : a.Rested) (e : KeyEvent) :
    Sound (a.handle km e).1 := by
  cases tick : e.isTick with
  | true => exact (handle_tick_moves tick fun _ hc => s.real_candidate hc).keep sound_move s
  | false =>
    have passage : Passage km e a (a.handle km e).2 (a.handle km e).1 := handle_passage rested tick
    obtain ⟨a₁, a₂, out₁, out₂, out₃, first, arrival, last, -⟩ := passage
    exact last.keep sound_move (sound_arrival arrival tick (first.keep sound_move s))

theorem sound_of_nothing (hc : a.candidate = none) (hl : a.line = []) : Sound a where
  real := by
    intro e he
    simp [heldEvents, hc, hl] at he
  fresh := by
    intro r hr
    rw [hl] at hr
    cases hr
  counted := fun c h => by cases hc.symm.trans h

/-! ## No event is lost or dispatched twice -/

/-- The arrivals are what was dispatched for the last time, and what is awaited. -/
def Complete (arrived : List KeyEvent) (out : List Emission) (a : Arbiter) : Prop :=
  arrived.Perm (finalEvents out ++ a.awaited)

/-- A record that is no late hold is dispatched for the last time. -/
theorem finalEvents_dispatch (a : Arbiter) (km : Keymap) (real : r.isTick = false)
    (few : r.event.pressed = true → r.tap.count ≤ 1) :
    finalEvents (a.dispatch km r false).emitted = [r.event] := by
  rw [emitted_dispatch a km real, finalEvents_of_not_late]
  · rfl
  · cases pressed : r.event.pressed with
    | false => simp [Dispatched.isLateHold, pressed]
    | true => simp [Dispatched.isLateHold, Nat.not_lt_of_le (few pressed)]

theorem finalEvents_dispatchTap (a : Arbiter) (km : Keymap) (real : c.isTick = false) :
    finalEvents (a.dispatchTap km c).emitted = [c.event] :=
  finalEvents_dispatch (r := c.withCount 1) a km real fun _ => Nat.le_refl 1

theorem finalEvents_synthetic (a : Arbiter) (km : Keymap) (r : Record) :
    finalEvents (a.dispatch km r true).emitted = [] := by
  cases real : r.isTick with
  | true =>
    rw [dispatch_of_tick a km real]
    rfl
  | false =>
    rw [emitted_dispatch a km real]
    rfl

/-- One more tap is dispatched for the last time, or comes back as an undecided press. -/
theorem perm_again (real : r.isTick = false) (free : a.undecided? = none) (pos : 0 < c.tap.count)
    (hl : a.line = r :: rest) (pressed : r.event.pressed = true) :
    a.awaited.Perm (finalEvents (a.dispatch km { r with tap := c.tap.next } false).emitted ++
      (((a.dispatch km { r with tap := c.tap.next } false).arbiter.withCandidate
        (some (a.dispatch km { r with tap := c.tap.next } false).record)).withLine
          rest).awaited) := by
  have emitted := emitted_dispatch (r := { r with tap := c.tap.next }) a km real false
  have settled := record_dispatch_eq (r := { r with tap := c.tap.next }) a km real false
  have event := event_dispatch a km { r with tap := c.tap.next } false
  rw [awaited_of_free free, hl, emitted, finalEvents_singleton]
  generalize (a.dispatch km { r with tap := c.tap.next } false).record = s at settled event ⊢
  rw [← settled]
  cases counted : s.tap.count with
  | zero =>
    -- the press will be dispatched again, so this time does not count
    have late : Dispatched.isFinal ⟨{ r with tap := c.tap.next }, s,
        (a.outcome km { r with tap := c.tap.next }).effect, false⟩ = false := by
      simp [Dispatched.isFinal, Dispatched.isLateHold, pressed, counted, one_lt_count_next pos]
    rw [late, if_neg Bool.false_ne_true, List.nil_append,
      awaited_withLine_of_undecided rfl (Record.isUndecided_iff.mpr ⟨event ▸ pressed, counted⟩),
      event]
    exact List.Perm.refl _
  | succ n =>
    have final : Dispatched.isFinal ⟨{ r with tap := c.tap.next }, s,
        (a.outcome km { r with tap := c.tap.next }).effect, false⟩ = true := by
      simp [Dispatched.isFinal, Dispatched.isLateHold, counted]
    have decided : s.isUndecided = false := by simp [Record.isUndecided, counted]
    rw [if_pos final, awaited_withLine_of_free (undecided?_of_decided rfl decided)]
    exact List.Perm.refl _

/-- What is awaited is dispatched for the last time, or awaited still. -/
theorem perm_move (s : Sound a) (m : Move km a out b) (kept : Emission.overflow ∉ out) :
    a.awaited.Perm (finalEvents out ++ b.awaited) := by
  cases m with
  | lapse t hc up late =>
    rw [awaited_of_free (undecided?_of_decided hc (Record.isUndecided_of_up up)),
      awaited_of_free rfl]
    exact List.Perm.refl _
  | @interrupt c hc waits =>
    rw [awaited_interrupt hc]
    exact List.Perm.refl _
  | @hold c hc hu =>
    -- an undecided press has no count, so it is no late hold
    have few : c.tap.count ≤ 1 := by
      rw [(Record.isUndecided_iff.mp hu).2]
      exact Nat.zero_le 1
    rw [finalEvents_dispatch a km (s.real_candidate hc) (fun _ => few),
      awaited_of_undecided hc hu, awaited_of_free rfl, line_withCandidate, line_dispatch]
    exact List.Perm.refl _
  | @tap c r rest hc hu hl own =>
    rw [finalEvents_dispatchTap a km (s.real_candidate hc), awaited_of_undecided hc hu,
      awaited_withLine_of_free (undecided?_dispatchTap a km c), hl]
    exact List.Perm.refl _
  | @overtake c r pre post hc hu hl up other untyped =>
    -- the only move out of order, and a permutation does not see the order
    have real : r.isTick = false := s.real _ (line_mem_heldEvents (by simp [hl]))
    rw [finalEvents_dispatch a km real (fun pressed => by cases up.symm.trans pressed),
      awaited_of_undecided_of_line hc hu hl,
      awaited_withLine_of_undecided ((candidate_dispatch a km r false).trans hc) hu,
      List.map_append, ← List.cons_append]
    exact List.perm_middle
  | @pass r rest free hl plain other =>
    have few (pressed : r.event.pressed = true) : r.tap.count ≤ 1 := by
      rw [s.zero_front hl pressed]
      exact Nat.zero_le 1
    rw [finalEvents_dispatch a km (s.real_front hl) few, awaited_of_free free,
      awaited_withLine_of_free ((undecided?_dispatch a km r false).trans free), hl]
    exact List.Perm.refl _
  | @start r rest free hl pressed single alone =>
    have undecided : r.isUndecided = true :=
      Record.isUndecided_iff.mpr ⟨pressed, s.zero_front hl pressed⟩
    rw [awaited_of_free free, awaited_withLine_of_undecided rfl undecided, hl]
    exact List.Perm.refl _
  | @startTap r rest free hl hu single own =>
    rw [finalEvents_dispatchTap a km (s.real_front hl), awaited_of_free free,
      awaited_withLine_of_free (undecided?_dispatchTap a km r), hl, map_event_modifyFirstIn]
    exact List.Perm.refl _
  | again hc up pos calm hl pressed same =>
    have free := undecided?_of_decided hc (Record.isUndecided_of_up up)
    exact perm_again (s.real_front hl) free pos hl pressed
  | @release c r rest keep hc pressed pos hl up same =>
    have real : r.isTick = false := s.real_front hl
    have one : finalEvents (a.dispatch km { r with tap := c.tap } false).emitted = [r.event] :=
      finalEvents_dispatch (r := { r with tap := c.tap }) a km real
        fun pressed => by cases up.symm.trans pressed
    have isUp : (a.dispatch km { r with tap := c.tap } false).record.event.pressed = false := by
      rw [event_dispatch]
      exact up
    rw [one, awaited_of_free (undecided?_of_decided hc (Record.isUndecided_of_pos pos)),
      awaited_of_free (undecided?_of_kept_up _ keep isUp rest), hl]
    exact List.Perm.refl _
  | displace t hc pressed many =>
    have before : a.undecided? = none :=
      undecided?_of_decided hc (Record.isUndecided_of_pos (Nat.lt_of_succ_lt many))
    rw [finalEvents_synthetic, awaited_of_free before, awaited_of_free rfl, line_withCandidate,
      line_dispatch]
    exact List.Perm.refl _
  | overflow => exact absurd (List.mem_singleton_self _) kept

/-- An event that arrives is awaited in addition, or awaited instead of the press that it makes a
tap. -/
theorem awaited_arrival (s : Sound a) (arrival : Arrival km e a out b) :
    a.awaited ++ [e] = finalEvents out ++ b.awaited := by
  cases arrival with
  | join loose alone => simp [awaited, undecided?_withLine]
  | @tap c hc hu own =>
    rw [finalEvents_dispatchTap a km (s.real_candidate hc), awaited_of_undecided hc hu,
      awaited_withLine_of_free (undecided?_dispatchTap a km c), List.map_append]
    rfl

theorem complete_moves (m : Moves km a out' b) (calm : Emission.overflow ∉ out') (s : Sound a)
    (h : Complete arrived out a) : Sound b ∧ Complete arrived (out ++ out') b := by
  induction m generalizing out with
  | refl a =>
    rw [List.append_nil]
    exact ⟨s, h⟩
  | step m _ ih =>
    rw [List.mem_append, not_or] at calm
    rw [← List.append_assoc]
    refine ih calm.2 (sound_move m s) (List.Perm.trans h ?_)
    rw [finalEvents_append, List.append_assoc]
    exact (perm_move s m calm.1).append_left _

/-- No event is lost or dispatched twice while an event passes. -/
theorem complete_passage (p : Passage km e a out' b) (real : e.isTick = false)
    (calm : Emission.overflow ∉ out') (s : Sound a) (h : Complete arrived out a) :
    Sound b ∧ Complete (arrived ++ [e]) (out ++ out') b := by
  obtain ⟨a₁, a₂, out₁, out₂, out₃, first, arrival, last, rfl⟩ := p
  rw [List.mem_append, List.mem_append, not_or, not_or] at calm
  obtain ⟨before, here⟩ := complete_moves first calm.1 s h
  have arrived' : Complete (arrived ++ [e]) ((out ++ out₁) ++ out₂) a₂ := by
    refine (here.append_right [e]).trans ?_
    rw [List.append_assoc, awaited_arrival before arrival, finalEvents_append _ out₂,
      List.append_assoc]
  rw [← List.append_assoc, ← List.append_assoc]
  exact complete_moves last calm.2.2 (sound_arrival arrival real before) arrived'

theorem complete_of_nothing (hc : a.candidate = none) (hl : a.line = []) : Complete [] [] a := by
  unfold Complete
  rw [awaited_of_free (undecided?_of_none hc), hl]
  exact List.Perm.refl _

end Arbiter

end TapHold
