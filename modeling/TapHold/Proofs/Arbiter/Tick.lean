import TapHold.Proofs.Arbiter.Sound

/-!
# Events that only tell the time

An event at the place that no key has never waits and is never dispatched. All it can do is to end
the term of the candidate (`expire`): a released tap lapses, and an undecided press is a hold. Such
an event that claims to be a press does the same, but within the term of a candidate that a press of
another key would interrupt it is taken for that press (`accept_tick`).

The line is no concern of it: what keeps it from being drained keeps it still after the interruption
(`advance?_interrupted`), so nothing else follows (`handle_tick`).
-/

set_option autoImplicit false

namespace TapHold

namespace Arbiter

/-- Whether a press of another key at `now` would interrupt the candidate: it comes within the term
of a released tap or of an undecided press. -/
def isInterruptible (a : Arbiter) (now : Time) : Bool :=
  a.candidate.any fun c =>
    now.isWithin c.event.time a.term && (!c.event.pressed || c.tap.count == 0)

/-- The arbiter after a press of another key interrupted the candidate. -/
def interrupted (a : Arbiter) : Arbiter := a.withCandidate (a.candidate.map Record.interrupt)

/-- No term ends at `now`: the candidate, if there is one, is still within its term, or it is a tap
that is still down. -/
def Unexpired (a : Arbiter) (now : Time) : Prop :=
  ∀ c, a.candidate = some c → now.isWithin c.event.time a.term = true ∨
    (c.event.pressed = true ∧ 0 < c.tap.count)

/-- What the end of a term at `now` makes of the arbiter, and what it emits. -/
def expire (a : Arbiter) (km : Keymap) (now : Time) : Arbiter × List Emission :=
  match a.candidate with
  | none => (a, [])
  | some c =>
    if now.isWithin c.event.time a.term then (a, [])
    else if !c.event.pressed then (a.withCandidate none, [])
    else if c.tap.count = 0 then
      ((a.dispatch km c false).arbiter.withCandidate none, (a.dispatch km c false).emitted)
    else (a, [])

variable {km : Keymap} {a b : Arbiter} {c r : Record} {rest : List Record} {e : KeyEvent}
  {out : List Emission} {now : Time}

theorem expire_of_unexpired (km : Keymap) (h : a.Unexpired now) : a.expire km now = (a, []) := by
  unfold expire
  cases hc : a.candidate with
  | none => rfl
  | some c =>
    rcases h c hc with within | ⟨down, pos⟩
    · simp only [within, if_true]
    · simp [down, Nat.ne_of_gt pos]

/-! ## The attempt at such an event -/

theorem attempt_tick_eq (km : Keymap) (tick : r.isTick = true)
    (real : ∀ c, a.candidate = some c → c.isTick = false) :
    ((a.attempt km r).arbiter, (a.attempt km r).emitted) =
      if r.event.pressed && a.isInterruptible r.event.time then (a.interrupted, [])
      else a.expire km r.event.time := by
  have foreign {c : Record} (hc : a.candidate = some c) : r.event.key ≠ c.event.key := by
    intro key
    have tick' : c.isTick = true := by
      rw [Record.isTick, KeyEvent.isTick, ← key]
      exact tick
    cases (real c hc).symm.trans tick'
  have noTap := isTapHoldKey_of_tick a km tick
  unfold attempt isInterruptible interrupted expire
  cases hc : a.candidate with
  | none => simp [attemptFree_tick a km tick]
  | some c =>
    simp only [Option.any_some, Option.map_some]
    cases up : c.event.pressed with
    | false =>
      -- a released tap: it lapses, it is interrupted, or nothing happens
      simp only [Bool.not_false, if_true, Bool.true_or, Bool.and_true, attemptReleased]
      cases within : r.event.time.isWithin c.event.time a.term with
      | false => simp [attemptFree_tick _ km tick, withCandidate]
      | true =>
        cases down : r.event.pressed with
        | false => simp [pass_tick a km tick]
        | true => simp [foreign hc, noTap, pass_tick _ km tick, withCandidate]
    | true =>
      by_cases zero : c.tap.count = 0
      · -- an undecided press: it is a hold, it is interrupted, or nothing happens
        simp only [zero, attemptUndecided]
        cases within : r.event.time.isWithin c.event.time a.term with
        | false => simp [settleHold, withCandidate]
        | true =>
          cases down : r.event.pressed with
          | false => simp [foreign hc, tick]
          | true => simp [withCandidate]
      · -- a tap that is still down
        simp [zero, attemptTapped, foreign hc, noTap, pass_tick a km tick]

/-- An event that only tells the time ends a term, or it is taken for a press that interrupts. -/
theorem accept_tick (km : Keymap) (tick : e.isTick = true)
    (real : ∀ c, a.candidate = some c → c.isTick = false) :
    a.accept km e = if e.pressed && a.isInterruptible e.time then (a.interrupted, [])
      else a.expire km e.time := by
  have tried := attempt_tick_eq (r := .ofEvent e) km tick real
  have waits : (a.attempt km (.ofEvent e)).waiting = none ∨ _ :=
    (attempt_tick (r := .ofEvent e) tick real).1
  refine Eq.trans ?_ tried
  unfold accept
  rcases waits with consumed | waits
  · simp only [consumed]
  · simp only [waits, postpone_tick (r := .ofEvent e) _ tick, List.append_nil]

/-! ## Nothing moves up in line -/

/-- Draining goes on until nothing comes of it. -/
theorem advance?_drain (a : Arbiter) (km : Keymap) : (a.drain km).1.advance? km = none := by
  fun_induction drain a km with
  | case1 a stuck => exact stuck
  | case2 a b out advanced less rest ih => exact ih

/-- After an event nothing comes of draining the line. -/
theorem advance?_handle (a : Arbiter) (km : Keymap) (e : KeyEvent) :
    (a.handle km e).1.advance? km = none := advance?_drain _ km

/-- A hold leaves no candidate. -/
theorem settleHold_ne (hc : a.candidate = some c) {w : Option Record} :
    a.settleHold km c r ≠ ⟨a, w, out⟩ := by
  intro same
  have none : (a.settleHold km c r).arbiter.candidate = a.candidate :=
    congrArg (Arbiter.candidate ∘ Attempt.arbiter) same
  cases none.trans hc

/-- A tap leaves no undecided candidate. -/
theorem settleTap_ne (hc : a.candidate = some c) (hu : c.isUndecided = true) {w : Option Record} :
    a.settleTap km c r ≠ ⟨a, w, out⟩ := by
  intro same
  have candidate : (a.dispatchTap km c).arbiter.candidate = a.candidate :=
    congrArg (Arbiter.candidate ∘ Attempt.arbiter) same
  have decided := undecided?_dispatchTap a km c
  rw [undecided?, candidate, ← undecided?, undecided?_eq_some hc hu] at decided
  cases decided

/-- The first in line, if nothing comes of it, has interrupted the undecided candidate already or
leaves it alone. -/
theorem attempt_front_of_stuck (hc : a.candidate = some c) (hu : c.isUndecided = true)
    (hl : a.line = r :: rest) (stuck : a.advance? km = none) :
    c.interrupt = c ∨ a.attemptUndecided km c r = ⟨a, some r, []⟩ := by
  have records : a.backlog.records = r :: rest := hl
  simp only [advance?, records, attempt_undecided hc hu] at stuck
  have meets := meets_attemptUndecided km a c r
  generalize a.attemptUndecided km c r = tried at meets stuck
  cases meets with
  | late | typed => simp [settleHold, hc] at stuck
  | press within down =>
    simp only [candidate_withCandidate, hc] at stuck
    split at stuck
    · rename_i same
      exact Or.inl (Option.some.inj same)
    · cases stuck
  | own within up same =>
    have decided := undecided?_dispatchTap a km c
    by_cases same : (a.dispatchTap km c).arbiter.candidate = a.candidate
    · rw [undecided?, same, ← undecided?, undecided?_eq_some hc hu] at decided
      cases decided
    · simp [settleTap, same] at stuck
  | still up other => exact Or.inr rfl
  | pass up other => simp [pass] at stuck

/-- A record that leaves an undecided candidate alone does so after an interruption. -/
theorem attemptUndecided_interrupt (hc : a.candidate = some c) (hu : c.isUndecided = true)
    (still : a.attemptUndecided km c r = ⟨a, some r, []⟩) :
    (a.withCandidate (some c.interrupt)).attemptUndecided km c.interrupt r =
      ⟨a.withCandidate (some c.interrupt), some r, []⟩ := by
  unfold attemptUndecided at still ⊢
  -- the conditions are the same, because the event of the candidate is
  show (if !r.event.time.isWithin c.event.time a.term then _ else _) = _
  split
  · rename_i late
    rw [if_pos late] at still
    exact absurd still (settleHold_ne hc)
  rename_i inTerm
  rw [if_neg inTerm] at still
  split
  · rfl
  rename_i up
  rw [if_neg up] at still
  split
  · rename_i own
    rw [if_pos (show r.event.key = c.event.key from own)] at still
    exact absurd still (settleTap_ne hc hu)
  rename_i other
  rw [if_neg (show ¬r.event.key = c.event.key from other)] at still
  split
  · rfl
  rename_i real
  rw [if_neg real] at still
  split
  · rename_i typed
    rw [if_pos (show a.backlog.hasOpposite r.event = true from typed)] at still
    exact absurd still (settleHold_ne hc)
  rename_i untyped
  rw [if_neg (show ¬a.backlog.hasOpposite r.event = true from untyped)] at still
  split
  · rfl
  rename_i plain
  rw [if_neg (show ¬a.interpreter.holdsModifier km r = true from plain)] at still
  cases congrArg Attempt.waiting still

/-- What keeps the line from being drained keeps it still when the candidate is interrupted. -/
theorem advance?_interrupted (rested : a.Rested) (stuck : a.advance? km = none) :
    a.interrupted.advance? km = none := by
  cases free : a.undecided? with
  | none =>
    have records : a.interrupted.backlog.records = [] := rested free
    simp only [advance?, records]
  | some c =>
    obtain ⟨hc, hu⟩ := of_undecided? free
    cases hl : a.line with
    | nil =>
      have records : a.interrupted.backlog.records = [] := hl
      simp only [advance?, records]
    | cons r rest =>
      have interrupted : a.interrupted = a.withCandidate (some c.interrupt) := by
        rw [Arbiter.interrupted, hc, Option.map_some]
      rcases attempt_front_of_stuck hc hu hl stuck with same | still
      · rw [interrupted, same, ← hc]
        exact stuck
      · have records : (a.withCandidate (some c.interrupt)).backlog.records = r :: rest := hl
        have undecided : c.interrupt.isUndecided = true := hu
        rw [interrupted]
        simp only [advance?, records, attempt_undecided (candidate_withCandidate _ _) undecided,
          attemptUndecided_interrupt hc hu still, if_true]

/-- An event that only tells the time does what the end of a term does, unless it is taken for a
press that interrupts the candidate, and then it does nothing else. -/
theorem handle_tick (tick : e.isTick = true) (s : Sound a) (rested : a.Rested)
    (stuck : a.advance? km = none) :
    a.handle km e = if e.pressed && a.isInterruptible e.time then (a.interrupted, [])
      else a.handle km (.tick e.time) := by
  have real (c : Record) (hc : a.candidate = some c) : c.isTick = false := s.real_candidate hc
  unfold handle
  rw [accept_tick km tick real, accept_tick (e := .tick e.time) km rfl real]
  by_cases press : (e.pressed && a.isInterruptible e.time) = true
  · rw [if_pos press, if_pos press]
    show ((a.interrupted.drain km).1, [] ++ (a.interrupted.drain km).2) = _
    rw [drain_of_stuck (advance?_interrupted rested stuck)]
    rfl
  · rw [if_neg press, if_neg press]
    rfl

/-- While no term ends, a tick changes nothing and lets nothing happen. -/
theorem handle_tick_of_unexpired (s : Sound a) (stuck : a.advance? km = none)
    (h : a.Unexpired now) : a.handle km (.tick now) = (a, []) := by
  have real (c : Record) (hc : a.candidate = some c) : c.isTick = false := s.real_candidate hc
  have accepted : a.accept km (.tick now) = (a, []) :=
    (accept_tick (e := .tick now) km rfl real).trans (expire_of_unexpired km h)
  unfold handle
  rw [accepted]
  show ((a.drain km).1, [] ++ (a.drain km).2) = _
  rw [drain_of_stuck stuck]
  rfl

end Arbiter

end TapHold
