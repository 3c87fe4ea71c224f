import Mathlib.Algebra.Order.BigOperators.Group.Finset
import TapHold.Proofs.Arbiter.Tick
import TapHold.Proofs.Arbiter.Tries
import TapHold.Proofs.Keyboard.NoHooks
import TapHold.Proofs.Keymap.Uniform

/-!
# The rounds of draining

Draining the backlog is a loop. A round tries the oldest record and performs at once what the
attempt emits; the loop goes on when the record was consumed, and also when it was not but the
candidate has changed (`Draining.round`). A log tells at which record each attempt was made.

A record that stays although the candidate has changed is not tried for long (`isDue_again`): a
decision leaves no undecided candidate, and a record that meets none is consumed; a press interrupts
the candidate, and cannot do so again. A record that leaves the candidate alone has changed nothing
at all (`attempt_of_kept`). So no record is tried more than twice, the loop ends, and it ends where
`Arbiter.drain` does (`rounds_end`). Nothing is asked of the arbiter, nor of what performs the
emissions. With an outlet, the rounds are how the handling of an event ends
(`Keyboard.handle_eq_rounds`).
-/

set_option autoImplicit false

namespace TapHold

namespace Backlog

variable {b : Backlog} {r front : Record} {rest : List Record} {es : List KeyEvent}

/-- The oldest record in its own place changes nothing. -/
theorem setFront_of_front (h : b.records = r :: rest) : b.setFront r = b := by
  unfold setFront
  split
  · rfl
  · rename_i r' rest' records
    obtain ⟨rfl, rfl⟩ := List.cons.inj (records.symm.trans h)
    rw [← records]

theorem eq_of_mem_head?_setFront (h : r ∈ (b.setFront front).records.head?) : r = front := by
  unfold setFront at h
  split at h
  · rename_i records
    rw [records] at h
    cases h
  · exact (Option.some.inj h).symm

/-- Another record of the same event in front keeps the events. -/
theorem events_setFront (h : b.records.map Record.event = front.event :: es) :
    (b.setFront front).records.map Record.event = front.event :: es := by
  unfold setFront
  split
  · exact h
  · rename_i r' rest' records
    rw [records] at h
    exact congrArg (front.event :: ·) (List.cons.inj h).2

end Backlog

namespace Arbiter

variable {km : Keymap} {a : Arbiter} {c r s : Record} {rest : List Record}

/-! ## Trying a record again -/

/-- Whether the attempt at a record consumes it or leaves the candidate alone. -/
def IsDue (km : Keymap) (a : Arbiter) (r : Record) : Prop :=
  (a.attempt km r).waiting = none ∨ (a.attempt km r).arbiter.candidate = a.candidate

/-- Whether the first in line, if there is one, is due. -/
def FrontIsDue (km : Keymap) (a : Arbiter) : Prop := ∀ r ∈ a.line.head?, a.IsDue km r

theorem isDue_of_free (km : Keymap) (r : Record) (free : a.undecided? = none) : a.IsDue km r :=
  Or.inl (waiting_of_free km r free)

/-- A press leaves a candidate alone that was interrupted before. -/
theorem isDue_of_interrupted (hc : a.candidate = some c.interrupt) (hu : c.isUndecided = true)
    (within : r.event.time.isWithin c.event.time a.term = true) (down : r.event.pressed = true) :
    a.IsDue km r := by
  have hu' : c.interrupt.isUndecided = true := hu
  have within' : r.event.time.isWithin c.interrupt.event.time a.term = true := within
  have tried : a.attemptUndecided km c.interrupt r =
      ⟨a.withCandidate (some c.interrupt), some r, []⟩ := by
    simp only [attemptUndecided, within', down, Bool.not_true, Bool.false_eq_true, if_false,
      if_true]
    rfl
  refine Or.inr ?_
  rw [attempt_undecided hc hu', tried, hc]
  rfl

/-- **A record that stays although the candidate has changed is consumed by the next attempt, or
leaves the candidate alone then.** The line may be another one by then. -/
theorem isDue_again (waits : (a.attempt km r).waiting = some s)
    (changed : (a.attempt km r).arbiter.candidate ≠ a.candidate) (backlog : Backlog) :
    IsDue km { (a.attempt km r).arbiter with backlog } s := by
  obtain ⟨c, hc, hu, meets⟩ := meets_of_waiting waits
  generalize a.attempt km r = tried at meets waits changed ⊢
  cases meets with
  -- the candidate is decided, as a hold or as a tap
  | late | typed => exact isDue_of_free km s rfl
  | own => exact isDue_of_free km s (undecided?_dispatchTap a km c)
  -- the candidate is interrupted, but as undecided as before
  | press within down =>
    obtain rfl := Option.some.inj waits
    exact isDue_of_interrupted rfl hu within down
  | still => exact absurd rfl changed
  | pass => cases waits

/-- The same of the first in line, which stays in front. -/
theorem frontIsDue_again (waits : (a.attempt km r).waiting = some s)
    (changed : (a.attempt km r).arbiter.candidate ≠ a.candidate) :
    FrontIsDue km { (a.attempt km r).arbiter with
      backlog := (a.attempt km r).arbiter.backlog.setFront s } := by
  intro first hf
  obtain rfl := Backlog.eq_of_mem_head?_setFront hf
  exact isDue_again waits changed _

/-- A record that stays although the candidate has changed was not due. -/
theorem not_frontIsDue (hl : a.line = r :: rest) (waits : (a.attempt km r).waiting = some s)
    (changed : (a.attempt km r).arbiter.candidate ≠ a.candidate) : ¬ a.FrontIsDue km := by
  intro due
  rcases due r (by simp [hl]) with consumed | alone
  · cases consumed.symm.trans waits
  · exact changed alone

/-- A record that stays and leaves the candidate alone has changed nothing. -/
theorem attempt_of_kept (waits : (a.attempt km r).waiting = some s)
    (kept : (a.attempt km r).arbiter.candidate = a.candidate) :
    a.attempt km r = ⟨a, some r, []⟩ := by
  obtain ⟨c, hc, hu, meets⟩ := meets_of_waiting waits
  generalize a.attempt km r = tried at meets waits kept ⊢
  cases meets with
  | late | typed => cases kept.trans hc
  | own =>
    -- a tap that has been dispatched is not undecided
    have decided : (a.dispatchTap km c).arbiter.undecided? = a.undecided? :=
      congrArg (Option.filter Record.isUndecided) kept
    rw [undecided?_dispatchTap, undecided?_eq_some hc hu] at decided
    cases decided
  | press =>
    -- the candidate was interrupted before
    have same : a.withCandidate (some c.interrupt) = a := congrArg a.withCandidate kept
    rw [same]
  | still => rfl
  | pass => cases waits

/-! ## An attempt leaves the waiting events in place -/

theorem events_pass (a : Arbiter) (km : Keymap) (r : Record) :
    (a.pass km r).arbiter.line.map Record.event = a.line.map Record.event :=
  congrArg _ (line_dispatch a km r false)

theorem events_adopt (a : Arbiter) (km : Keymap) (r : Record) :
    (a.adopt km r).arbiter.line.map Record.event = a.line.map Record.event := by
  unfold adopt
  split
  · show (Backlog.modifyFirstIn _ _ (a.dispatchTap km r).arbiter.line).map Record.event = _
    rw [line_dispatchTap, map_event_modifyFirstIn]
  · rfl

theorem events_attemptFree (a : Arbiter) (km : Keymap) (r : Record) :
    (a.attemptFree km r).arbiter.line.map Record.event = a.line.map Record.event := by
  unfold attemptFree
  split
  · exact events_adopt a km r
  · exact events_pass a km r

theorem events_attemptReleased (a : Arbiter) (km : Keymap) (c r : Record) :
    (a.attemptReleased km c r).arbiter.line.map Record.event = a.line.map Record.event := by
  unfold attemptReleased
  split
  · exact events_attemptFree (a.withCandidate none) km r
  split
  · exact events_pass a km r
  split
  · split
    · exact congrArg _ (line_dispatch a km { r with tap := c.tap.next } false)
    · exact events_adopt a km r
  split
  · exact events_adopt a km r
  · exact events_pass (a.withCandidate (some c.interrupt)) km r

theorem events_attemptTapped (a : Arbiter) (km : Keymap) (c r : Record) :
    (a.attemptTapped km c r).arbiter.line.map Record.event = a.line.map Record.event := by
  unfold attemptTapped
  split
  · exact congrArg _ (line_dispatch a km { r with tap := c.tap } false)
  split
  · unfold displaceTap
    split
    · exact (events_adopt _ km r).trans (congrArg _ (line_dispatch a km _ true))
    · exact events_adopt a km r
  · exact events_pass a km r

/-- An attempt leaves all events in line, in order. -/
theorem events_attempt (a : Arbiter) (km : Keymap) (r : Record) :
    (a.attempt km r).arbiter.line.map Record.event = a.line.map Record.event := by
  unfold attempt
  split
  · exact events_attemptFree a km r
  split
  · exact events_attemptReleased a km _ r
  split
  · exact congrArg _ (line_attemptUndecided a km _ r)
  · exact events_attemptTapped a km _ r

/-- The first in line keeps its event when it stays in front as the attempt has left it. -/
theorem events_stay (hl : a.line = r :: rest) (waits : (a.attempt km r).waiting = some s) :
    ((a.attempt km r).arbiter.backlog.setFront s).records.map Record.event =
      a.line.map Record.event := by
  have events := events_attempt a km r
  rw [hl, List.map_cons, ← event_waiting waits] at events ⊢
  exact Backlog.events_setFront events

end Arbiter

/-! ## The loop -/

/-- The loop that drains a backlog, between two rounds. What the attempts emit is performed on a
state `σ`. -/
structure Draining (σ : Type) where
  arbiter : Arbiter
  outside : σ
  /-- The number of records that have left the backlog. -/
  gone : Nat
  /-- The places of the records that were tried, one for each attempt. A place is counted from the
  front of the backlog as it was before the first round. -/
  tried : List Nat
  /-- Whether the last attempt has left its record to wait for an event yet to come. -/
  halted : Bool

namespace Draining

open Arbiter

variable {σ : Type} {perform : σ → Emission → σ} {km : Keymap} {a : Arbiter} {o : σ}
  {s : Draining σ}

/-- Before the first round. -/
def enter (a : Arbiter) (o : σ) : Draining σ := ⟨a, o, 0, [], false⟩

/-- Whether there is no further round. -/
def hasEnded (s : Draining σ) : Bool := s.halted || s.arbiter.backlog.isEmpty

/-- One round: the oldest record is tried. It leaves the backlog if it was consumed; else it stays
in front as the attempt has left it, and it is tried again if the candidate has changed. -/
def round (perform : σ → Emission → σ) (km : Keymap) (s : Draining σ) : Draining σ :=
  if s.halted then s
  else
    match s.arbiter.backlog.records with
    | [] => s
    | r :: _ =>
      let attempt := s.arbiter.attempt km r
      let outside := attempt.emitted.foldl perform s.outside
      let tried := s.tried ++ [s.gone]
      match attempt.waiting with
      | none =>
        ⟨{ attempt.arbiter with backlog := attempt.arbiter.backlog.dropFront }, outside, s.gone + 1,
          tried, false⟩
      | some front =>
        ⟨{ attempt.arbiter with backlog := attempt.arbiter.backlog.setFront front }, outside,
          s.gone, tried, decide (attempt.arbiter.candidate = s.arbiter.candidate)⟩

/-- The loop after `n` rounds. -/
def rounds (perform : σ → Emission → σ) (km : Keymap) (n : Nat) (s : Draining σ) : Draining σ :=
  (round perform km)^[n] s

theorem rounds_succ (perform : σ → Emission → σ) (km : Keymap) (n : Nat) (s : Draining σ) :
    rounds perform km (n + 1) s = (rounds perform km n s).round perform km :=
  Function.iterate_succ_apply' _ n s

theorem hasEnded_eq_false_iff : s.hasEnded = false ↔ s.halted = false ∧ s.arbiter.line ≠ [] := by
  rw [hasEnded, Bool.or_eq_false_iff, Backlog.isEmpty, List.isEmpty_eq_false_iff]
  rfl

theorem round_of_ended (ended : s.hasEnded = true) : s.round perform km = s := by
  unfold round
  split
  · rfl
  · rename_i going
    have empty : s.arbiter.backlog.records = [] := by
      simpa [hasEnded, going, Backlog.isEmpty] using ended
    simp only [empty]

/-- What a round can do. -/
inductive Round (perform : σ → Emission → σ) (km : Keymap) (s : Draining σ) :
    Draining σ → Prop where
  /-- There is no further round. -/
  | ended (ended : s.hasEnded = true) : Round perform km s s
  /-- The oldest record leaves the backlog. -/
  | consumes {b : Arbiter} {out : List Emission} (running : s.hasEnded = false)
      (advanced : s.arbiter.advance? km = some (b, out))
      (events : b.line.map Record.event = (s.arbiter.line.map Record.event).tail) :
      Round perform km s
        ⟨b, out.foldl perform s.outside, s.gone + 1, s.tried ++ [s.gone], false⟩
  /-- The candidate changes, and the oldest record is to be tried again. -/
  | retries {b : Arbiter} {out : List Emission} (running : s.hasEnded = false)
      (advanced : s.arbiter.advance? km = some (b, out))
      (events : b.line.map Record.event = s.arbiter.line.map Record.event)
      (early : ¬ s.arbiter.FrontIsDue km) (due : b.FrontIsDue km) :
      Round perform km s ⟨b, out.foldl perform s.outside, s.gone, s.tried ++ [s.gone], false⟩
  /-- Nothing comes of the attempt. -/
  | halts (running : s.hasEnded = false) (stuck : s.arbiter.advance? km = none) :
      Round perform km s ⟨s.arbiter, s.outside, s.gone, s.tried ++ [s.gone], true⟩

theorem round_cases (perform : σ → Emission → σ) (km : Keymap) (s : Draining σ) :
    Round perform km s (s.round perform km) := by
  cases running : s.hasEnded with
  | true =>
    rw [round_of_ended running]
    exact .ended running
  | false =>
    obtain ⟨halted, waits⟩ := hasEnded_eq_false_iff.mp running
    obtain ⟨r, rest, hl⟩ := List.exists_cons_of_ne_nil waits
    have going : ¬ s.halted = true := by simp [halted]
    have records : s.arbiter.backlog.records = r :: rest := hl
    cases waiting : (s.arbiter.attempt km r).waiting with
    | none =>
      simp only [round, if_neg going, records, waiting]
      refine .consumes running (by simp only [advance?, records, waiting]) ?_
      rw [← events_attempt s.arbiter km r]
      exact List.map_tail
    | some front =>
      by_cases kept : (s.arbiter.attempt km r).arbiter.candidate = s.arbiter.candidate
      · -- the attempt has changed nothing, and the record takes the place that it had
        have same : s.round perform km =
            ⟨s.arbiter, s.outside, s.gone, s.tried ++ [s.gone], true⟩ := by
          simp only [round, if_neg going, records, attempt_of_kept waiting kept,
            Backlog.setFront_of_front records, decide_true, List.foldl_nil]
        rw [same]
        exact .halts running (by simp only [advance?, records, waiting, if_pos kept])
      · simp only [round, if_neg going, records, waiting, decide_eq_false kept]
        exact .retries running (by simp only [advance?, records, waiting, if_neg kept])
          (events_stay hl waiting) (not_frontIsDue hl waiting kept) (frontIsDue_again waiting kept)

/-! ## What every round keeps -/

/-- What holds after any number of rounds, the first of which began with the arbiter `a` and the
state `o`. -/
structure Kept (perform : σ → Emission → σ) (km : Keymap) (a : Arbiter) (o : σ) (s : Draining σ) :
    Prop where
  arbiter : (s.arbiter.drain km).1 = (a.drain km).1
  outside : (s.arbiter.drain km).2.foldl perform s.outside = (a.drain km).2.foldl perform o
  events : s.arbiter.line.map Record.event = (a.line.map Record.event).drop s.gone
  places : ∀ place ∈ s.tried, place ≤ s.gone ∧ place < a.backlog.size
  twice : ∀ place, s.tried.count place ≤ 2
  /-- The front has not been tried before, or its second attempt will be the last one. -/
  front : s.halted = false → s.tried.count s.gone = 0 ∨
    (s.tried.count s.gone = 1 ∧ s.arbiter.FrontIsDue km)
  stuck : s.halted = true → s.arbiter.advance? km = none

theorem kept_enter (perform : σ → Emission → σ) (km : Keymap) (a : Arbiter) (o : σ) :
    Kept perform km a o (.enter a o) where
  arbiter := rfl
  outside := rfl
  events := rfl
  places := nofun
  twice := fun _ => Nat.zero_le 2
  front := fun _ => Or.inl rfl
  stuck := nofun

/-- The record in front is one of those that waited at the start. -/
theorem Kept.gone_lt (k : Kept perform km a o s) (running : s.hasEnded = false) :
    s.gone < a.backlog.size := by
  apply Nat.lt_of_not_le
  intro beyond
  have none : s.arbiter.line.map Record.event = [] := by
    rw [k.events]
    exact List.drop_of_length_le (by rwa [List.length_map])
  exact (hasEnded_eq_false_iff.mp running).2 (List.map_eq_nil_iff.mp none)

theorem Kept.places_concat (k : Kept perform km a o s) (running : s.hasEnded = false) :
    ∀ place ∈ s.tried ++ [s.gone], place ≤ s.gone ∧ place < a.backlog.size := by
  intro place h
  rcases List.mem_append.mp h with before | now
  · exact k.places place before
  · obtain rfl := List.mem_singleton.mp now
    exact ⟨Nat.le_refl _, k.gone_lt running⟩

theorem Kept.twice_concat (k : Kept perform km a o s) (running : s.hasEnded = false) (place : Nat) :
    (s.tried ++ [s.gone]).count place ≤ 2 := by
  have once : s.tried.count s.gone ≤ 1 := by
    rcases k.front (hasEnded_eq_false_iff.mp running).1 with none | ⟨one, -⟩ <;> omega
  rw [List.count_append, List.count_singleton]
  split
  · rename_i here
    rw [← eq_of_beq here]
    exact Nat.succ_le_succ once
  · exact k.twice place

theorem Kept.round (k : Kept perform km a o s) : Kept perform km a o (s.round perform km) := by
  have cases := round_cases perform km s
  generalize s.round perform km = t at cases
  cases cases with
  | ended => exact k
  | consumes running advanced events =>
    have drained := drain_of_advance? advanced
    refine ⟨?_, ?_, ?_, fun place h => ?_, k.twice_concat running, fun _ => Or.inl ?_, nofun⟩
    · rw [← k.arbiter, drained]
    · rw [← k.outside, drained, List.foldl_append]
    · rw [events, k.events, List.tail_drop]
    · obtain ⟨le, lt⟩ := k.places_concat running place h
      exact ⟨Nat.le_succ_of_le le, lt⟩
    · -- the next record has not been tried yet
      refine List.count_eq_zero.mpr fun ahead => ?_
      exact Nat.not_succ_le_self _ (k.places_concat running _ ahead).1
  | retries running advanced events early due =>
    have drained := drain_of_advance? advanced
    refine ⟨?_, ?_, events.trans k.events, k.places_concat running, k.twice_concat running,
      fun _ => Or.inr ⟨?_, due⟩, nofun⟩
    · rw [← k.arbiter, drained]
    · rw [← k.outside, drained, List.foldl_append]
    · -- a record that was tried before would have been due
      have none := (k.front (hasEnded_eq_false_iff.mp running).1).resolve_right fun h => early h.2
      rw [List.count_append, none, List.count_singleton_self]
  | halts running stuck =>
    exact ⟨k.arbiter, k.outside, k.events, k.places_concat running, k.twice_concat running, nofun,
      fun _ => stuck⟩

theorem kept_rounds (perform : σ → Emission → σ) (km : Keymap) (a : Arbiter) (o : σ) (n : Nat) :
    Kept perform km a o (rounds perform km n (.enter a o)) := by
  induction n with
  | zero => exact kept_enter perform km a o
  | succ n ih =>
    rw [rounds_succ]
    exact ih.round

/-- Each of the records that waited at the start is tried at most twice, and no other one. -/
theorem Kept.count_tried (k : Kept perform km a o s) (place : Nat) :
    s.tried.count place ≤ if place < a.backlog.size then 2 else 0 := by
  split
  · exact k.twice place
  · rename_i beyond
    exact Nat.le_of_eq (List.count_eq_zero.mpr fun h => beyond (k.places place h).2)

/-- There are at most two attempts for each record. -/
theorem Kept.length_tried (k : Kept perform km a o s) : s.tried.length ≤ 2 * a.backlog.size := by
  -- the length is summed up over the places that were tried
  have waiting : s.tried.toFinset ⊆ Finset.range a.backlog.size := fun place h =>
    Finset.mem_range.mpr (k.places place (List.mem_toFinset.mp h)).2
  have few : s.tried.toFinset.card ≤ a.backlog.size :=
    (Finset.card_le_card waiting).trans_eq (Finset.card_range _)
  calc s.tried.length
      = ∑ place ∈ s.tried.toFinset, s.tried.count place :=
        (List.sum_toFinset_count_eq_length _).symm
    _ ≤ ∑ _place ∈ s.tried.toFinset, 2 := Finset.sum_le_sum fun place _ => k.twice place
    _ = s.tried.toFinset.card * 2 := Finset.sum_const_nat fun _ _ => rfl
    _ ≤ a.backlog.size * 2 := Nat.mul_le_mul_right 2 few
    _ = 2 * a.backlog.size := Nat.mul_comm _ _

/-! ## The end of the loop -/

/-- A round that is not beyond the end makes one attempt. -/
theorem length_tried_round (perform : σ → Emission → σ) (km : Keymap)
    (running : s.hasEnded = false) : (s.round perform km).tried.length = s.tried.length + 1 := by
  have cases := round_cases perform km s
  generalize s.round perform km = t at cases ⊢
  cases cases with
  | ended ended => cases ended.symm.trans running
  | consumes | retries | halts => exact List.length_append

/-- As long as the loop goes on, there are as many attempts as rounds. -/
theorem length_tried_rounds (n : Nat)
    (running : (rounds perform km n (.enter a o)).hasEnded = false) :
    (rounds perform km n (.enter a o)).tried.length = n := by
  induction n with
  | zero => rfl
  | succ n ih =>
    rw [rounds_succ] at running ⊢
    cases before : (rounds perform km n (.enter a o)).hasEnded with
    | true =>
      rw [round_of_ended before, before] at running
      cases running
    | false => rw [length_tried_round perform km before, ih before]

/-- The loop has ended after two rounds for each record: with one more there would be more attempts
than there can be. -/
theorem hasEnded_rounds (perform : σ → Emission → σ) (km : Keymap) (a : Arbiter) (o : σ) :
    (rounds perform km (2 * a.backlog.size) (.enter a o)).hasEnded = true := by
  cases running : (rounds perform km (2 * a.backlog.size) (.enter a o)).hasEnded with
  | true => rfl
  | false =>
    have bound := (kept_rounds perform km a o (2 * a.backlog.size + 1)).length_tried
    rw [rounds_succ, length_tried_round perform km running, length_tried_rounds _ running] at bound
    exact absurd bound (Nat.not_succ_le_self _)

/-- At its end the loop has come to where draining leads. -/
theorem Kept.result (k : Kept perform km a o s) (ended : s.hasEnded = true) :
    s.arbiter = (a.drain km).1 ∧ s.outside = (a.drain km).2.foldl perform o := by
  have stuck : s.arbiter.advance? km = none := by
    cases halted : s.halted with
    | true => exact k.stuck halted
    | false =>
      have empty : s.arbiter.backlog.records = [] := by
        simpa [hasEnded, halted, Backlog.isEmpty] using ended
      simp only [advance?, empty]
  have arbiter := k.arbiter
  have outside := k.outside
  rw [drain_of_stuck stuck] at arbiter outside
  exact ⟨arbiter, outside⟩

/-- Rounds change nothing where nothing comes of draining. -/
theorem rounds_of_stuck (stuck : a.advance? km = none) (perform : σ → Emission → σ) (o : σ)
    (n : Nat) : (rounds perform km n (.enter a o)).arbiter = a ∧
      (rounds perform km n (.enter a o)).outside = o := by
  induction n with
  | zero => exact ⟨rfl, rfl⟩
  | succ n ih =>
    rw [rounds_succ]
    have cases := round_cases perform km (rounds perform km n (.enter a o))
    generalize (rounds perform km n (.enter a o)).round perform km = t at cases ⊢
    cases cases with
    | ended | halts => exact ih
    -- there is no advance to make
    | consumes running advanced | retries running advanced =>
      rw [ih.1, stuck] at advanced
      cases advanced

/-- **The loop ends, and it tries no record more than twice.** From any state of the arbiter, for
every keymap, and whatever performs the emissions (a host with any extensions, say), the loop has
ended after two rounds for each waiting record at the latest. It ends with the arbiter that draining
leads to, and what draining emits has been performed. At any time each waiting record has been tried
at most twice and no other one, so that there are at most twice as many attempts as records; and the
events in line are those of the start without the first ones, which are those of the records that
have left. Where the loop has ended, draining again changes nothing and emits nothing, and neither
do further rounds from there. -/
theorem rounds_end {σ : Type} (perform : σ → Emission → σ) (km : Keymap) (a : Arbiter) (o : σ) :
    let loop (n : Nat) := rounds perform km n (.enter a o)
    let last := loop (2 * a.backlog.size)
    (last.hasEnded = true ∧ last.arbiter = (a.drain km).1 ∧
        last.outside = (a.drain km).2.foldl perform o) ∧
      (∀ n, (∀ place, (loop n).tried.count place ≤ if place < a.backlog.size then 2 else 0) ∧
        (loop n).tried.length ≤ 2 * a.backlog.size ∧
        (loop n).arbiter.line.map Record.event = (a.line.map Record.event).drop (loop n).gone) ∧
      last.arbiter.drain km = (last.arbiter, []) ∧
      ∀ n, (rounds perform km n (.enter last.arbiter last.outside)).arbiter = last.arbiter ∧
        (rounds perform km n (.enter last.arbiter last.outside)).outside = last.outside := by
  intro loop last
  have kept (n : Nat) : Kept perform km a o (loop n) := kept_rounds perform km a o n
  have ended : last.hasEnded = true := hasEnded_rounds perform km a o
  have result := (kept (2 * a.backlog.size)).result ended
  have stuck : last.arbiter.advance? km = none := by
    rw [result.1]
    exact advance?_drain a km
  refine ⟨⟨ended, result⟩, fun n => ?_, drain_of_stuck stuck,
    rounds_of_stuck stuck perform last.outside⟩
  exact ⟨(kept n).count_tried, (kept n).length_tried, (kept n).events⟩

/-- There can be two attempts at every record. The first record comes after the term of the
candidate, is tried again when that is settled, and takes its place; the second one interrupts it,
and stays. -/
example :
    let km := Keymap.ofKeys fun _ => 0x812c
    let press (col : Byte) (ms : Word) : Record := .ofEvent ⟨⟨0, col⟩, true, ⟨ms⟩⟩
    let a : Arbiter := ⟨.start .standard 0, ⟨8, [press 1 300, press 2 310]⟩, some (press 0 0)⟩
    (rounds (fun o _ => o) km 4 (.enter a ())).tried = [0, 0, 1, 1] := by
  decide +kernel

end Draining

/-- The rounds of draining are how the handling of an event ends: the outlet performs at once what
is emitted. -/
theorem Keyboard.handle_eq_rounds {η χ : Type} [Host η] [Hooks χ] (kb : Keyboard η χ) (km : Keymap)
    (e : KeyEvent) :
    let accepted := kb.arbiter.accept km e
    let last := Draining.rounds Outlet.emit km (2 * accepted.1.backlog.size)
      (.enter accepted.1 (kb.outlet.emitAll accepted.2))
    kb.handle km e = ⟨last.arbiter, last.outside⟩ := by
  intro accepted last
  have ended : last.hasEnded = true := Draining.hasEnded_rounds _ km _ _
  obtain ⟨arbiter, outside⟩ := (Draining.kept_rounds _ km _ _ _).result ended
  rw [arbiter, outside]
  exact congrArg (Keyboard.mk _) (Outlet.emitAll_append kb.outlet _ _)

end TapHold
