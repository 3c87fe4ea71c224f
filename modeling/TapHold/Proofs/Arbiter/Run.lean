import TapHold.Proofs.Arbiter.Account

/-!
# Runs of an arbiter

A run takes one event after another, and what each of them keeps holds at the end (`keep_run`).
`Kept` collects what has to be shown of an invariant for a single move and a single arrival, which
is enough for a run (`Kept.run`). The invariant may speak
of the keys that are down, of the events that have come and of what has been emitted. What is known
about the events that come is a parameter: `inTurn` asks nothing but that edges come in turn, and
`timely` also asks that no event is earlier than one that is still held back.
-/

set_option autoImplicit false

namespace TapHold

namespace Arbiter

variable {km : Keymap} {a b : Arbiter} {out : List Emission} {down : Position → Bool}
  {arrived : List KeyEvent} {e : KeyEvent}

/-- A run goes on where an earlier one ended. -/
theorem run_append (a : Arbiter) (km : Keymap) (es fs : List KeyEvent) :
    a.run km (es ++ fs) =
      (((a.run km es).1.run km fs).1, (a.run km es).2 ++ ((a.run km es).1.run km fs).2) := by
  induction es generalizing a with
  | nil => rfl
  | cons e es ih =>
    rw [List.cons_append, run, ih]
    simp only [run, List.append_assoc]

theorem run_concat (a : Arbiter) (km : Keymap) (es : List KeyEvent) (e : KeyEvent) :
    a.run km (es ++ [e]) =
      (((a.run km es).1.handle km e).1, (a.run km es).2 ++ ((a.run km es).1.handle km e).2) := by
  rw [run_append]
  simp only [run, List.append_nil]

/-- After every run no record waits unless the candidate is undecided. -/
theorem rested_run (rested : a.Rested) (es : List KeyEvent) : (a.run km es).1.Rested := by
  induction es generalizing a with
  | nil => exact rested
  | cons e es ih => exact ih (rested_handle a km e)

/-- Whether the edges of every key come in turn and each event, when it comes, satisfies `ok`. Ticks
may come at any time. -/
def admits (ok : Arbiter → KeyEvent → Bool) (km : Keymap) (down : Position → Bool) (a : Arbiter) :
    List KeyEvent → Bool
  | [] => true
  | e :: es =>
    (e.isTick || e.pressed == !down e.key && ok a e) &&
      admits ok km (if e.isTick then down else e.after down) (a.handle km e).1 es

/-- Which keys are down after some events. -/
def downAfter (down : Position → Bool) (es : List KeyEvent) : Position → Bool :=
  es.foldl (fun down e => if e.isTick then down else e.after down) down

/-- A run is admitted if its first part is, and then the rest. -/
theorem admits_append (ok : Arbiter → KeyEvent → Bool) (km : Keymap) (down : Position → Bool)
    (a : Arbiter) (es fs : List KeyEvent) :
    a.admits ok km down (es ++ fs) =
      (a.admits ok km down es && (a.run km es).1.admits ok km (downAfter down es) fs) := by
  induction es generalizing a down with
  | nil => rfl
  | cons e es ih =>
    rw [List.cons_append, admits, admits, ih, Bool.and_assoc]
    rfl

/-- Whether an event is not earlier than any event that is still held back. -/
def isTimely (a : Arbiter) (e : KeyEvent) : Bool :=
  a.heldEvents.all fun x => e.time.isNotBefore x.time

/-- Whether the edges of every key come in turn and no event is earlier than one that is still held
back. -/
def timely (km : Keymap) (a : Arbiter) (es : List KeyEvent) : Bool :=
  a.admits isTimely km allUp es

/-- A run in which edges come in turn is admitted where nothing else is asked. -/
theorem admits_of_inTurn (km : Keymap) (a : Arbiter) {es : List KeyEvent}
    (turns : inTurn down es = true) : a.admits (fun _ _ => true) km down es = true := by
  induction es generalizing a down with
  | nil => rfl
  | cons e es ih =>
    unfold inTurn at turns
    rw [admits]
    cases tick : e.isTick with
    | true =>
      rw [if_pos tick] at turns
      exact ih _ turns
    | false =>
      rw [if_neg (by simp [tick]), Bool.and_eq_true] at turns
      rw [turns.1]
      exact ih _ turns.2

theorem isTimely_iff : a.isTimely e = true ↔ ∀ x ∈ a.heldEvents, e.time.isNotBefore x.time = true :=
  List.all_eq_true

/-- An event that is timely stays so, because a move holds nothing back that was not held before. -/
theorem isTimely_move (m : Move km a out b) (timely : a.isTimely e = true) :
    b.isTimely e = true := by
  rw [isTimely_iff] at timely ⊢
  intro x hx
  exact timely x ((heldEvents_move m).subset hx)

/-- What the handling of every event of a run keeps holds at the end of the run. -/
theorem keep_run {ok : Arbiter → KeyEvent → Bool} {fine : Emission → Prop}
    {inv : (Position → Bool) → List KeyEvent → List Emission → Arbiter → Prop} (es : List KeyEvent)
    (each : ∀ e ∈ es, ∀ (down : Position → Bool) (arrived : List KeyEvent) (out : List Emission)
      (a : Arbiter), a.Rested → (e.isTick || e.pressed == !down e.key && ok a e) = true →
        (∀ x ∈ (a.handle km e).2, fine x) → inv down arrived out a →
          inv (if e.isTick then down else e.after down) (arrived ++ realEvents [e])
            (out ++ (a.handle km e).2) (a.handle km e).1)
    (rested : a.Rested) (admitted : a.admits ok km down es = true)
    (good : ∀ x ∈ (a.run km es).2, fine x) (start : inv down arrived out a) :
    inv (downAfter down es) (arrived ++ realEvents es) (out ++ (a.run km es).2) (a.run km es).1 := by
  induction es generalizing a down arrived out with
  | nil =>
    rw [show realEvents [] = [] from rfl, List.append_nil]
    show inv down arrived (out ++ []) a
    rw [List.append_nil]
    exact start
  | cons e es ih =>
    have split : (a.run km (e :: es)).2 = (a.handle km e).2 ++ ((a.handle km e).1.run km es).2 := rfl
    have events : realEvents (e :: es) = realEvents [e] ++ realEvents es := by
      rw [← List.singleton_append, realEvents, List.filter_append]
      rfl
    rw [split, List.forall_mem_append] at good
    rw [admits, Bool.and_eq_true] at admitted
    rw [split, events, ← List.append_assoc, ← List.append_assoc]
    have now := each e List.mem_cons_self down arrived out a rested admitted.1 good.1 start
    exact ih (fun x hx => each x (List.mem_cons_of_mem e hx)) (rested_handle a km e) admitted.2 good.2
      now

theorem ne_overflow_of_fine {out : List Emission} (fine : ∀ x ∈ out, x ≠ .overflow) :
    out ≠ [.overflow] := by
  rintro rfl
  exact fine _ (List.mem_singleton_self _) rfl

/-- What every small step of a run keeps if the events that come satisfy `ok` and the emissions
satisfy `fine`. -/
structure Kept (km : Keymap) (ok : Arbiter → KeyEvent → Bool) (fine : Emission → Prop)
    (inv : (Position → Bool) → List KeyEvent → List Emission → Arbiter → Prop) : Prop where
  real : ∀ {down arrived out a}, inv down arrived out a → ∀ c, a.candidate = some c → c.isTick = false
  stays : ∀ {a b out e}, Move km a out b → ok a e = true → ok b e = true
  move : ∀ {down arrived out a out' b}, Move km a out' b → (∀ x ∈ out', fine x) →
    inv down arrived out a → inv down arrived (out ++ out') b
  arrival : ∀ {down arrived out a out' b e}, Arrival km e a out' b → e.isTick = false →
    e.pressed = !down e.key → ok a e = true → inv down arrived out a →
      inv (e.after down) (arrived ++ [e]) (out ++ out') b

namespace Kept

variable {ok : Arbiter → KeyEvent → Bool} {fine : Emission → Prop}
  {inv : (Position → Bool) → List KeyEvent → List Emission → Arbiter → Prop} {out' : List Emission}

theorem moves (h : Kept km ok fine inv) (m : Moves km a out' b) (good : ∀ x ∈ out', fine x)
    (before : inv down arrived out a) : inv down arrived (out ++ out') b := by
  induction m generalizing out with
  | refl a =>
    rw [List.append_nil]
    exact before
  | step m _ ih =>
    rw [List.forall_mem_append] at good
    rw [← List.append_assoc]
    exact ih good.2 (h.move m good.1 before)

theorem passage (h : Kept km ok fine inv) (p : Passage km e a out' b) (good : ∀ x ∈ out', fine x)
    (real : e.isTick = false) (next : e.pressed = !down e.key) (admitted : ok a e = true)
    (before : inv down arrived out a) : inv (e.after down) (arrived ++ [e]) (out ++ out') b := by
  obtain ⟨a₁, a₂, out₁, out₂, out₃, first, arrival, last, rfl⟩ := p
  rw [List.forall_mem_append, List.forall_mem_append] at good
  have still : ok a₁ e = true := first.keep (p := fun d => ok d e = true) h.stays admitted
  have here := h.arrival arrival real next still (h.moves first good.1 before)
  have after := h.moves last good.2.2 here
  simpa only [List.append_assoc] using after

/-- What every small step keeps, an event keeps, if a tick only lets moves happen and any other
event arrives among moves. -/
theorem event (h : Kept km ok fine inv) (moves : e.isTick = true → Moves km a out' b)
    (passage : e.isTick = false → Passage km e a out' b)
    (admitted : (e.isTick || e.pressed == !down e.key && ok a e) = true)
    (good : ∀ x ∈ out', fine x) (before : inv down arrived out a) :
    inv (if e.isTick then down else e.after down) (arrived ++ realEvents [e]) (out ++ out') b := by
  cases tick : e.isTick with
  | true =>
    have none : realEvents [e] = [] := by simp [realEvents, tick]
    rw [none, List.append_nil]
    exact h.moves (moves tick) good before
  | false =>
    have one : realEvents [e] = [e] := by simp [realEvents, tick]
    rw [tick, Bool.false_or, Bool.and_eq_true, beq_iff_eq] at admitted
    rw [one]
    exact h.passage (passage tick) good tick admitted.1 admitted.2 before

/-- What every small step keeps holds at the end of a run. -/
theorem run (h : Kept km ok fine inv) (es : List KeyEvent) (rested : a.Rested)
    (admitted : a.admits ok km down es = true) (good : ∀ x ∈ (a.run km es).2, fine x)
    (start : inv down arrived out a) :
    inv (downAfter down es) (arrived ++ realEvents es) (out ++ (a.run km es).2) (a.run km es).1 := by
  refine keep_run es (fun e _ down arrived out a rested admitted good before => ?_) rested admitted
    good start
  have moves (tick : e.isTick = true) : Moves km a (a.handle km e).2 (a.handle km e).1 :=
    handle_tick_moves tick (h.real before)
  exact h.event moves (handle_passage rested) admitted good before

end Kept

end Arbiter

end TapHold
