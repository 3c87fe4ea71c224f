import TapHold.Proofs.Arbiter.Step
import TapHold.Proofs.Arbiter.Chain
import TapHold.Proofs.Interpreter.Holds
import TapHold.Proofs.Keyboard.NoHooks

/-!
# Runs of a keyboard

A keyboard without extensions that reports to a computer gets events and ticks, is reset, and has
its reports read (`Stimulus`). What is to hold at all times is shown once for every small step
(`Invariant`); then it holds after every run in which the edges of each key come in turn and no
event is earlier than one that is still held back (`Invariant.run`).
-/

set_option autoImplicit false

namespace TapHold

/-- What can happen to a keyboard that reports to a computer. -/
inductive Stimulus where
  | event (e : KeyEvent)
  | tick (now : Time)
  | reset
  /-- The computer takes up to `n` reports. -/
  | read (n : Nat)

/-- Which keys are down after a stimulus. -/
def Stimulus.after (down : Position → Bool) : Stimulus → Position → Bool
  | .event e => if e.isTick then down else e.after down
  | _ => down

namespace Keyboard

/-- The keyboard after a stimulus. -/
def step (km : Keymap) (kb : Keyboard ReportHost NoHooks) : Stimulus → Keyboard ReportHost NoHooks
  | .event e => kb.process km e
  | .tick now => kb.tick km now
  | .reset => kb.reset
  | .read n => kb.withHost (kb.outlet.host.read n).2

/-- Whether a stimulus may come: a key event has to be the next edge of its key, and not earlier
than an event that is still held back. -/
def admits (down : Position → Bool) (kb : Keyboard ReportHost NoHooks) : Stimulus → Bool
  | .event e => e.isTick || (e.pressed == !down e.key &&
      kb.arbiter.heldEvents.all fun x => e.time.isNotBefore x.time)
  | _ => true

/-- Whether every stimulus of a run may come. -/
def admitsAll (km : Keymap) (down : Position → Bool) (kb : Keyboard ReportHost NoHooks) :
    List Stimulus → Bool
  | [] => true
  | x :: xs => kb.admits down x && admitsAll km (x.after down) (kb.step km x) xs

end Keyboard

/-- What every small step of a keyboard keeps. -/
structure Invariant (km : Keymap)
    (inv : (Position → Bool) → Arbiter → Outlet ReportHost NoHooks → Prop) : Prop where
  orderly : ∀ {down a o}, inv down a o → a.Orderly down
  move : ∀ {down a out b o}, a.Move km out b → inv down a o → inv down b (o.emitAll out)
  arrival : ∀ {down a out b o e}, Arbiter.Arrival km e a out b → e.isTick = false →
    e.pressed = !down e.key → (∀ x ∈ a.heldEvents, e.time.isNotBefore x.time = true) →
      inv down a o → inv (e.after down) b (o.emitAll out)
  reset : ∀ {down a o}, inv down a o → inv down a.reset o.reset
  read : ∀ {down a o} (n : Nat), inv down a o →
    inv down a { o with host := (o.host.read n).2 }

namespace Invariant

variable {km : Keymap} {inv : (Position → Bool) → Arbiter → Outlet ReportHost NoHooks → Prop}
  {a b : Arbiter} {out : List Emission} {down : Position → Bool} {o : Outlet ReportHost NoHooks}
  {e : KeyEvent} {kb : Keyboard ReportHost NoHooks}

theorem moves (h : Invariant km inv) (m : a.Moves km out b) (start : inv down a o) :
    inv down b (o.emitAll out) := by
  induction m generalizing o with
  | refl => exact start
  | step m _ ih =>
    rw [Outlet.emitAll_append]
    exact ih (h.move m start)

theorem passage (h : Invariant km inv) (p : Arbiter.Passage km e a out b) (real : e.isTick = false)
    (next : e.pressed = !down e.key)
    (late : ∀ x ∈ a.heldEvents, e.time.isNotBefore x.time = true) (start : inv down a o) :
    inv (e.after down) b (o.emitAll out) := by
  obtain ⟨a₁, a₂, out₁, out₂, out₃, before, arrival, after, rfl⟩ := p
  rw [Outlet.emitAll_append, Outlet.emitAll_append]
  -- nothing is held on arrival that was not held when the event came
  have fewer := before.keep (p := fun d => ∀ x ∈ d.heldEvents, e.time.isNotBefore x.time = true)
    (fun m held x hx => held x ((Arbiter.heldEvents_move m).subset hx)) late
  exact h.moves after (h.arrival arrival real next fewer (h.moves before start))

/-- What every small step keeps, every stimulus keeps. -/
theorem step (h : Invariant km inv) (x : Stimulus)
    (admitted : kb.admits down x = true)
    (none : kb.outlet.injected = []) (rested : kb.arbiter.Rested)
    (start : inv down kb.arbiter kb.outlet) :
    (kb.step km x).outlet.injected = [] ∧ (kb.step km x).arbiter.Rested ∧
      inv (x.after down) (kb.step km x).arbiter (kb.step km x).outlet := by
  have handled (e : KeyEvent) : (kb.process km e).outlet.injected = [] ∧
      (kb.process km e).arbiter.Rested := by
    rw [Keyboard.process_eq_handle km e none]
    exact ⟨(Outlet.injected_emitAll _ _).trans none, Arbiter.rested_handle _ km e⟩
  have ticked (e : KeyEvent) (tick : e.isTick = true) :
      inv down (kb.process km e).arbiter (kb.process km e).outlet := by
    rw [Keyboard.process_eq_handle km e none]
    exact h.moves (Arbiter.handle_tick_moves tick fun c hc => (h.orderly start).real_candidate hc)
      start
  cases x with
  | event e =>
    refine ⟨(handled e).1, (handled e).2, ?_⟩
    show inv (if e.isTick then down else e.after down) (kb.process km e).arbiter _
    cases real : e.isTick with
    | true => exact ticked e real
    | false =>
      simp only [Keyboard.admits, real, Bool.false_or, Bool.and_eq_true, beq_iff_eq,
        List.all_eq_true] at admitted
      show inv (e.after down) (kb.process km e).arbiter (kb.process km e).outlet
      rw [Keyboard.process_eq_handle km e none]
      exact h.passage (Arbiter.handle_passage rested real) real admitted.1 admitted.2 start
  | tick now => exact ⟨(handled _).1, (handled _).2, ticked (.tick now) rfl⟩
  | reset => exact ⟨rfl, fun _ => rfl, h.reset start⟩
  | read n => exact ⟨none, rested, h.read n start⟩

/-- What every small step keeps, every run keeps. -/
theorem run (h : Invariant km inv) (xs : List Stimulus)
    (admitted : kb.admitsAll km down xs = true) (none : kb.outlet.injected = [])
    (rested : kb.arbiter.Rested) (start : inv down kb.arbiter kb.outlet) :
    inv (xs.foldl Stimulus.after down) (xs.foldl (Keyboard.step km) kb).arbiter
      (xs.foldl (Keyboard.step km) kb).outlet := by
  induction xs generalizing kb down with
  | nil => exact start
  | cons x xs ih =>
    rw [Keyboard.admitsAll, Bool.and_eq_true] at admitted
    obtain ⟨none', rested', next⟩ := h.step x admitted.1 none rested start
    exact ih admitted.2 none' rested' next

end Invariant

end TapHold
