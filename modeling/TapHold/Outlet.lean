import TapHold.Arbiter.Drain

/-!
# Outlets

An outlet performs what an arbiter emits: it holds the host, the extensions, and the key events that
extensions have queued. There is room for a few such events; an extension that queues one more is
told so, and the event is dropped. Where the extensions have a budget, the number of events that are
queued or can still be never grows (`debt_emitAll`).
-/

set_option autoImplicit false

namespace TapHold

/-- The host, the extensions, and the events that extensions have queued. -/
structure Outlet (η χ : Type) where
  host : η
  hooks : χ
  /-- Oldest first. -/
  injected : List KeyEvent

namespace Outlet

variable {η χ : Type}

section Performing

variable [Host η] [Extensions χ]

/-- The greatest number of queued events. -/
def injectCapacity : Nat := 4

/-- Queues an event if there is room for it, and tells whether there was. -/
def inject (o : Outlet η χ) (e : KeyEvent) : Outlet η χ × Bool :=
  if o.injected.length < injectCapacity then
    ({ o with injected := o.injected ++ [e] }, true)
  else (o, false)

/-- Performs a host call. -/
def call (o : Outlet η χ) (c : HostCall) : Outlet η χ := { o with host := Host.perform o.host c }

/-- Runs a program of an extension. -/
def runProgram (o : Outlet η χ) : HookProgram χ → Outlet η χ
  | .done hooks => { o with hooks }
  | .call c next => (o.call c).runProgram next
  | .modifiers next => o.runProgram (next (Host.modifiers o.host))
  | .inject e next => (o.inject e).1.runProgram (next (o.inject e).2)

/-- Performs an effect. -/
def perform (o : Outlet η χ) : Effect → Outlet η χ
  | .request r => { o with host := r.run o.host }
  | .hook c => o.runProgram (Extensions.answer o.hooks c)
  | .unknown code => { o with hooks := Extensions.unknown o.hooks code }

/-- Performs an emission. -/
def emit (o : Outlet η χ) : Emission → Outlet η χ
  | .dispatched d => o.perform d.effect
  | .overflow => o.call .clearAll

/-- Performs a list of emissions, in order. -/
def emitAll (o : Outlet η χ) (out : List Emission) : Outlet η χ := out.foldl emit o

/-- Drops the queued events. -/
def dropInjected (o : Outlet η χ) : Outlet η χ := { o with injected := [] }

/-- Everything goes up, and the queued events are dropped. -/
def reset (o : Outlet η χ) : Outlet η χ := (o.call .clearAll).dropInjected

end Performing

/-! ## Queued events come to an end -/

variable [Host η] [Hooks χ]

/-- The number of events that are queued or can still be. -/
def debt (o : Outlet η χ) : Nat := Hooks.budget o.hooks + o.injected.length

omit [Host η] [Hooks χ] in
theorem length_inject (o : Outlet η χ) (e : KeyEvent) :
    (o.inject e).1.injected.length ≤ o.injected.length + 1 := by
  unfold inject
  split <;> simp

theorem debt_runProgram (p : HookProgram χ) (o : Outlet η χ) (n : Nat)
    (h : p.Within Hooks.budget n) : (o.runProgram p).debt ≤ n + o.injected.length := by
  induction p generalizing o n with
  | done hooks => exact Nat.add_le_add_right h _
  | call c next ih => exact ih (o.call c) n h
  | modifiers next ih => exact ih _ o n (h _)
  | inject e next ih =>
    have rest := ih (o.inject e).2 (o.inject e).1 (n - 1) (h.2 _)
    have one := length_inject o e
    have pos := h.1
    change ((o.inject e).1.runProgram (next (o.inject e).2)).debt ≤ _
    omega

theorem debt_perform (o : Outlet η χ) (e : Effect) : (o.perform e).debt ≤ o.debt := by
  cases e with
  | request r => exact Nat.le_refl _
  | hook c => exact debt_runProgram _ o _ (Hooks.answer_within o.hooks c)
  | unknown code => exact Nat.add_le_add_right (Hooks.unknown_budget o.hooks code) _

/-- Performing emissions never adds to the events that are queued or can still be. -/
theorem debt_emitAll (o : Outlet η χ) (out : List Emission) : (o.emitAll out).debt ≤ o.debt := by
  induction out generalizing o with
  | nil => exact Nat.le_refl _
  | cons e out ih =>
    refine Nat.le_trans (ih (o.emit e)) ?_
    cases e with
    | dispatched d => exact debt_perform o d.effect
    | overflow => exact Nat.le_refl _

end Outlet

end TapHold
