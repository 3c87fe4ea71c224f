import TapHold.Keyboard

/-!
# Keyboards without extensions

Without extensions nothing is ever queued behind an event, so processing an event is one pass
through the arbiter, and its emissions are performed in order (`process_eq_handle`). A list of
events leaves the arbiter as its own run does (`foldl_process`).
-/

set_option autoImplicit false

namespace TapHold

variable {η : Type} [Host η]

namespace Outlet

@[simp] theorem emitAll_append {χ : Type} [Hooks χ] (o : Outlet η χ) (out out' : List Emission) :
    o.emitAll (out ++ out') = (o.emitAll out).emitAll out' := List.foldl_append

theorem injected_emit (o : Outlet η NoHooks) (x : Emission) : (o.emit x).injected = o.injected := by
  cases x with
  | dispatched d =>
    show (o.perform d.effect).injected = o.injected
    cases d.effect <;> rfl
  | overflow => rfl

/-- No extension queues an event. -/
theorem injected_emitAll (o : Outlet η NoHooks) (out : List Emission) :
    (o.emitAll out).injected = o.injected := by
  induction out generalizing o with
  | nil => rfl
  | cons x out ih => exact (ih (o.emit x)).trans (injected_emit o x)

end Outlet

namespace Keyboard

theorem processInjected_of_nil {χ : Type} [Hooks χ] {kb : Keyboard η χ} (km : Keymap)
    (none : kb.outlet.injected = []) : kb.processInjected km = kb := by
  unfold processInjected
  split
  · rfl
  · rename_i e rest some
    cases none.symm.trans some

theorem processInjected_of_cons {χ : Type} [Hooks χ] {kb : Keyboard η χ} {e : KeyEvent}
    {rest : List KeyEvent} (km : Keymap) (some : kb.outlet.injected = e :: rest) :
    kb.processInjected km = ((kb.withInjected rest).handle km e).processInjected km := by
  rw [processInjected]
  split
  · rename_i none
    cases none.symm.trans some
  · rename_i some'
    obtain ⟨rfl, rfl⟩ := List.cons.inj (some.symm.trans some')
    rfl

/-- Nothing is left in the queue, whatever extensions there are. -/
theorem injected_processInjected {χ : Type} [Hooks χ] (kb : Keyboard η χ) (km : Keymap) :
    (kb.processInjected km).outlet.injected = [] := by
  fun_induction processInjected kb km with
  | case1 kb none => exact none
  | case2 kb e rest some less ih => exact ih

/-- An event goes through the arbiter, and nothing is queued behind it. -/
theorem process_eq_handle {kb : Keyboard η NoHooks} (km : Keymap) (e : KeyEvent)
    (none : kb.outlet.injected = []) : kb.process km e = kb.handle km e := by
  apply processInjected_of_nil
  exact (Outlet.injected_emitAll kb.outlet _).trans none

theorem injected_process {kb : Keyboard η NoHooks} (km : Keymap) (e : KeyEvent)
    (none : kb.outlet.injected = []) : (kb.process km e).outlet.injected = [] := by
  rw [process_eq_handle km e none]
  exact (Outlet.injected_emitAll kb.outlet _).trans none

/-- A list of events goes through the arbiter, and what it emits is performed in order. -/
theorem foldl_process (kb : Keyboard η NoHooks) (km : Keymap) (es : List KeyEvent)
    (none : kb.outlet.injected = []) :
    es.foldl (fun kb e => kb.process km e) kb =
      ⟨(kb.arbiter.run km es).1, kb.outlet.emitAll (kb.arbiter.run km es).2⟩ := by
  induction es generalizing kb with
  | nil => rfl
  | cons e es ih =>
    rw [List.foldl_cons, ih (kb.process km e) (injected_process km e none),
      process_eq_handle km e none]
    show Keyboard.mk _ ((kb.outlet.emitAll _).emitAll _) = _
    rw [← Outlet.emitAll_append]
    rfl

end Keyboard

end TapHold
