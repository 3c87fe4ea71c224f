import TapHold.Proofs.Keyboard.Run

/-!
# What is held after a step

After a step a reporting host holds nothing but what was held before it and what the record that was
handed to the interpreter put down (`held_step`). A press puts down what the action of its key
holds; a release lifts it; and a change of the layers lifts everything that is no modifier.
-/

set_option autoImplicit false

namespace TapHold

variable {km : Keymap} {a b : Arbiter} {out : List Emission} {x : Item}
  {o : Outlet ReportHost NoHooks} {r : Record}

namespace Outlet

theorem has_perform (e : Effect) (down : (o.perform e).host.held.has x = true) :
    e.puts x = true ∨ (o.host.held.has x = true ∧ e.lifts x = false) := by
  cases e with
  | request r => exact Request.has_run r o.host down
  | hook c => exact Or.inr ⟨down, rfl⟩
  | unknown code => exact Or.inr ⟨down, rfl⟩

/-- After an overflow nothing is held. -/
theorem has_overflow (x : Item) : (o.emit .overflow).host.held.has x = false := by
  rcases o.host.held_perform .clearAll with asked | ⟨-, nothing, -⟩
  · exact (congrArg (Held.has · x) asked).trans (Held.has_nothing x)
  · exact (congrArg (Held.has · x) nothing).trans (Held.has_nothing x)

/-- After a reset nothing is held. -/
theorem has_reset (x : Item) : o.reset.host.held.has x = false := has_overflow x

end Outlet

namespace Arbiter

/-- Why an item is down after a step: it was down before, and the record that was handed to the
interpreter did not lift it, or it is one of those that the press of a key put down. -/
theorem held_step (emits : Emits km a out b) (down : (o.emitAll out).host.held.has x = true) :
    (out = [] ∧ b.interpreter = a.interpreter ∧ o.host.held.has x = true) ∨
      ∃ (r : Record) (synthetic : Bool),
        out = [.dispatched ⟨r, (a.outcome km r).record, (a.outcome km r).effect, synthetic⟩] ∧
        r.isTick = false ∧ b.interpreter = (a.outcome km r).interpreter ∧
        ((r.event.pressed = true ∧ ∃ action,
            a.interpreter.resolve km r.event.key = .ok action ∧
              action.holds a.interpreter.settings
                (decide (0 < (a.outcome km r).record.tap.count)) x = true) ∨
          (o.host.held.has x = true ∧ (r.event.pressed = false → ∀ action,
            a.interpreter.resolve km r.event.key = .ok action →
              action.holds a.interpreter.settings (decide (0 < r.tap.count)) x = false))) := by
  rcases emits with ⟨rfl, same⟩ | ⟨r, synthetic, real, -, rfl, same⟩
  · exact Or.inl ⟨rfl, same, down⟩
  refine Or.inr ⟨r, synthetic, rfl, real, same, ?_⟩
  rcases Outlet.has_perform (a.outcome km r).effect down with put | ⟨before, kept⟩
  · cases pressed : r.event.pressed with
    | true => exact Or.inl ⟨rfl, Interpreter.holds_of_puts_dispatch real pressed put⟩
    | false => cases (Interpreter.releases_dispatch real pressed x).1.symm.trans put
  · refine Or.inr ⟨before, fun up action found => ?_⟩
    rw [← Bool.not_eq_true]
    intro holds
    cases kept.symm.trans ((Interpreter.releases_dispatch real up x).2 action found holds)

/-- An item that is no modifier is up after a change of the layers. -/
theorem layers_of_held {r : Record} {synthetic : Bool} (real : r.isTick = false)
    (plain : x.isModifier = false) (down : (o.emitAll [.dispatched ⟨r, (a.outcome km r).record,
      (a.outcome km r).effect, synthetic⟩]).host.held.has x = true) :
    (a.outcome km r).interpreter.layers = a.interpreter.layers := by
  by_contra changed
  obtain ⟨notPut, lifted⟩ := Interpreter.lifts_dispatch_of_layers real changed plain
  rcases Outlet.has_perform (a.outcome km r).effect down with put | ⟨-, kept⟩
  · cases notPut.symm.trans put
  · cases kept.symm.trans lifted

end Arbiter

end TapHold
