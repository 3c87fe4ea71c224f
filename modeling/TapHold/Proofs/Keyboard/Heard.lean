import TapHold.Proofs.Host.Requests
import TapHold.Proofs.Keyboard.Reset

/-!
# What a host hears of an event

Without extensions, what the arbiter emits is a number of requests, which the host gets in order
(`Outlet.host_emitAll`). A steady host therefore hears the logs of these requests, one after
another, and is left with the modifier byte that they leave (`heard_of_steady`).
-/

set_option autoImplicit false

namespace TapHold

variable {η : Type} [Host η]

/-- What an emission asks of the host. -/
def Emission.asked : Emission → Request
  | .dispatched d => d.effect.asked
  | .overflow => .call .clearAll

namespace Outlet

theorem host_emit (o : Outlet η NoHooks) (x : Emission) : (o.emit x).host = x.asked.run o.host := by
  cases x with
  | overflow => rfl
  | dispatched d =>
    show (o.perform d.effect).host = d.effect.asked.run o.host
    cases d.effect <;> rfl

theorem host_emitAll (o : Outlet η NoHooks) (out : List Emission) :
    (o.emitAll out).host = (out.map Emission.asked).foldl (fun h q => q.run h) o.host := by
  induction out generalizing o with
  | nil => rfl
  | cons x out ih =>
    rw [List.map_cons, List.foldl_cons, ← host_emit]
    exact ih (o.emit x)

end Outlet

namespace Keyboard

variable {km : Keymap} {kb : Keyboard η NoHooks} {e : KeyEvent}

/-- **What a steady host hears of an event**, and the modifier byte that it has then. -/
theorem heard_of_steady {later : List (Call η)} (uninjected : kb.outlet.injected = [])
    (steady : kb.Steady km (.event e :: later)) :
    let asked := (kb.arbiter.handle km e).2.map Emission.asked
    kb.heard km (.event e) = Request.logAll asked (Host.modifiers kb.outlet.host) ∧
      Host.modifiers (kb.process km e).outlet.host =
        Request.bitsAfterAll asked (Host.modifiers kb.outlet.host) := by
  intro asked
  have heard : kb.heard km (.event e) =
      (asked.foldl (fun t q => q.run t) (Tapped.start kb.outlet.host)).log := by
    show (kb.tapped.process km e).outlet.host.log = _
    have handled : kb.tapped.process km e = kb.tapped.handle km e :=
      process_eq_handle km e uninjected
    rw [handled]
    exact congrArg Tapped.log (Outlet.host_emitAll kb.tapped.outlet _)
  obtain ⟨log, bits, -⟩ := steady
  rw [heard] at log
  have told := Request.log_runAll asked kb.outlet.host log
  refine ⟨heard.trans told, ?_⟩
  rw [← Request.bitsAfter_logAll, ← told, ← heard]
  exact bits

end Keyboard

end TapHold
