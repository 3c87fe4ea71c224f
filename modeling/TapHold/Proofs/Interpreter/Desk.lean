import TapHold.Desk
import TapHold.Proofs.Interpreter.OneShot

/-!
# Afterwards is as good as at once

A desk makes the calls of an action one by one, and reads the modifier byte of its host between two
of them. An interpreter never sees a host: it names one effect, which is performed when the action
is done. Function by function, the desk does what comes of performing that effect
(`Desk.dispatch_eq`). The byte goes nowhere but into the call that restores it, so the state, the
record and the effect are the same at every host.

A session makes the same of a record as a desk without extensions, and its host hears the same calls
in the same order (`Session.dispatch_desk`).
-/

set_option autoImplicit false

namespace TapHold

namespace Desk

variable {η χ : Type}

/-- What is given out is what the interpreter has for the next key, and then it is spent. -/
theorem takeOneShot_eq (d : Desk η χ) :
    d.takeOneShot = match d.interpreter.oneShotMods? with
      | some mods => (d.withOneShot d.interpreter.oneShot.spend, some mods)
      | none => (d, none) := by
  unfold takeOneShot Interpreter.oneShotMods? OneShot.take OneShot.waiting?
  cases d.interpreter.settings.oneShot with
  | false => rfl
  | true => cases d.interpreter.oneShot.isArmed <;> rfl

variable [Host η] [Extensions χ]

/-- Goes on with what an interpreter answers, and performs its request. -/
def respond (d : Desk η χ) (x : Response) : Desk η χ :=
  ⟨x.interpreter, d.outlet.perform (.request x.request)⟩

theorem register_eq (d : Desk η χ) (code : Keycode) :
    d.register code = d.respond (d.interpreter.register code) := by
  unfold register Interpreter.register
  split
  · rw [takeOneShot_eq]
    cases d.interpreter.oneShotMods? <;> rfl
  split
  · rfl
  · split <;> rfl

theorem unregister_eq (d : Desk η χ) (code : Keycode) :
    d.unregister code = d.respond (d.interpreter.unregister code) := by
  unfold unregister Interpreter.unregister
  repeat' split
  all_goals rfl

theorem strike_eq (d : Desk η χ) (code : Keycode) (pressed : Bool) :
    (if pressed then d.register code else d.unregister code) =
      d.respond (d.interpreter.strike code pressed) := by
  cases pressed with
  | true => exact d.register_eq code
  | false => exact d.unregister_eq code

theorem keyWithMods_eq (d : Desk η χ) (mods : Mods) (code : Keycode) (pressed : Bool) :
    d.keyWithMods mods code pressed = d.respond (d.interpreter.strikeUnder mods code pressed) := by
  by_cases none : code = Keycode.nothing
  · -- without a key the modifiers are all there is
    subst none
    cases pressed <;> rfl
  · cases pressed with
    | true =>
      simp only [keyWithMods, Interpreter.strikeUnder, none, register_eq, if_true, if_false,
        ne_eq, not_false_eq_true]
      rfl
    | false =>
      simp only [keyWithMods, Interpreter.strikeUnder, none, unregister_eq, Bool.false_eq_true,
        if_false]

theorem oneShotKey_eq (d : Desk η χ) (mods : Mods) (r : Record) :
    d.oneShotKey mods r = d.respond (d.interpreter.oneShotKey mods r) := by
  unfold oneShotKey Interpreter.oneShotKey
  dsimp only
  split
  · cases r.event.pressed <;> rfl
  split
  · repeat' split
    all_goals rfl
  · split <;> rfl

/-- Goes on with the outcome of an action, and performs its effect. -/
def finish (d : Desk η χ) (o : Outcome) : Desk η χ × Record :=
  (⟨o.interpreter, d.outlet.perform o.effect⟩, o.record)

theorem modsTapKey_eq (d : Desk η χ) (mods : Mods) (code : Keycode) (r : Record)
    (otherPress : Bool) :
    d.modsTapKey mods code r otherPress =
      d.finish (d.interpreter.modsTapKey mods code r otherPress) := by
  unfold modsTapKey Interpreter.modsTapKey
  by_cases counted : 0 < r.tap.count
  · have some : ¬r.tap.count = 0 := Nat.ne_of_gt counted
    cases pressed : r.event.pressed with
    | true =>
      cases other : r.tap.interrupted || otherPress with
      | true =>
        have overruled : Interpreter.isOverruled r otherPress = true := by
          simp [Interpreter.isOverruled, pressed, counted, other]
        rw [if_pos rfl, if_pos counted, if_pos rfl, if_pos overruled]
        rfl
      | false =>
        have tapped : ¬Interpreter.isOverruled r otherPress = true := by
          simp [Interpreter.isOverruled, other]
        rw [if_pos rfl, if_pos counted, if_neg Bool.false_ne_true, if_neg tapped, if_neg some,
          register_eq]
        rfl
    | false =>
      rw [Interpreter.isOverruled_of_up pressed, if_neg Bool.false_ne_true, if_pos counted,
        if_neg Bool.false_ne_true, if_neg some, unregister_eq]
      rfl
  · have zero : r.tap.count = 0 := Nat.eq_zero_of_not_pos counted
    rw [Interpreter.isOverruled_of_count zero, if_neg Bool.false_ne_true, if_pos zero, if_neg counted,
      if_neg counted]
    cases r.event.pressed <;> rfl

theorem settle_eq (d : Desk η χ) (changed : Layers × Bool) :
    d.settle changed = d.respond (d.interpreter.settle changed) := by
  unfold settle Interpreter.settle
  cases changed.2 <;> rfl

theorem layerKey_eq (d : Desk η χ) (target : LayerTarget) (n : LayerNumber) (op : LayerOp)
    (r : Record) :
    d.layerKey target n op r = d.respond (d.interpreter.layerKey target n op r) := by
  cases op with
  | tapKey code =>
    unfold layerKey Interpreter.layerKey
    dsimp only
    split
    · exact d.strike_eq code _
    · exact d.settle_eq _
  | _ => exact d.settle_eq _

theorem act_eq (d : Desk η χ) (action : Action) (r : Record) (otherPress : Bool) :
    d.act action r otherPress = d.finish (d.interpreter.act action r otherPress) := by
  cases action with
  | none | transparent | usage | hook => rfl
  | key code => exact congrArg (·, r) (d.strike_eq code _)
  | keyWithMods mods code => exact congrArg (·, r) (d.keyWithMods_eq mods code _)
  | modsTap mods tap =>
    cases tap with
    | oneShot => exact congrArg (·, r) (d.oneShotKey_eq mods r)
    | key code => exact d.modsTapKey_eq mods code r otherPress
  | mouse code =>
    unfold act Interpreter.act
    dsimp only
    split <;> rfl
  | layer target n op =>
    cases target with
    | keymap => exact congrArg (·, r) (d.layerKey_eq .keymap n op r)
    | overlay =>
      unfold act Interpreter.act
      dsimp only
      split
      · exact congrArg (·, r) (d.layerKey_eq .overlay n op r)
      · rfl

/-- **Afterwards is as good as at once.** A desk that makes every call when the action comes to it,
and reads the modifier byte from its host, does what comes of performing the effect that the
interpreter names, once it has named it. -/
theorem dispatch_eq (d : Desk η χ) (km : Keymap) (r : Record) (otherPress : Bool) :
    d.dispatch km r otherPress = d.finish (d.interpreter.dispatch km r otherPress) := by
  unfold dispatch Interpreter.dispatch
  split
  · rfl
  · cases d.interpreter.resolve km r.event.key with
    | error e => rfl
    | ok action => exact d.act_eq action r otherPress

end Desk

/-- Where there are no extensions, all of an effect is what it asks of the host. -/
theorem Outlet.perform_noHooks {η : Type} [Host η] (h : η) (e : Effect) :
    (⟨h, .none, []⟩ : Outlet η NoHooks).perform e = ⟨e.asked.run h, .none, []⟩ := by
  cases e with
  | request r => rfl
  | hook c => rfl
  | unknown code => rfl

namespace Session

variable {η : Type} [Host η]

/-- The desk of a session, without extensions and with a host that one listens to. -/
def desk (s : Session η) : Desk (Tapped η) NoHooks := ⟨s.interpreter, ⟨.start s.host, .none, []⟩⟩

/-- What a desk makes of a record is what the session makes of it, and its host hears the same. -/
theorem dispatch_desk (s : Session η) (km : Keymap) (r : Record) (b : Bool) :
    (s.desk.dispatch km r b).1 = ⟨(s.perform (.dispatch km r b)).interpreter,
      ⟨⟨(s.perform (.dispatch km r b)).host, s.heard (.dispatch km r b)⟩, .none, []⟩⟩ := by
  obtain ⟨_, _, _, same⟩ :=
    (s.interpreter.dispatch km r b).effect.asked.record_run (Tapped.start s.host)
  have host : ((s.interpreter.dispatch km r b).effect.asked.run (Tapped.start s.host)).host =
      (s.perform (.dispatch km r b)).host := same
  rw [Desk.dispatch_eq, ← host]
  exact congrArg (Desk.mk _) (Outlet.perform_noHooks (Tapped.start s.host) _)

end Session

end TapHold
