import TapHold.Interpreter

/-!
# What carrying out a record leaves alone

The interpreter settles a record as it was given, except that the tap of a key with modifiers may be
overruled and settled with count zero (`record_dispatch`). Whether another press waits matters for
such a tap only (`dispatch_congr`). The settings and the default layer at the start stay as they are
(`fixed_dispatch`).
-/

set_option autoImplicit false

namespace TapHold

/-- Modifiers when held and a key when tapped: the one kind of action that may overrule a tap. -/
def Action.isModsTapKey : Action → Bool
  | .modsTap _ (.key _) => true
  | _ => false

namespace Interpreter

/-! ## The settled record -/

theorem isOverruled_of_up {r : Record} (up : r.event.pressed = false) (b : Bool) :
    isOverruled r b = false := by
  simp [isOverruled, up]

theorem isOverruled_of_count {r : Record} (zero : r.tap.count = 0) (b : Bool) :
    isOverruled r b = false := by
  simp [isOverruled, zero]

theorem record_modsTapKey (i : Interpreter) (mods : Mods) (code : Keycode) (r : Record) (b : Bool) :
    (i.modsTapKey mods code r b).record = if isOverruled r b then r.withCount 0 else r := by
  unfold modsTapKey
  by_cases overruled : isOverruled r b = true
  · rw [if_pos overruled, if_pos overruled]
    rfl
  · rw [if_neg overruled, if_neg overruled]
    split <;> rfl

theorem record_act (i : Interpreter) (action : Action) (r : Record) (b : Bool) :
    (i.act action r b).record =
      if action.isModsTapKey && isOverruled r b then r.withCount 0 else r := by
  cases action with
  | modsTap mods tap =>
    cases tap with
    | oneShot => rfl
    | key code =>
      rw [show (i.act (.modsTap mods (.key code)) r b) = i.modsTapKey mods code r b from rfl,
        record_modsTapKey]
      rfl
  | mouse code =>
    show (if i.settings.mouseKeys then _ else _ : Outcome).record = r
    split <;> rfl
  | layer target n op =>
    cases target with
    | keymap => rfl
    | overlay =>
      show (if i.settings.overlays then _ else _ : Outcome).record = r
      split <;> rfl
  | _ => rfl

/-- Whether a key is bound to modifiers when held and a key when tapped. -/
def isModsTapKeyAt (i : Interpreter) (km : Keymap) (key : Position) : Bool :=
  match i.resolve km key with
  | .ok action => action.isModsTapKey
  | .error _ => false

theorem record_dispatch (i : Interpreter) (km : Keymap) (r : Record) (b : Bool)
    (real : r.isTick = false) :
    (i.dispatch km r b).record =
      if i.isModsTapKeyAt km r.event.key && isOverruled r b then r.withCount 0 else r := by
  unfold dispatch isModsTapKeyAt
  rw [if_neg (by simp [real])]
  cases i.resolve km r.event.key with
  | error e => rfl
  | ok action => exact record_act i action r b

theorem event_dispatch (i : Interpreter) (km : Keymap) (r : Record) (b : Bool) :
    (i.dispatch km r b).record.event = r.event := by
  cases tick : r.isTick with
  | true => simp [dispatch, tick]
  | false =>
    rw [record_dispatch i km r b tick]
    split <;> rfl

/-! ## Other presses -/

theorem act_congr (i : Interpreter) (action : Action) {r : Record} {b b' : Bool}
    (h : isOverruled r b = isOverruled r b') : i.act action r b = i.act action r b' := by
  cases action with
  | modsTap mods tap =>
    cases tap with
    | oneShot => rfl
    | key code =>
      show i.modsTapKey mods code r b = i.modsTapKey mods code r b'
      simp only [modsTapKey, h]
  | layer target n op => cases target <;> rfl
  | _ => rfl

theorem dispatch_congr (i : Interpreter) (km : Keymap) {r : Record} {b b' : Bool}
    (h : isOverruled r b = isOverruled r b') : i.dispatch km r b = i.dispatch km r b' := by
  unfold dispatch
  split
  · rfl
  · cases i.resolve km r.event.key with
    | error e => rfl
    | ok action => exact act_congr i action h

/-! ## What stays fixed -/

/-- What no record changes: the settings, and the default layer at the start. -/
def fixed (i : Interpreter) : Settings × LayerNumber := (i.settings, i.startLayer)

theorem fixed_register (i : Interpreter) (code : Keycode) :
    (i.register code).interpreter.fixed = i.fixed := by
  unfold register
  repeat' split
  all_goals rfl

theorem interpreter_unregister (i : Interpreter) (code : Keycode) :
    (i.unregister code).interpreter = i := by
  unfold unregister
  repeat' split
  all_goals rfl

theorem fixed_strike (i : Interpreter) (code : Keycode) (pressed : Bool) :
    (i.strike code pressed).interpreter.fixed = i.fixed := by
  cases pressed with
  | true => exact fixed_register i code
  | false => exact congrArg fixed (interpreter_unregister i code)

theorem fixed_strikeUnder (i : Interpreter) (mods : Mods) (code : Keycode) (pressed : Bool) :
    (i.strikeUnder mods code pressed).interpreter.fixed = i.fixed := by
  unfold strikeUnder
  repeat' split
  · rfl
  · exact fixed_register i code
  · exact congrArg fixed (interpreter_unregister i code)

theorem fixed_oneShotKey (i : Interpreter) (mods : Mods) (r : Record) :
    (i.oneShotKey mods r).interpreter.fixed = i.fixed := by
  unfold oneShotKey
  dsimp only
  repeat' split
  all_goals rfl

theorem fixed_layerKey (i : Interpreter) (target : LayerTarget) (n : LayerNumber)
    (op : LayerOp) (r : Record) : (i.layerKey target n op r).interpreter.fixed = i.fixed := by
  unfold layerKey
  split
  · split
    · exact fixed_strike i _ _
    · rfl
  · rfl

theorem fixed_act (i : Interpreter) (action : Action) (r : Record) (b : Bool) :
    (i.act action r b).interpreter.fixed = i.fixed := by
  cases action with
  | key code => exact fixed_strike i code _
  | keyWithMods mods code => exact fixed_strikeUnder i mods code _
  | modsTap mods tap =>
    cases tap with
    | oneShot => exact fixed_oneShotKey i mods r
    | key code =>
      show (i.modsTapKey mods code r b).interpreter.fixed = i.fixed
      unfold modsTapKey
      repeat' split
      · rfl
      · rfl
      · exact fixed_strike i code _
  | mouse code =>
    show (if i.settings.mouseKeys then _ else _ : Outcome).interpreter.fixed = i.fixed
    split <;> rfl
  | layer target n op =>
    cases target with
    | keymap => exact fixed_layerKey i .keymap n op r
    | overlay =>
      show (if i.settings.overlays then _ else _ : Outcome).interpreter.fixed = i.fixed
      split
      · exact fixed_layerKey i .overlay n op r
      · rfl
  | _ => rfl

theorem fixed_dispatch (i : Interpreter) (km : Keymap) (r : Record) (b : Bool) :
    (i.dispatch km r b).interpreter.fixed = i.fixed := by
  unfold dispatch
  split
  · rfl
  · cases i.resolve km r.event.key with
    | error e => rfl
    | ok action => exact fixed_act i action r b

theorem settings_dispatch (i : Interpreter) (km : Keymap) (r : Record) (b : Bool) :
    (i.dispatch km r b).interpreter.settings = i.settings :=
  congrArg Prod.fst (fixed_dispatch i km r b)

end Interpreter

end TapHold
