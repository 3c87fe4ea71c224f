import TapHold.Proofs.Host.Requests
import TapHold.Proofs.Interpreter.Holds

/-!
# Codes that an interpreter presses

An interpreter is told to carry out records, to press and release codes, to change its layers and to
start again (`Operation`). Whatever it is told, at most one code is pressed (`keystroke?`), by
itself or under modifiers of the key's own. What comes of the operation then is what comes of
pressing that code, between those modifiers (`operate_of_keystroke`); otherwise no ordinary key is
pressed (`presses_operate`).

Pressing an ordinary key under armed one-shot modifiers spends them (`ready_of_spends`), and nothing
but the press of a one-shot key with a tap count of one makes them ready again (`ready_operate`). So
wherever they become ready there is such a press (`exists_arming`).
-/

set_option autoImplicit false

namespace TapHold

/-! ## Keystrokes -/

/-- A code that is pressed, under modifiers of the key's own or by itself. -/
structure Keystroke where
  own : Option Byte
  code : Keycode
  deriving DecidableEq

namespace Keystroke

/-- A request between the modifiers of the keystroke. -/
def around (k : Keystroke) (q : Request) : Request :=
  match k.own with
  | none => q
  | some mods => .under mods q

/-- The modifier byte under which the code is pressed, where it is `bits` before. -/
def bits (k : Keystroke) (bits : Byte) : Byte := bits ||| k.own.getD 0

/-- What is heard before the code is pressed. -/
def front (k : Keystroke) (bits : Byte) : List (Byte × HostCall) :=
  k.own.toList.map fun mods => (bits, .addModifiers mods)

/-- What is heard after the code was pressed. -/
def back (k : Keystroke) (bits : Byte) : List (Byte × HostCall) :=
  k.own.toList.map fun mods => (bits ||| mods, .setModifiers bits)

end Keystroke

/-- Whether an ordinary key is pressed. -/
def Request.presses : Request → Bool
  | .nothing => false
  | .call (.register _) => true
  | .call _ => false
  | .under _ q => q.presses

/-- The code that an action presses at a record, if it presses one. -/
def Settings.keystroke? (settings : Settings) (action : Action) (r : Record)
    (otherPress : Bool) : Option Keystroke :=
  if !r.event.pressed then none
  else
    match action with
    | .key code => some ⟨none, code⟩
    | .keyWithMods mods code => if code = Keycode.nothing then none else some ⟨some mods.byte, code⟩
    | .modsTap _ (.key code) =>
      if 0 < r.tap.count ∧ Interpreter.isOverruled r otherPress = false then some ⟨none, code⟩
      else none
    | .layer target _ (.tapKey code) =>
      if 0 < r.tap.count ∧ settings.uses target = true then some ⟨none, code⟩ else none
    | _ => none

/-- What an interpreter can be told to do. -/
inductive Operation where
  | dispatch (km : Keymap) (r : Record) (otherPress : Bool)
  | register (code : Keycode)
  | unregister (code : Keycode)
  | reset
  | layers (l : Layers)

namespace Interpreter

/-- What comes of an operation. -/
def operate (i : Interpreter) : Operation → Response
  | .dispatch km r b =>
    ⟨(i.dispatch km r b).interpreter, (i.dispatch km r b).effect.asked⟩
  | .register code => i.register code
  | .unregister code => i.unregister code
  | .reset => ⟨i.reset, .nothing⟩
  | .layers l => ⟨i.withLayers l, .nothing⟩

/-- The code that an operation presses, if it presses one. -/
def keystroke? (i : Interpreter) : Operation → Option Keystroke
  | .dispatch km r b =>
    if r.isTick then none
    else
      match i.resolve km r.event.key with
      | .ok action => i.settings.keystroke? action r b
      | .error _ => none
  | .register code => some ⟨none, code⟩
  | _ => none

/-- The operation carries out the press of a one-shot key with a tap count of one. -/
def Arms (i : Interpreter) (x : Operation) : Prop :=
  ∃ km r b mods, x = .dispatch km r b ∧ r.isTick = false ∧
    i.resolve km r.event.key = .ok (.modsTap mods .oneShot) ∧ r.event.pressed = true ∧
      r.tap.count = 1

/-- The operation presses an ordinary key to which one-shot modifiers apply. -/
def Spends (i : Interpreter) (x : Operation) : Prop :=
  ∃ k, i.keystroke? x = some k ∧ k.code.isKey = true ∧ i.oneShot.isArmed = true

variable {i : Interpreter} {action : Action} {r : Record} {b : Bool} {k : Keystroke}
  {x : Operation}

/-! ## Actions that press a code -/

theorem layerKey_of_tapped (i : Interpreter) (target : LayerTarget) (n : LayerNumber)
    (code : Keycode) (counted : 0 < r.tap.count) :
    i.layerKey target n (.tapKey code) r = i.strike code r.event.pressed := by
  rcases layerKey_cases i target n (.tapKey code) r with
    ⟨c, change, -⟩ | ⟨_, same, -, told⟩ | ⟨other, -⟩
  · simp [LayerOp.change?, counted] at change
  · cases same
    exact told
  · exact absurd rfl (other code)

/-- What an action that presses a code does is to press that code. -/
theorem act_of_keystroke (h : i.settings.keystroke? action r b = some k) :
    (i.act action r b).interpreter = (i.register k.code).interpreter ∧
      (i.act action r b).effect.asked = k.around (i.register k.code).request := by
  unfold Settings.keystroke? at h
  split at h
  · cases h
  rename_i notUp
  have down : r.event.pressed = true := by simpa using notUp
  -- four kinds of actions press a code, two of them only when tapped
  cases action with
  | key code =>
    cases h
    simp only [act, strike, down, if_true]
    exact ⟨rfl, rfl⟩
  | keyWithMods mods code =>
    dsimp only at h
    split at h
    · cases h
    rename_i some
    cases h
    simp only [act, strikeUnder, if_neg some, down, if_true]
    exact ⟨rfl, rfl⟩
  | modsTap mods tap =>
    cases tap with
    | oneShot => cases h
    | key code =>
      dsimp only at h
      split at h
      · rename_i tapped
        cases h
        simp only [act, modsTapKey, tapped.2, Bool.false_eq_true, if_false,
          if_neg (Nat.ne_of_gt tapped.1), strike, down, if_true]
        exact ⟨rfl, rfl⟩
      · cases h
  | layer target n op =>
    cases op with
    | tapKey code =>
      dsimp only at h
      split at h
      · rename_i tapped
        cases h
        rcases act_layer i target n (.tapKey code) r b with ⟨-, told⟩ | ⟨unused, -⟩
        · rw [told, layerKey_of_tapped i target n code tapped.1, strike, if_pos down]
          exact ⟨rfl, rfl⟩
        · cases tapped.2.symm.trans unused
      · cases h
    | _ => cases h
  | _ => cases h

/-- What comes of an operation that presses a code is what comes of pressing that code. -/
theorem operate_of_keystroke (h : i.keystroke? x = some k) :
    i.operate x =
      ⟨(i.register k.code).interpreter, k.around (i.register k.code).request⟩ := by
  cases x with
  | dispatch km r b =>
    simp only [keystroke?] at h
    split at h
    · cases h
    rename_i notTick
    have real : r.isTick = false := by simpa using notTick
    cases found : i.resolve km r.event.key with
    | error e => simp [found] at h
    | ok action =>
      rw [found] at h
      obtain ⟨same, asked⟩ := act_of_keystroke h
      rw [operate, dispatch_of_ok real found, same, asked]
  | register code =>
    cases h
    rfl
  | unregister | reset | layers => cases h

/-! ## Actions that press no code -/

theorem presses_unregister (i : Interpreter) (code : Keycode) :
    (i.unregister code).request.presses = false := by
  unfold unregister
  repeat' split
  all_goals rfl

theorem presses_shift (i : Interpreter) (bits : Byte) (pressed : Bool) :
    (i.shift bits pressed).request.presses = false := by
  cases pressed <;> rfl

theorem presses_oneShotKey (i : Interpreter) (mods : Mods) (r : Record) :
    (i.oneShotKey mods r).request.presses = false := by
  unfold oneShotKey
  dsimp only
  repeat' split
  all_goals first | rfl | exact presses_shift _ _ _

theorem presses_changeLayers (i : Interpreter) (target : LayerTarget) (c : LayerChange) :
    (i.changeLayers target c).request.presses = false := by
  rcases i.changeLayers_cases target c with ⟨-, told⟩ | ⟨-, told⟩
  · rw [told]
    rfl
  · rw [told]
    rfl

/-- An action presses an ordinary key only where it presses a code. -/
theorem presses_act (h : i.settings.keystroke? action r b = none) :
    (i.act action r b).effect.asked.presses = false := by
  unfold Settings.keystroke? at h
  cases action with
  | none | transparent | usage | hook => rfl
  | key code =>
    split at h
    · rename_i up
      rw [Bool.not_eq_true'] at up
      simp only [act, strike, up, Bool.false_eq_true, if_false]
      exact presses_unregister i code
    · cases h
  | keyWithMods mods code =>
    show (i.strikeUnder mods code r.event.pressed).request.presses = false
    unfold strikeUnder
    split
    · exact presses_shift i _ _
    rename_i some
    split
    · rename_i down
      simp [down, some] at h
    · exact presses_unregister i code
  | modsTap mods tap =>
    cases tap with
    | oneShot => exact presses_oneShotKey i mods r
    | key code =>
      show (i.modsTapKey mods code r b).effect.asked.presses = false
      unfold modsTapKey
      split
      · exact presses_shift i _ true
      rename_i notOverruled
      split
      · exact presses_shift i _ _
      rename_i counted
      cases down : r.event.pressed with
      | true =>
        rw [Bool.not_eq_true] at notOverruled
        simp [down, notOverruled, Nat.pos_of_ne_zero counted] at h
      | false => exact presses_unregister i code
  | mouse code =>
    simp only [act]
    split
    · cases r.event.pressed <;> rfl
    · rfl
  | layer target n op =>
    rcases act_layer i target n op r b with ⟨used, told⟩ | ⟨-, told⟩
    · rw [told]
      show (i.layerKey target n op r).request.presses = false
      rcases layerKey_cases i target n op r with
        ⟨c, -, same⟩ | ⟨code, rfl, counted, same⟩ | ⟨-, same⟩
      · rw [same]
        exact presses_changeLayers i target c
      · rw [same]
        cases down : r.event.pressed with
        | true => simp [down, counted, used] at h
        | false => exact presses_unregister i code
      · rw [same]
        rfl
    · rw [told]
      rfl

/-- An operation presses an ordinary key only where it presses a code. -/
theorem presses_operate (h : i.keystroke? x = none) : (i.operate x).request.presses = false := by
  cases x with
  | dispatch km r b =>
    cases tick : r.isTick with
    | true =>
      simp only [operate, Interpreter.dispatch, tick, if_true]
      rfl
    | false =>
      cases found : i.resolve km r.event.key with
      | error e =>
        rw [operate, dispatch_of_error tick found]
        rfl
      | ok action =>
        simp only [keystroke?, tick, Bool.false_eq_true, if_false, found] at h
        rw [operate, dispatch_of_ok tick found]
        exact presses_act h
  | register code => cases h
  | unregister code => exact presses_unregister i code
  | reset | layers => rfl

/-! ## What makes one-shot modifiers ready -/

theorem ready_register {code : Keycode}
    (ready : (i.register code).interpreter.oneShot.ready = true) : i.oneShot.ready = true := by
  unfold register at ready
  repeat' split at ready
  · cases ready
  all_goals exact ready

theorem ready_unregister {code : Keycode}
    (ready : (i.unregister code).interpreter.oneShot.ready = true) : i.oneShot.ready = true := by
  rw [interpreter_unregister] at ready
  exact ready

theorem ready_strike {code : Keycode} {pressed : Bool}
    (ready : (i.strike code pressed).interpreter.oneShot.ready = true) :
    i.oneShot.ready = true := by
  cases pressed with
  | true => exact ready_register ready
  | false => exact ready_unregister ready

theorem ready_oneShotKey {mods : Mods} (on : i.settings.oneShot = true)
    (ready : (i.oneShotKey mods r).interpreter.oneShot.ready = true) :
    i.oneShot.ready = true ∨ (r.event.pressed = true ∧ r.tap.count = 1) := by
  unfold oneShotKey at ready
  simp only [on, Bool.not_true, Bool.false_eq_true, if_false] at ready
  split at ready
  · rename_i down
    split at ready
    · exact Or.inl ready
    split at ready
    · rename_i one
      exact Or.inr ⟨down, one⟩
    split at ready
    · exact Or.inl ready
    · cases ready
  · split at ready
    · cases ready
    · exact Or.inl ready

/-- Only a one-shot key that is tapped once makes one-shot modifiers ready. -/
theorem ready_act (on : i.settings.oneShot = true)
    (ready : (i.act action r b).interpreter.oneShot.ready = true) :
    i.oneShot.ready = true ∨
      ((∃ mods, action = .modsTap mods .oneShot) ∧ r.event.pressed = true ∧ r.tap.count = 1) := by
  cases action with
  | none | transparent | usage | hook => exact Or.inl ready
  | key code => exact Or.inl (ready_strike ready)
  | keyWithMods mods code =>
    replace ready : (i.strikeUnder mods code r.event.pressed).interpreter.oneShot.ready = true :=
      ready
    unfold strikeUnder at ready
    split at ready
    · exact Or.inl ready
    split at ready
    · exact Or.inl (ready_register ready)
    · exact Or.inl (ready_unregister ready)
  | modsTap mods tap =>
    cases tap with
    | oneShot => exact (ready_oneShotKey on ready).imp_right fun tapped => ⟨⟨mods, rfl⟩, tapped⟩
    | key code =>
      replace ready : (i.modsTapKey mods code r b).interpreter.oneShot.ready = true := ready
      unfold modsTapKey at ready
      split at ready
      · exact Or.inl ready
      split at ready
      · exact Or.inl ready
      · exact Or.inl (ready_strike ready)
  | mouse code =>
    simp only [act] at ready
    split at ready <;> exact Or.inl ready
  | layer target n op =>
    rcases act_layer i target n op r b with ⟨-, told⟩ | ⟨-, told⟩
    · rw [told] at ready
      replace ready : (i.layerKey target n op r).interpreter.oneShot.ready = true := ready
      rcases layerKey_cases i target n op r with ⟨c, -, same⟩ | ⟨code, -, -, same⟩ | ⟨-, same⟩
      · rw [same] at ready
        exact Or.inl ready
      · rw [same] at ready
        exact Or.inl (ready_strike ready)
      · rw [same] at ready
        exact Or.inl ready
    · rw [told] at ready
      exact Or.inl ready

/-- Only an operation that arms one-shot modifiers makes them ready. -/
theorem ready_operate (on : i.settings.oneShot = true)
    (ready : (i.operate x).interpreter.oneShot.ready = true) :
    i.oneShot.ready = true ∨ i.Arms x := by
  cases x with
  | dispatch km r b =>
    replace ready : (i.dispatch km r b).interpreter.oneShot.ready = true := ready
    cases tick : r.isTick with
    | true =>
      simp only [Interpreter.dispatch, tick, if_true] at ready
      exact Or.inl ready
    | false =>
      cases found : i.resolve km r.event.key with
      | error e =>
        rw [dispatch_of_error tick found] at ready
        exact Or.inl ready
      | ok action =>
        rw [dispatch_of_ok tick found] at ready
        refine (ready_act on ready).imp_right ?_
        rintro ⟨⟨mods, rfl⟩, down, one⟩
        exact ⟨km, r, b, mods, rfl, tick, found, down, one⟩
  | register code => exact Or.inl (ready_register ready)
  | unregister code => exact Or.inl (ready_unregister ready)
  | reset => cases ready
  | layers l => exact Or.inl ready

theorem settings_operate (i : Interpreter) (x : Operation) :
    (i.operate x).interpreter.settings = i.settings := by
  cases x with
  | dispatch km r b => exact settings_dispatch i km r b
  | register code => exact congrArg Prod.fst (fixed_register i code)
  | unregister code => exact congrArg settings (interpreter_unregister i code)
  | reset | layers => rfl

/-- Modifiers that were given to a key are not ready any more. -/
theorem ready_of_spends (on : i.settings.oneShot = true) (spends : i.Spends x) :
    (i.operate x).interpreter.oneShot.ready = false := by
  obtain ⟨k, pressed, isKey, armed⟩ := spends
  have waiting : i.oneShotMods? = some i.oneShot.mods := by
    rw [oneShotMods?, if_pos on, OneShot.waiting?, if_pos armed]
  rw [operate_of_keystroke pressed]
  simp only [register, isKey, if_true, waiting]
  rfl

/-! ## Operations in a row -/

/-- The interpreter after some operations. -/
def after (i : Interpreter) (xs : List Operation) : Interpreter :=
  xs.foldl (fun i x => (i.operate x).interpreter) i

theorem after_append (i : Interpreter) (xs ys : List Operation) :
    i.after (xs ++ ys) = (i.after xs).after ys := List.foldl_append

theorem settings_after (i : Interpreter) (xs : List Operation) :
    (i.after xs).settings = i.settings := by
  induction xs generalizing i with
  | nil => rfl
  | cons x xs ih => exact (ih _).trans (settings_operate i x)

/-- Where one-shot modifiers become ready, a one-shot key is tapped once. -/
theorem exists_arming {xs : List Operation} (on : i.settings.oneShot = true)
    (spent : i.oneShot.ready = false) (ready : (i.after xs).oneShot.ready = true) :
    ∃ pre z post, xs = pre ++ z :: post ∧ (i.after pre).Arms z := by
  -- by induction on the operations: either the first one makes them ready, or a later one does
  induction xs generalizing i with
  | nil => cases spent.symm.trans ready
  | cons x xs ih =>
    cases next : (i.operate x).interpreter.oneShot.ready with
    | true =>
      rcases ready_operate on next with before | arms
      · cases spent.symm.trans before
      · exact ⟨[], x, xs, rfl, arms⟩
    | false =>
      obtain ⟨pre, z, post, rfl, arms⟩ := ih ((settings_operate i x).symm ▸ on) next ready
      exact ⟨x :: pre, z, post, rfl, arms⟩

end Interpreter

end TapHold
