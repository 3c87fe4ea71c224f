import TapHold.Interpreter
import TapHold.Proofs.Event.Later

/-!
# Actions carried out at a later time

The one time that an interpreter keeps is that of the tap which armed the one-shot modifiers, and
nothing ever looks at it. So two interpreters that differ in nothing else (`Interpreter.Alike`)
carry out an action alike, and when one of them is given the record at a later time, then what it
gives back is the same at a later time (`later_dispatch`).
-/

set_option autoImplicit false

namespace TapHold

/-- Two choices are related if they are made by the same condition and their branches are related.
The conditions need not be the same expression, as long as one holds when the other does. -/
theorem related_ite {α β : Type} {R : α → β → Prop} {c d : Prop} [Decidable c] [Decidable d]
    {x x' : α} {y y' : β} (same : d ↔ c) (pos : c → R x y) (neg : ¬c → R x' y') :
    R (if c then x else x') (if d then y else y') := by
  by_cases hc : c
  · rw [if_pos hc, if_pos (same.mpr hc)]
    exact pos hc
  · rw [if_neg hc, if_neg fun hd => hc (same.mp hd)]
    exact neg hc

/-- The same call for a record `k` milliseconds later. -/
def HookCall.later (k : Word) (c : HookCall) : HookCall := { c with record := c.record.later k }

/-- The same effect, where an extension is called for a record `k` milliseconds later. -/
def Effect.later (k : Word) : Effect → Effect
  | .request r => .request r
  | .hook c => .hook (c.later k)
  | .unknown code => .unknown code

namespace Interpreter

/-- The state with another time of the tap that armed the one-shot modifiers. -/
def withOneShotTime (i : Interpreter) (time : Time) : Interpreter :=
  { i with oneShot := { i.oneShot with time } }

/-- The two states differ at most in the time of the tap that armed the one-shot modifiers. -/
def Alike (i j : Interpreter) : Prop := ∃ time, j = i.withOneShotTime time

variable {i j : Interpreter} (k : Word)

theorem Alike.refl (i : Interpreter) : i.Alike i := ⟨i.oneShot.time, rfl⟩

/-! ## What is read off -/

theorem Alike.settings (h : i.Alike j) : j.settings = i.settings := by
  obtain ⟨time, rfl⟩ := h
  rfl

theorem Alike.layers (h : i.Alike j) : j.layers = i.layers := by
  obtain ⟨time, rfl⟩ := h
  rfl

theorem Alike.reset (h : i.Alike j) : i.reset.Alike j.reset := by
  obtain ⟨time, rfl⟩ := h
  exact Alike.refl _

theorem Alike.withSettings (h : i.Alike j) (settings : Settings) :
    (i.withSettings settings).Alike (j.withSettings settings) := by
  obtain ⟨time, rfl⟩ := h
  exact ⟨time, rfl⟩

theorem Alike.withLayers (h : i.Alike j) (layers : Layers) :
    (i.withLayers layers).Alike (j.withLayers layers) := by
  obtain ⟨time, rfl⟩ := h
  exact ⟨time, rfl⟩

theorem Alike.oneShotMods? (h : i.Alike j) : j.oneShotMods? = i.oneShotMods? := by
  obtain ⟨time, rfl⟩ := h
  rfl

theorem Alike.resolve (h : i.Alike j) (km : Keymap) (key : Position) :
    j.resolve km key = i.resolve km key := by
  obtain ⟨time, rfl⟩ := h
  rfl

theorem Alike.isTapHoldKey (h : i.Alike j) (km : Keymap) (key : Position) :
    j.isTapHoldKey km key = i.isTapHoldKey km key := by
  simp only [Interpreter.isTapHoldKey, h.resolve]

theorem Alike.holdsModifier (h : i.Alike j) (km : Keymap) (r : Record) :
    j.holdsModifier km (r.later k) = i.holdsModifier km r := by
  simp only [Interpreter.holdsModifier, Record.event_later, KeyEvent.key_later, Record.tap_later,
    h.resolve]

end Interpreter

/-- The two responses ask the same of the host, and leave the interpreter alike. -/
structure Response.Alike (x y : Response) : Prop where
  interpreter : x.interpreter.Alike y.interpreter
  request : y.request = x.request

/-- The second outcome is the first one, `k` milliseconds later. -/
structure Outcome.Later (k : Word) (x y : Outcome) : Prop where
  interpreter : x.interpreter.Alike y.interpreter
  record : y.record = x.record.later k
  effect : y.effect = x.effect.later k

theorem Response.Alike.outcome {x y : Response} (k : Word) (h : x.Alike y) (r : Record) :
    (x.outcome r).Later k (y.outcome (r.later k)) :=
  ⟨h.interpreter, rfl, congrArg Effect.request h.request⟩

namespace Interpreter

variable {i j : Interpreter} (k : Word)

/-- A response that leaves the interpreter as it is. -/
theorem Alike.response (h : i.Alike j) (request : Request) :
    Response.Alike ⟨i, request⟩ ⟨j, request⟩ := ⟨h, rfl⟩

/-! ## What is carried out -/

theorem alike_shift (h : i.Alike j) (bits : Byte) (pressed : Bool) :
    (i.shift bits pressed).Alike (j.shift bits pressed) := h.response _

theorem alike_register (h : i.Alike j) (code : Keycode) :
    (i.register code).Alike (j.register code) := by
  simp only [register, h.oneShotMods?, h.settings]
  split
  · split
    · obtain ⟨time, rfl⟩ := h
      exact ⟨⟨time, rfl⟩, rfl⟩
    · exact h.response _
  · repeat' split
    all_goals exact h.response _

theorem alike_unregister (h : i.Alike j) (code : Keycode) :
    (i.unregister code).Alike (j.unregister code) := by
  simp only [unregister, h.settings]
  repeat' split
  all_goals exact h.response _

theorem alike_strike (h : i.Alike j) (code : Keycode) (pressed : Bool) :
    (i.strike code pressed).Alike (j.strike code pressed) := by
  unfold strike
  split
  · exact alike_register h code
  · exact alike_unregister h code

theorem alike_strikeUnder (h : i.Alike j) (mods : Mods) (code : Keycode) (pressed : Bool) :
    (i.strikeUnder mods code pressed).Alike (j.strikeUnder mods code pressed) := by
  unfold strikeUnder
  split
  · exact alike_shift h _ _
  split
  · have pressing := alike_register h code
    exact ⟨pressing.interpreter, congrArg (Request.under mods.byte) pressing.request⟩
  · exact alike_unregister h code

/-- The one place where a time is kept. -/
theorem alike_oneShotKey (h : i.Alike j) (mods : Mods) (r : Record) :
    (i.oneShotKey mods r).Alike (j.oneShotKey mods (r.later k)) := by
  obtain ⟨time, rfl⟩ := h
  have same : i.Alike (i.withOneShotTime time) := ⟨time, rfl⟩
  simp only [oneShotKey, same.settings, Record.event_later, KeyEvent.pressed_later,
    Record.tap_later]
  split
  · exact alike_shift same _ _
  split
  · split
    · exact alike_shift same _ _
    split
    -- the tap arms the modifiers, at its own time
    · exact ⟨⟨r.event.time.after k, rfl⟩, rfl⟩
    split
    · exact ⟨⟨time, rfl⟩, rfl⟩
    -- the modifiers are disarmed, and no time is kept any more
    · exact alike_shift (Alike.refl _) _ _
  split
  · exact alike_shift (Alike.refl _) _ _
  · exact alike_shift same _ _

theorem later_modsTapKey (h : i.Alike j) (mods : Mods) (code : Keycode) (r : Record)
    (otherPress : Bool) :
    (i.modsTapKey mods code r otherPress).Later k
      (j.modsTapKey mods code (r.later k) otherPress) := by
  refine related_ite Iff.rfl (fun _ => ?overruled) fun _ =>
    related_ite Iff.rfl (fun _ => ?held) fun _ => ?tapped
  case overruled => exact (alike_shift h _ _).outcome k (r.withCount 0)
  case held => exact (alike_shift h _ _).outcome k r
  case tapped => exact (alike_strike h _ _).outcome k r

theorem alike_settle (h : i.Alike j) (changed : Layers × Bool) :
    (i.settle changed).Alike (j.settle changed) := ⟨h.withLayers _, rfl⟩

theorem alike_layerKey (h : i.Alike j) (target : LayerTarget) (n : LayerNumber) (op : LayerOp)
    (r : Record) :
    (i.layerKey target n op r).Alike (j.layerKey target n op (r.later k)) := by
  simp only [layerKey, h.settings, h.layers, Record.event_later, KeyEvent.pressed_later,
    Record.tap_later]
  split
  · split
    · exact alike_strike h _ _
    · exact alike_settle h _
  · exact alike_settle h _

theorem later_act (h : i.Alike j) (action : Action) (r : Record) (otherPress : Bool) :
    (i.act action r otherPress).Later k (j.act action (r.later k) otherPress) := by
  have idle : (Outcome.mk i r .none).Later k ⟨j, r.later k, .none⟩ := ⟨h, rfl, rfl⟩
  cases action with
  | none => exact idle
  | transparent => exact idle
  | key code => exact (alike_strike h code _).outcome k r
  | keyWithMods mods code => exact (alike_strikeUnder h mods code _).outcome k r
  | modsTap mods tap =>
    cases tap with
    | oneShot => exact (alike_oneShotKey k h mods r).outcome k r
    | key code => exact later_modsTapKey k h mods code r otherPress
  | usage page code => exact ⟨h, rfl, rfl⟩
  | mouse code =>
    simp only [act, h.settings]
    split
    · exact ⟨h, rfl, rfl⟩
    · exact idle
  | layer target n op =>
    cases target with
    | keymap => exact (alike_layerKey k h .keymap n op r).outcome k r
    | overlay =>
      simp only [act, h.settings]
      split
      · exact (alike_layerKey k h .overlay n op r).outcome k r
      · exact idle
  | hook kind id options => exact ⟨h, rfl, rfl⟩

/-- A record handed over later comes back later, with the same effect. -/
theorem later_dispatch (h : i.Alike j) (km : Keymap) (r : Record) (otherPress : Bool) :
    (i.dispatch km r otherPress).Later k (j.dispatch km (r.later k) otherPress) := by
  simp only [dispatch, Record.isTick_later, Record.event_later, KeyEvent.key_later, h.resolve]
  split
  · exact ⟨h, rfl, rfl⟩
  split
  · exact ⟨h, rfl, rfl⟩
  · exact later_act k h _ r otherPress

end Interpreter

end TapHold
