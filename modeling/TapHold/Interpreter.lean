import TapHold.Effect
import TapHold.Keymap.Basic
import TapHold.OneShot

/-!
# Carrying out actions

The interpreter owns the active layers and the one-shot modifiers. Handed the record of a key edge,
it looks up the action of the key, changes its own state, and says which one effect the action has
outside. It never looks at the host, so the same records have the same outcome whatever is held
down.
-/

set_option autoImplicit false

namespace TapHold

/-- The state that actions depend on. -/
structure Interpreter where
  settings : Settings
  /-- The default layer at the start and after a reset. -/
  startLayer : LayerNumber
  layers : Layers
  oneShot : OneShot
deriving DecidableEq

/-- The result of a change that asks something of the host. -/
structure Response where
  interpreter : Interpreter
  request : Request

/-- The result of carrying out an action: the state, the record as it was settled, the effect. -/
structure Outcome where
  interpreter : Interpreter
  record : Record
  effect : Effect

/-- The outcome for a record that is settled as it is. -/
def Response.outcome (x : Response) (r : Record) : Outcome := ⟨x.interpreter, r, .request x.request⟩

namespace Interpreter

/-- The state at the start. -/
def start (settings : Settings) (layer : LayerNumber) : Interpreter :=
  ⟨settings, layer, .start layer, .idle⟩

/-- The state at the start, with the settings as they are now. -/
def reset (i : Interpreter) : Interpreter := start i.settings i.startLayer

/-- The state with other settings. -/
def withSettings (i : Interpreter) (settings : Settings) : Interpreter := { i with settings }

/-- The state with other active layers. -/
def withLayers (i : Interpreter) (layers : Layers) : Interpreter := { i with layers }

/-- The action of a key. -/
def resolve (i : Interpreter) (km : Keymap) (key : Position) : Except UnknownCode Action :=
  km.resolve i.layers i.settings key

/-- Whether the action of a key depends on tap or hold. -/
def isTapHoldKey (i : Interpreter) (km : Keymap) (key : Position) : Bool :=
  !key.isNowhere &&
    match i.resolve km key with
    | .ok action => action.dependsOnTap
    | .error _ => false

/-- The one-shot modifiers for the next key, where the feature is on. -/
def oneShotMods? (i : Interpreter) : Option Byte :=
  if i.settings.oneShot then i.oneShot.waiting? else none

/-- Presses the key of a code. Armed one-shot modifiers apply to an ordinary key. -/
def register (i : Interpreter) (code : Keycode) : Response :=
  if code.isKey then
    match i.oneShotMods? with
    | some mods =>
      ⟨{ i with oneShot := i.oneShot.spend }, .under mods (.call (.register code))⟩
    | none => ⟨i, .call (.register code)⟩
  else if code.isModifier then ⟨i, .call (.addModifiers code.modifierBit)⟩
  else if code.isMouse && i.settings.mouseKeys then ⟨i, .call (.mouseOn code)⟩
  else ⟨i, .nothing⟩

/-- Releases the key of a code. -/
def unregister (i : Interpreter) (code : Keycode) : Response :=
  if code.isKey then ⟨i, .call (.unregister code)⟩
  else if code.isModifier then ⟨i, .call (.removeModifiers code.modifierBit)⟩
  else if code.isMouse && i.settings.mouseKeys then ⟨i, .call (.mouseOff code)⟩
  else ⟨i, .nothing⟩

/-- Presses or releases the key of a code. -/
def strike (i : Interpreter) (code : Keycode) (pressed : Bool) : Response :=
  if pressed then i.register code else i.unregister code

/-- Adds or removes modifiers. -/
def shift (i : Interpreter) (bits : Byte) (pressed : Bool) : Response :=
  ⟨i, .call (if pressed then .addModifiers bits else .removeModifiers bits)⟩

/-- Presses a key under modifiers that are down only while it goes down, or modifiers alone until
their release. -/
def strikeUnder (i : Interpreter) (mods : Mods) (code : Keycode) (pressed : Bool) : Response :=
  if code = Keycode.nothing then i.shift mods.byte pressed
  else if pressed then
    let pressing := i.register code
    { pressing with request := .under mods.byte pressing.request }
  else i.unregister code

/-- A one-shot key: held, it is a modifier; one tap arms it, a double tap disarms it and holds it,
and the toggle count turns the feature off and on. -/
def oneShotKey (i : Interpreter) (mods : Mods) (r : Record) : Response :=
  let pressed := r.event.pressed
  let count := r.tap.count
  if !i.settings.oneShot then i.shift mods.byte pressed
  else if pressed then
    if count = 0 then i.shift mods.byte true
    else if count = 1 then
      ⟨{ i with oneShot := i.oneShot.start mods.byte r.event.time }, .nothing⟩
    else if count = i.settings.toggle then ⟨{ i with oneShot := i.oneShot.toggle }, .nothing⟩
    else { i with oneShot := i.oneShot.cancel }.shift mods.byte true
  else if count = 0 then { i with oneShot := i.oneShot.cancel }.shift mods.byte false
  else i.shift mods.byte false

/-- Whether the press of a key with modifiers turns out to be a hold although it was tapped, because
another key has interrupted it. -/
def isOverruled (r : Record) (otherPress : Bool) : Bool :=
  r.event.pressed && decide (0 < r.tap.count) && (r.tap.interrupted || otherPress)

/-- A key with modifiers: a tap types the key, a hold is the modifiers. The record of an overruled
tap is settled with count zero. -/
def modsTapKey (i : Interpreter) (mods : Mods) (code : Keycode) (r : Record)
    (otherPress : Bool) : Outcome :=
  if isOverruled r otherPress then (i.shift mods.byte true).outcome (r.withCount 0)
  else if r.tap.count = 0 then (i.shift mods.byte r.event.pressed).outcome r
  else (i.strike code r.event.pressed).outcome r

/-- Goes on with other layers. Keys go up when the change has made a difference, because their
releases may be bound to something else now. -/
def settle (i : Interpreter) (changed : Layers × Bool) : Response :=
  ⟨i.withLayers changed.1, if changed.2 then .call .clearKeys else .nothing⟩

/-- A layer key. A tapped tap key strikes its key code instead of changing a layer. -/
def layerKey (i : Interpreter) (target : LayerTarget) (n : LayerNumber) (op : LayerOp)
    (r : Record) : Response :=
  let changed := op.operate i.layers target n r.event.pressed r.tap.count i.settings.toggle
  match op with
  | .tapKey code => if 0 < r.tap.count then i.strike code r.event.pressed else i.settle changed
  | _ => i.settle changed

/-- Carries out an action for a record. `otherPress` tells whether a press of another key waits to
be dispatched after it. -/
def act (i : Interpreter) (action : Action) (r : Record) (otherPress : Bool) : Outcome :=
  let pressed := r.event.pressed
  match action with
  | .none => ⟨i, r, .none⟩
  | .transparent => ⟨i, r, .none⟩
  | .key code => (i.strike code pressed).outcome r
  | .keyWithMods mods code => (i.strikeUnder mods code pressed).outcome r
  | .modsTap mods .oneShot => (i.oneShotKey mods r).outcome r
  | .modsTap mods (.key code) => i.modsTapKey mods code r otherPress
  | .usage page code =>
    ⟨i, r, .request (.call (.usage page (if pressed then code.setWidth 16 else 0)))⟩
  | .mouse code =>
    if i.settings.mouseKeys then
      ⟨i, r, .request (.call (if pressed then .mouseOn code else .mouseOff code))⟩
    else ⟨i, r, .none⟩
  | .layer .keymap n op => (i.layerKey .keymap n op r).outcome r
  | .layer .overlay n op =>
    if i.settings.overlays then (i.layerKey .overlay n op r).outcome r else ⟨i, r, .none⟩
  | .hook kind id options => ⟨i, r, .hook ⟨kind, id, options, r⟩⟩

/-- Looks up the action of a record's key and carries it out. Nothing happens at a tick. -/
def dispatch (i : Interpreter) (km : Keymap) (r : Record) (otherPress : Bool) : Outcome :=
  if r.isTick then ⟨i, r, .none⟩
  else
    match i.resolve km r.event.key with
    | .error e => ⟨i, r, .unknown e.code⟩
    | .ok action => i.act action r otherPress

/-- Whether the release of a record lets a modifier go, so that a tap typed before it would lose the
modifier. -/
def holdsModifier (i : Interpreter) (km : Keymap) (r : Record) : Bool :=
  match i.resolve km r.event.key with
  | .ok (.key code) => code.isModifier
  | .ok (.keyWithMods _ code) => code == Keycode.nothing || code.isModifier
  | .ok (.modsTap mods .oneShot) => !mods.isEmpty && r.tap.count == 0
  | .ok (.modsTap mods (.key code)) =>
    (!mods.isEmpty && r.tap.count == 0) || code.isModifier
  | _ => false

end Interpreter

end TapHold
