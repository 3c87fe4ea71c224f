import TapHold.Outlet

/-!
# An interpreter with its host at hand

A desk carries out actions call by call: every call of the host is made as soon as the action comes
to it, and the modifier byte that is restored after a key is read from the host at that moment. An
interpreter on its own says instead which one effect an action has, to be performed afterwards
(`Interpreter.act`). Both come to the same (`Desk.dispatch_eq`).
-/

set_option autoImplicit false

namespace TapHold

/-- An interpreter, and the outlet that its actions work on. -/
structure Desk (η χ : Type) where
  interpreter : Interpreter
  outlet : Outlet η χ

namespace Desk

variable {η χ : Type} [Host η] [Extensions χ]

/-- Calls the host. -/
def call (d : Desk η χ) (c : HostCall) : Desk η χ := { d with outlet := d.outlet.call c }

/-- The modifier byte of the host. -/
def modifiers (d : Desk η χ) : Byte := Host.modifiers d.outlet.host

/-- The desk with other one-shot modifiers. -/
def withOneShot (d : Desk η χ) (oneShot : OneShot) : Desk η χ :=
  { d with interpreter := { d.interpreter with oneShot } }

/-- Gives out the one-shot modifiers for the next key, where the feature is on. -/
def takeOneShot (d : Desk η χ) : Desk η χ × Option Byte :=
  if d.interpreter.settings.oneShot then
    let taken := d.interpreter.oneShot.take
    (d.withOneShot taken.1, taken.2)
  else (d, none)

/-- Presses the key of a code. Armed one-shot modifiers are added for this key, and the byte from
before is restored. -/
def register (d : Desk η χ) (code : Keycode) : Desk η χ :=
  if code.isKey then
    let taken := d.takeOneShot
    match taken.2 with
    | some mods =>
      let saved := taken.1.modifiers
      ((taken.1.call (.addModifiers mods)).call (.register code)).call (.setModifiers saved)
    | none => taken.1.call (.register code)
  else if code.isModifier then d.call (.addModifiers code.modifierBit)
  else if code.isMouse && d.interpreter.settings.mouseKeys then d.call (.mouseOn code)
  else d

/-- Releases the key of a code. -/
def unregister (d : Desk η χ) (code : Keycode) : Desk η χ :=
  if code.isKey then d.call (.unregister code)
  else if code.isModifier then d.call (.removeModifiers code.modifierBit)
  else if code.isMouse && d.interpreter.settings.mouseKeys then d.call (.mouseOff code)
  else d

/-- A key with modifiers that are added before it goes down. The byte from before is restored,
unless there is no key and the modifiers stay until the release. -/
def keyWithMods (d : Desk η χ) (mods : Mods) (code : Keycode) (pressed : Bool) : Desk η χ :=
  if pressed then
    let saved := d.modifiers
    let struck := (d.call (.addModifiers mods.byte)).register code
    if code ≠ Keycode.nothing then struck.call (.setModifiers saved) else struck
  else if code = Keycode.nothing then (d.call (.removeModifiers mods.byte)).unregister code
  else d.unregister code

/-- A one-shot key. -/
def oneShotKey (d : Desk η χ) (mods : Mods) (r : Record) : Desk η χ :=
  let count := r.tap.count
  let oneShot := d.interpreter.oneShot
  if !d.interpreter.settings.oneShot then
    if r.event.pressed then d.call (.addModifiers mods.byte)
    else d.call (.removeModifiers mods.byte)
  else if r.event.pressed then
    if count = 0 then d.call (.addModifiers mods.byte)
    else if count = 1 then d.withOneShot (oneShot.start mods.byte r.event.time)
    else if count = d.interpreter.settings.toggle then d.withOneShot oneShot.toggle
    else (d.withOneShot oneShot.cancel).call (.addModifiers mods.byte)
  else
    (if count = 0 then d.withOneShot oneShot.cancel else d).call (.removeModifiers mods.byte)

/-- A key with modifiers when held. The record of a tap that is interrupted, or behind which a press
of another key waits, is settled with count zero. -/
def modsTapKey (d : Desk η χ) (mods : Mods) (code : Keycode) (r : Record) (otherPress : Bool) :
    Desk η χ × Record :=
  if r.event.pressed then
    if 0 < r.tap.count then
      if r.tap.interrupted || otherPress then (d.call (.addModifiers mods.byte), r.withCount 0)
      else (d.register code, r)
    else (d.call (.addModifiers mods.byte), r)
  else if 0 < r.tap.count then (d.unregister code, r)
  else (d.call (.removeModifiers mods.byte), r)

/-- Goes on with other layers, and lets the keys go if the change has made a difference. -/
def settle (d : Desk η χ) (changed : Layers × Bool) : Desk η χ :=
  let next := { d with interpreter := d.interpreter.withLayers changed.1 }
  if changed.2 then next.call .clearKeys else next

/-- A layer key. A tapped tap key strikes its key code instead of changing a layer. -/
def layerKey (d : Desk η χ) (target : LayerTarget) (n : LayerNumber) (op : LayerOp) (r : Record) :
    Desk η χ :=
  let pressed := r.event.pressed
  let changed := op.operate d.interpreter.layers target n pressed r.tap.count
    d.interpreter.settings.toggle
  match op with
  | .tapKey code =>
    if 0 < r.tap.count then if pressed then d.register code else d.unregister code
    else d.settle changed
  | _ => d.settle changed

/-- Carries out an action for a record, and gives the record back as it was settled. -/
def act (d : Desk η χ) (action : Action) (r : Record) (otherPress : Bool) : Desk η χ × Record :=
  let pressed := r.event.pressed
  match action with
  | .none => (d, r)
  | .transparent => (d, r)
  | .key code => (if pressed then d.register code else d.unregister code, r)
  | .keyWithMods mods code => (d.keyWithMods mods code pressed, r)
  | .modsTap mods .oneShot => (d.oneShotKey mods r, r)
  | .modsTap mods (.key code) => d.modsTapKey mods code r otherPress
  | .usage page code => (d.call (.usage page (if pressed then code.setWidth 16 else 0)), r)
  | .mouse code =>
    if d.interpreter.settings.mouseKeys then
      (d.call (if pressed then .mouseOn code else .mouseOff code), r)
    else (d, r)
  | .layer .keymap n op => (d.layerKey .keymap n op r, r)
  | .layer .overlay n op =>
    if d.interpreter.settings.overlays then (d.layerKey .overlay n op r, r) else (d, r)
  | .hook kind id options =>
    let program := Extensions.answer d.outlet.hooks ⟨kind, id, options, r⟩
    ({ d with outlet := d.outlet.runProgram program }, r)

/-- Looks up the action of a record's key and carries it out. Nothing happens at a tick. -/
def dispatch (d : Desk η χ) (km : Keymap) (r : Record) (otherPress : Bool) : Desk η χ × Record :=
  if r.isTick then (d, r)
  else
    match d.interpreter.resolve km r.event.key with
    | .error e =>
      ({ d with outlet := { d.outlet with hooks := Extensions.unknown d.outlet.hooks e.code } }, r)
    | .ok action => d.act action r otherPress

end Desk

end TapHold
