import TapHold.Proofs.Host.Item
import TapHold.Proofs.Interpreter.Dispatch

/-!
# What a key puts down and lifts

`Action.holds` lists the items that a key with a given action can put down, as a tap or as a hold.
The press of the key puts down nothing else (`holds_of_puts_act`), and its release lifts all of them
(`releases_act`), as long as the same action applies to it and it is still the same of the
two. A key whose press changes the layers lifts every item that is no modifier
(`lifts_act_of_layers`), because other actions may apply to the releases that are yet to come.
-/

set_option autoImplicit false

namespace TapHold

/-- The modifiers of a modifier byte. -/
def Item.inByte (bits : Byte) : Item → Bool
  | .modifier bit => bits.getLsbD bit
  | _ => false

/-- The mouse key of a code. -/
def Item.isMouseKey (code : Keycode) : Item → Bool
  | .mouse bit => code.isMouse && code.mouseBit.getLsbD bit
  | _ => false

/-- The item of a key code. -/
def Keycode.holds (settings : Settings) (code : Keycode) (x : Item) : Bool :=
  if code.isKey then x = .key code
  else if code.isModifier then x.inByte code.modifierBit
  else settings.mouseKeys && x.isMouseKey code

/-- The item of a layer key that was tapped. -/
def LayerOp.holds (settings : Settings) : LayerOp → Bool → Item → Bool
  | .tapKey code, tapped, x => tapped && code.holds settings x
  | _, _, _ => false

/-- Whether layers of a family are used. -/
def Settings.uses (settings : Settings) : LayerTarget → Bool
  | .keymap => true
  | .overlay => settings.overlays

/-- The items that a key with this action can put down, as a tap or as a hold. -/
def Action.holds (settings : Settings) : Action → Bool → Item → Bool
  | .key code, _, x => code.holds settings x
  | .keyWithMods mods code, _, x =>
    if code = Keycode.nothing then x.inByte mods.byte else code.holds settings x
  | .modsTap mods .oneShot, _, x => x.inByte mods.byte
  | .modsTap mods (.key code), tapped, x =>
    if tapped then code.holds settings x else x.inByte mods.byte
  | .usage page _, _, x => x = .usage page
  | .mouse code, _, x => settings.mouseKeys && x.isMouseKey code
  | .layer target _ op, tapped, x => settings.uses target && op.holds settings tapped x
  | _, _, _ => false

/-- The items that an effect puts down. -/
def Effect.puts : Effect → Item → Bool
  | .request r, x => r.puts x
  | _, _ => false

/-- The items that an effect lifts. -/
def Effect.lifts : Effect → Item → Bool
  | .request r, x => r.lifts x
  | _, _ => false

/-- The request puts nothing down, and it lifts the items in `p`. -/
def Request.Releases (r : Request) (p : Item → Bool) : Prop :=
  ∀ x, r.puts x = false ∧ (p x = true → r.lifts x = true)

namespace Interpreter

variable {x : Item}

/-! ## Key codes -/

theorem holds_of_puts_register {i : Interpreter} {code : Keycode}
    (put : (i.register code).request.puts x = true) : code.holds i.settings x = true := by
  unfold register at put
  unfold Keycode.holds
  split at put
  · rename_i key
    rw [if_pos key]
    split at put
    · simp only [Request.puts, Bool.and_eq_true] at put
      exact put.2
    · exact put
  · rename_i notKey
    rw [if_neg notKey]
    split at put
    · rename_i modifier
      rw [if_pos modifier]
      cases x with
      | modifier bit => exact put
      | _ => cases put
    · rename_i notModifier
      rw [if_neg notModifier]
      split at put
      · rename_i mouse
        rw [Bool.and_eq_true] at mouse
        rw [mouse.2, Bool.true_and]
        cases x with
        | mouse bit => exact put
        | _ => cases put
      · cases put

theorem lifts_unregister (i : Interpreter) (code : Keycode) (x : Item) :
    (i.unregister code).request.lifts x = code.holds i.settings x := by
  unfold unregister Keycode.holds
  split
  · rfl
  split
  · cases x <;> rfl
  split
  · rename_i mouse
    rw [Bool.and_eq_true] at mouse
    rw [mouse.2, Bool.true_and]
    cases x <;> rfl
  · rename_i notMouse
    cases x with
    | mouse bit =>
      show false = (i.settings.mouseKeys && (code.isMouse && _))
      rw [← Bool.and_assoc, Bool.and_comm i.settings.mouseKeys, (Bool.not_eq_true _).mp notMouse,
        Bool.false_and]
    | _ => simp [Request.lifts, Item.isMouseKey]

theorem releases_unregister (i : Interpreter) (code : Keycode) :
    (i.unregister code).request.Releases (code.holds i.settings) := by
  intro x
  constructor
  · unfold unregister
    repeat' split
    all_goals cases x <;> rfl
  · intro holds
    exact (lifts_unregister i code x).trans holds

theorem layers_register (i : Interpreter) (code : Keycode) :
    (i.register code).interpreter.layers = i.layers := by
  unfold register
  repeat' split
  all_goals rfl

theorem layers_strike (i : Interpreter) (code : Keycode) (pressed : Bool) :
    (i.strike code pressed).interpreter.layers = i.layers := by
  cases pressed with
  | true => exact layers_register i code
  | false => exact congrArg layers (interpreter_unregister i code)

theorem layers_oneShotKey (i : Interpreter) (mods : Mods) (r : Record) :
    (i.oneShotKey mods r).interpreter.layers = i.layers := by
  unfold oneShotKey
  dsimp only
  repeat' split
  all_goals rfl

theorem layers_strikeUnder (i : Interpreter) (mods : Mods) (code : Keycode) (pressed : Bool) :
    (i.strikeUnder mods code pressed).interpreter.layers = i.layers := by
  unfold strikeUnder
  repeat' split
  · rfl
  · exact layers_register i code
  · exact congrArg layers (interpreter_unregister i code)

/-! ## Layer keys -/

/-- Changes the layers; the keys go up if that makes a difference. -/
def changeLayers (i : Interpreter) (target : LayerTarget) (c : LayerChange) : Response :=
  i.settle (i.layers.change target c)

/-- A layer key changes its layers, or it is tapped and strikes its key code, or nothing happens. -/
theorem layerKey_cases (i : Interpreter) (target : LayerTarget) (n : LayerNumber) (op : LayerOp)
    (r : Record) :
    (∃ c, op.change? n r.event.pressed r.tap.count i.settings.toggle = some c ∧
        i.layerKey target n op r = i.changeLayers target c) ∨
      (∃ code, op = .tapKey code ∧ 0 < r.tap.count ∧
        i.layerKey target n op r = i.strike code r.event.pressed) ∨
      ((∀ code, op ≠ .tapKey code) ∧ i.layerKey target n op r = ⟨i, .nothing⟩) := by
  have told := op.operate_eq i.layers target n r.event.pressed r.tap.count i.settings.toggle
  by_cases tapped : ∃ code, op = .tapKey code ∧ 0 < r.tap.count
  · obtain ⟨code, rfl, counted⟩ := tapped
    exact Or.inr (Or.inl ⟨code, rfl, counted, if_pos counted⟩)
  · -- what is no tap is left to the operation
    have settled : i.layerKey target n op r =
        i.settle (op.operate i.layers target n r.event.pressed r.tap.count i.settings.toggle) := by
      unfold layerKey
      split
      · exact if_neg fun counted => tapped ⟨_, rfl, counted⟩
      · rfl
    rw [settled, told]
    cases change : op.change? n r.event.pressed r.tap.count i.settings.toggle with
    | some c => exact Or.inl ⟨c, rfl, rfl⟩
    | none =>
      refine Or.inr (Or.inr ⟨?_, rfl⟩)
      rintro code rfl
      refine tapped ⟨code, rfl, Nat.pos_of_ne_zero fun zero => ?_⟩
      simp [LayerOp.change?, zero] at change

/-- A change that makes no difference lets nothing go, any other lets the keys go. -/
theorem changeLayers_cases (i : Interpreter) (target : LayerTarget) (c : LayerChange) :
    (i.layers.apply target c = i.layers ∧ i.changeLayers target c = ⟨i, .nothing⟩) ∨
      (i.layers.apply target c ≠ i.layers ∧ i.changeLayers target c =
        ⟨i.withLayers (i.layers.apply target c), .call .clearKeys⟩) := by
  -- the test of the change says whether the layers differ
  have told := i.layers.change_eq target c
  by_cases same : i.layers.apply target c = i.layers
  · refine Or.inl ⟨same, ?_⟩
    simp [changeLayers, settle, told, same, withLayers]
  · refine Or.inr ⟨same, ?_⟩
    simp [changeLayers, settle, told, same]

theorem layers_changeLayers (i : Interpreter) (target : LayerTarget) (c : LayerChange) :
    (i.changeLayers target c).interpreter.layers = i.layers.apply target c := by
  show (i.layers.change target c).1 = _
  rw [i.layers.change_eq target c]

theorem puts_changeLayers (i : Interpreter) (target : LayerTarget) (c : LayerChange) (x : Item) :
    (i.changeLayers target c).request.puts x = false := by
  rcases i.changeLayers_cases target c with ⟨-, told⟩ | ⟨-, told⟩
  · rw [told]
    rfl
  · rw [told]
    cases x <;> rfl

/-- The items that are no modifiers go up when the layers change. -/
theorem lifts_changeLayers (i : Interpreter) (target : LayerTarget) (c : LayerChange)
    (changed : (i.changeLayers target c).interpreter.layers ≠ i.layers)
    (plain : x.isModifier = false) : (i.changeLayers target c).request.lifts x = true := by
  rcases i.changeLayers_cases target c with ⟨-, told⟩ | ⟨-, told⟩
  · rw [told] at changed
    exact absurd rfl changed
  · rw [told]
    simp [Request.lifts, HostCall.lifts, plain]

/-! ## Actions -/

theorem puts_shift_down (i : Interpreter) (bits : Byte) (x : Item) :
    (i.shift bits true).request.puts x = x.inByte bits := by
  cases x <;> rfl

theorem releases_shift (i : Interpreter) (bits : Byte) :
    (i.shift bits false).request.Releases (Item.inByte bits) := by
  intro x
  cases x with
  | modifier bit => exact ⟨rfl, fun holds => holds⟩
  | _ => exact ⟨rfl, fun holds => by cases holds⟩

theorem inByte_of_puts_oneShotKey {i : Interpreter} {mods : Mods} {r : Record}
    (put : (i.oneShotKey mods r).request.puts x = true) : x.inByte mods.byte = true := by
  have down : ∀ j : Interpreter, (j.shift mods.byte true).request.puts x = true →
      x.inByte mods.byte = true := fun j h => (puts_shift_down j mods.byte x).symm.trans h
  have up : ∀ j : Interpreter, (j.shift mods.byte false).request.puts x ≠ true := by
    intro j h
    cases (releases_shift j mods.byte x).1.symm.trans h
  unfold oneShotKey at put
  dsimp only at put
  split at put
  · cases pressed : r.event.pressed with
    | true => exact down i (pressed ▸ put)
    | false => exact absurd (pressed ▸ put) (up i)
  split at put
  · split at put
    · exact down i put
    split at put
    · cases put
    split at put
    · cases put
    · exact down _ put
  split at put
  · exact absurd put (up _)
  · exact absurd put (up _)

theorem releases_oneShotKey (i : Interpreter) (mods : Mods) {r : Record}
    (up : r.event.pressed = false) :
    (i.oneShotKey mods r).request.Releases (Item.inByte mods.byte) := by
  unfold oneShotKey
  simp only [up, Bool.false_eq_true, if_false]
  repeat' split
  all_goals exact releases_shift _ mods.byte

theorem layers_modsTapKey (i : Interpreter) (mods : Mods) (code : Keycode) (r : Record) (b : Bool) :
    (i.modsTapKey mods code r b).interpreter.layers = i.layers := by
  unfold modsTapKey
  repeat' split
  · rfl
  · rfl
  · exact layers_strike i code _

theorem holds_of_puts_strike {i : Interpreter} {code : Keycode} {pressed : Bool}
    (put : (i.strike code pressed).request.puts x = true) : code.holds i.settings x = true := by
  cases pressed with
  | true => exact holds_of_puts_register put
  | false => cases (releases_unregister i code x).1.symm.trans put

theorem holds_of_puts_strikeUnder {i : Interpreter} {mods : Mods} {code : Keycode}
    (put : (i.strikeUnder mods code true).request.puts x = true) (tapped : Bool) :
    (Action.keyWithMods mods code).holds i.settings tapped x = true := by
  unfold strikeUnder at put
  rw [Action.holds]
  split at put
  · rename_i alone
    rw [if_pos alone]
    exact (puts_shift_down i mods.byte x).symm.trans put
  · rename_i key
    rw [if_neg key]
    have inner : (!x.isModifier && (i.register code).request.puts x) = true := put
    exact holds_of_puts_register (Bool.and_eq_true_iff.mp inner).2

/-- A layer key puts nothing down but the item of its key code, and only as a tap. -/
theorem holds_of_puts_layerKey {i : Interpreter} {target : LayerTarget} {n : LayerNumber}
    {op : LayerOp} {r : Record} (put : (i.layerKey target n op r).request.puts x = true) :
    op.holds i.settings (decide (0 < r.tap.count)) x = true := by
  rcases i.layerKey_cases target n op r with ⟨c, -, same⟩ | ⟨code, rfl, counted, same⟩ | ⟨-, same⟩
  · rw [same, puts_changeLayers] at put
    cases put
  · rw [same] at put
    rw [LayerOp.holds, decide_eq_true counted, Bool.true_and]
    exact holds_of_puts_strike put
  · rw [same] at put
    cases put

/-- A layer key does what `layerKey` says, or its family of layers is not used. -/
theorem act_layer (i : Interpreter) (target : LayerTarget) (n : LayerNumber) (op : LayerOp)
    (r : Record) (b : Bool) :
    (i.settings.uses target = true ∧
        i.act (.layer target n op) r b = (i.layerKey target n op r).outcome r) ∨
      (i.settings.uses target = false ∧ i.act (.layer target n op) r b = ⟨i, r, .none⟩) := by
  cases target with
  | keymap => exact Or.inl ⟨rfl, rfl⟩
  | overlay =>
    cases enabled : i.settings.overlays with
    | true => exact Or.inl ⟨enabled, by simp [act, enabled]⟩
    | false => exact Or.inr ⟨enabled, by simp [act, enabled]⟩

/-- The press of a key puts nothing down but what its action holds, as it was settled. -/
theorem holds_of_puts_act {i : Interpreter} {action : Action} {r : Record} {b : Bool}
    (pressed : r.event.pressed = true) (put : (i.act action r b).effect.puts x = true) :
    action.holds i.settings (decide (0 < (i.act action r b).record.tap.count)) x = true := by
  cases action with
  | none => cases put
  | transparent => cases put
  | hook kind id options => cases put
  | key code =>
    have struck : (i.strike code r.event.pressed).request.puts x = true := put
    exact holds_of_puts_strike struck
  | keyWithMods mods code =>
    have struck : (i.strikeUnder mods code r.event.pressed).request.puts x = true := put
    rw [pressed] at struck
    exact holds_of_puts_strikeUnder struck _
  | modsTap mods tap =>
    cases tap with
    | oneShot => exact inByte_of_puts_oneShotKey (i := i) (r := r) put
    | key code =>
      have taps : (i.modsTapKey mods code r b).effect.puts x = true := put
      show (if decide (0 < (i.modsTapKey mods code r b).record.tap.count) then
        code.holds i.settings x else x.inByte mods.byte) = true
      rw [record_modsTapKey]
      unfold modsTapKey at taps
      split at taps
      · rename_i overruled
        rw [if_pos overruled]
        exact (puts_shift_down i mods.byte x).symm.trans taps
      · rename_i notOver
        rw [if_neg notOver]
        split at taps
        · rename_i zero
          rw [pressed] at taps
          rw [zero]
          exact (puts_shift_down i mods.byte x).symm.trans taps
        · rename_i counted
          rw [decide_eq_true (Nat.pos_of_ne_zero counted), if_pos rfl]
          exact holds_of_puts_strike taps
  | usage page code =>
    have call :
        (HostCall.usage page (if r.event.pressed then code.setWidth 16 else 0)).puts x = true :=
      put
    simp only [HostCall.puts, Bool.and_eq_true] at call
    exact call.1
  | mouse code =>
    cases enabled : i.settings.mouseKeys with
    | true =>
      simp only [act, enabled, if_true, pressed] at put
      simp only [Action.holds, enabled, Bool.true_and]
      cases x with
      | mouse bit => exact put
      | _ => cases put
    | false =>
      simp [act, enabled, Effect.puts, Effect.none, Request.puts] at put
  | layer target n op =>
    rcases i.act_layer target n op r b with ⟨used, same⟩ | ⟨-, same⟩
    · rw [same] at put ⊢
      rw [Action.holds, used, Bool.true_and]
      exact holds_of_puts_layerKey put
    · rw [same] at put
      cases put

theorem releases_layerKey (i : Interpreter) (target : LayerTarget) (n : LayerNumber)
    (op : LayerOp) {r : Record} (up : r.event.pressed = false) :
    (i.layerKey target n op r).request.Releases
      (op.holds i.settings (decide (0 < r.tap.count))) := by
  intro x
  rcases i.layerKey_cases target n op r with
    ⟨c, change, same⟩ | ⟨code, rfl, -, same⟩ | ⟨other, same⟩
  · rw [same]
    refine ⟨puts_changeLayers i target c x, fun holds => ?_⟩
    -- a tapped key changes no layer
    cases op with
    | tapKey code =>
      rw [LayerOp.holds, Bool.and_eq_true, decide_eq_true_eq] at holds
      simp [LayerOp.change?, holds.1] at change
    | _ => cases holds
  · rw [same, up]
    refine ⟨(releases_unregister i code x).1, fun holds => ?_⟩
    exact (releases_unregister i code x).2 (Bool.and_eq_true_iff.mp holds).2
  · rw [same]
    refine ⟨rfl, fun holds => ?_⟩
    cases op with
    | tapKey code => exact absurd rfl (other code)
    | _ => cases holds

/-- The release of a key puts nothing down, and lifts what its action holds. -/
theorem releases_act (i : Interpreter) (action : Action) {r : Record} (b : Bool)
    (up : r.event.pressed = false) (x : Item) :
    (i.act action r b).effect.puts x = false ∧
      (action.holds i.settings (decide (0 < r.tap.count)) x = true →
        (i.act action r b).effect.lifts x = true) := by
  cases action with
  | none => exact ⟨rfl, fun h => by cases h⟩
  | transparent => exact ⟨rfl, fun h => by cases h⟩
  | hook kind id options => exact ⟨rfl, fun h => by cases h⟩
  | key code =>
    have released : (i.strike code r.event.pressed).request.Releases (code.holds i.settings) := by
      rw [up]
      exact releases_unregister i code
    exact released x
  | keyWithMods mods code =>
    have released : (i.strikeUnder mods code r.event.pressed).request.Releases
        ((Action.keyWithMods mods code).holds i.settings (decide (0 < r.tap.count))) := by
      rw [up]
      intro x
      rw [Action.holds]
      unfold strikeUnder
      split
      · exact releases_shift i mods.byte x
      · exact releases_unregister i code x
    exact released x
  | modsTap mods tap =>
    cases tap with
    | oneShot => exact releases_oneShotKey i mods up x
    | key code =>
      show (i.modsTapKey mods code r b).effect.puts x = false ∧
        (_ → (i.modsTapKey mods code r b).effect.lifts x = true)
      unfold modsTapKey
      rw [isOverruled_of_up up, if_neg Bool.false_ne_true, up, Action.holds]
      split
      · rename_i zero
        rw [zero]
        exact releases_shift i mods.byte x
      · rename_i counted
        rw [decide_eq_true (Nat.pos_of_ne_zero counted)]
        exact releases_unregister i code x
  | usage page code =>
    have call : (i.act (.usage page code) r b).effect = .request (.call (.usage page 0)) := by
      simp [act, up]
    rw [call]
    exact ⟨by simp [Effect.puts, Request.puts, HostCall.puts], fun h => h⟩
  | mouse code =>
    cases enabled : i.settings.mouseKeys with
    | true =>
      have call : (i.act (.mouse code) r b).effect = .request (.call (.mouseOff code)) := by
        simp [act, enabled, up]
      rw [call, Action.holds, enabled, Bool.true_and]
      cases x with
      | mouse bit => exact ⟨rfl, fun h => h⟩
      | _ => exact ⟨rfl, fun h => by cases h⟩
    | false =>
      have nothing : (i.act (.mouse code) r b).effect = .none := by simp [act, enabled]
      rw [nothing, Action.holds, enabled]
      exact ⟨rfl, fun h => by cases h⟩
  | layer target n op =>
    rcases i.act_layer target n op r b with ⟨used, same⟩ | ⟨unused, same⟩
    · rw [same, Action.holds, used, Bool.true_and]
      exact releases_layerKey i target n op up x
    · rw [same, Action.holds, unused, Bool.false_and]
      exact ⟨rfl, fun h => by cases h⟩

/-- An action that changes the layers lifts everything but modifiers, and puts nothing down. -/
theorem lifts_act_of_layers {i : Interpreter} {action : Action} {r : Record} {b : Bool}
    (changed : (i.act action r b).interpreter.layers ≠ i.layers) (plain : x.isModifier = false) :
    (i.act action r b).effect.puts x = false ∧ (i.act action r b).effect.lifts x = true := by
  cases action with
  | none => exact absurd rfl changed
  | transparent => exact absurd rfl changed
  | hook kind id options => exact absurd rfl changed
  | usage page code => exact absurd rfl changed
  | key code => exact absurd (layers_strike i code _) changed
  | keyWithMods mods code => exact absurd (layers_strikeUnder i mods code _) changed
  | modsTap mods tap =>
    cases tap with
    | oneShot => exact absurd (layers_oneShotKey i mods r) changed
    | key code => exact absurd (layers_modsTapKey i mods code r b) changed
  | mouse code =>
    refine absurd ?_ changed
    show (if i.settings.mouseKeys then _ else _ : Outcome).interpreter.layers = i.layers
    split <;> rfl
  | layer target n op =>
    rcases i.act_layer target n op r b with ⟨-, same⟩ | ⟨-, same⟩
    · rw [same] at changed ⊢
      rcases i.layerKey_cases target n op r with ⟨c, -, key⟩ | ⟨code, -, -, key⟩ | ⟨-, key⟩
      · rw [key] at changed ⊢
        exact ⟨puts_changeLayers i target c x, lifts_changeLayers i target c changed plain⟩
      · rw [key] at changed
        exact absurd (layers_strike i code _) changed
      · rw [key] at changed
        exact absurd rfl changed
    · rw [same] at changed
      exact absurd rfl changed

/-- A layer that stays as it was when it is turned on was on. -/
theorem isOn_of_apply_on {l : Layers} {target : LayerTarget} {n : LayerNumber}
    (same : l.apply target (.on n) = l) : l.isOn target n = true := by
  have mask : l.maskOf target ||| Layers.bit n = l.maskOf target := by
    rw [← Layers.maskOf_withMask l target (l.maskOf target ||| Layers.bit n)]
    exact congrArg (Layers.maskOf · target) same
  have set : (Layers.bit n).getLsbD n.toNat = true := by
    rw [Layers.getLsbD_bit, decide_eq_true rfl]
  rw [Layers.isOn, ← mask, BitVec.getLsbD_or, set, Bool.or_true]

/-- A layer that stays as it was when it is turned off was off. -/
theorem isOn_of_apply_off {l : Layers} {target : LayerTarget} {n : LayerNumber}
    (same : l.apply target (.off n) = l) : l.isOn target n = false := by
  have mask : l.maskOf target &&& ~~~Layers.bit n = l.maskOf target := by
    rw [← Layers.maskOf_withMask l target (l.maskOf target &&& ~~~Layers.bit n)]
    exact congrArg (Layers.maskOf · target) same
  have set : (Layers.bit n).getLsbD n.toNat = true := by
    rw [Layers.getLsbD_bit, decide_eq_true rfl]
  rw [Layers.isOn, ← mask, getLsbD_and_not, set, Bool.not_true, Bool.and_false]

/-- A held layer key that changes no layers finds its layer on at its press and off at its
release. -/
theorem isOn_of_hold {i : Interpreter} {target : LayerTarget} {n : LayerNumber} {code : Keycode}
    {r : Record} {b : Bool} (used : i.settings.uses target = true) (zero : r.tap.count = 0)
    (same : (i.act (.layer target n (.tapKey code)) r b).interpreter.layers = i.layers) :
    i.layers.isOn target n = r.event.pressed := by
  rcases i.act_layer target n (.tapKey code) r b with ⟨-, act⟩ | ⟨unused, -⟩
  · rw [act] at same
    have change : i.layerKey target n (.tapKey code) r =
        i.changeLayers target (if r.event.pressed then .on n else .off n) := by
      rcases i.layerKey_cases target n (.tapKey code) r with
        ⟨c, made, told⟩ | ⟨_, -, counted, -⟩ | ⟨other, -⟩
      · rw [told]
        simp only [LayerOp.change?, zero, Nat.lt_irrefl, if_false, Option.some.injEq] at made
        rw [made]
      · exact absurd zero (Nat.ne_of_gt counted)
      · exact absurd rfl (other code)
    have kept : i.layers.apply target (if r.event.pressed then .on n else .off n) = i.layers := by
      rw [← layers_changeLayers, ← change]
      exact same
    cases pressed : r.event.pressed with
    | true =>
      rw [pressed, if_pos rfl] at kept
      exact isOn_of_apply_on kept
    | false =>
      rw [pressed, if_neg Bool.false_ne_true] at kept
      exact isOn_of_apply_off kept
  · cases used.symm.trans unused

/-! ## Records -/

variable {i : Interpreter} {km : Keymap} {r : Record} {b : Bool}

theorem dispatch_of_ok {action : Action} (real : r.isTick = false)
    (found : i.resolve km r.event.key = .ok action) : i.dispatch km r b = i.act action r b := by
  unfold dispatch
  rw [if_neg (by simp [real]), found]

theorem dispatch_of_error {e : UnknownCode} (real : r.isTick = false)
    (found : i.resolve km r.event.key = .error e) :
    i.dispatch km r b = ⟨i, r, .unknown e.code⟩ := by
  unfold dispatch
  rw [if_neg (by simp [real]), found]

/-- A press puts nothing down but what the action of its key holds. -/
theorem holds_of_puts_dispatch (real : r.isTick = false) (pressed : r.event.pressed = true)
    (put : (i.dispatch km r b).effect.puts x = true) :
    ∃ action, i.resolve km r.event.key = .ok action ∧
      action.holds i.settings (decide (0 < (i.dispatch km r b).record.tap.count)) x = true := by
  cases found : i.resolve km r.event.key with
  | error e =>
    rw [dispatch_of_error real found] at put
    cases put
  | ok action =>
    rw [dispatch_of_ok real found] at put ⊢
    exact ⟨action, rfl, holds_of_puts_act pressed put⟩

/-- A release puts nothing down, and lifts what the action of its key holds. -/
theorem releases_dispatch (real : r.isTick = false) (up : r.event.pressed = false) (x : Item) :
    (i.dispatch km r b).effect.puts x = false ∧
      ∀ action, i.resolve km r.event.key = .ok action →
        action.holds i.settings (decide (0 < r.tap.count)) x = true →
          (i.dispatch km r b).effect.lifts x = true := by
  cases found : i.resolve km r.event.key with
  | error e =>
    rw [dispatch_of_error real found]
    exact ⟨rfl, fun _ h => by cases h⟩
  | ok action =>
    rw [dispatch_of_ok real found]
    have released := releases_act i action b up x
    refine ⟨released.1, ?_⟩
    intro other same
    obtain rfl := Except.ok.inj same
    exact released.2

/-- A change of the layers lifts everything that is no modifier, and puts nothing down. -/
theorem lifts_dispatch_of_layers (real : r.isTick = false)
    (changed : (i.dispatch km r b).interpreter.layers ≠ i.layers) (plain : x.isModifier = false) :
    (i.dispatch km r b).effect.puts x = false ∧ (i.dispatch km r b).effect.lifts x = true := by
  cases found : i.resolve km r.event.key with
  | error e =>
    rw [dispatch_of_error real found] at changed
    exact absurd rfl changed
  | ok action =>
    rw [dispatch_of_ok real found] at changed ⊢
    exact lifts_act_of_layers changed plain

end Interpreter

end TapHold
