import TapHold.Proofs.Action.Code
import TapHold.Proofs.Interpreter.OneShot

/-!
# Which keys hold a modifier

Every action has the modifiers that it holds while its key is down and is no tap
(`Action.heldBits`). The press of the key adds them to whatever is down (`bitsAfter_press`), and the
release takes them away again (`bitsAfter_release`).

The interpreter says of a release whether it lets a modifier go. It says so wherever the key holds
one, and in two cases more (`Action.HeldInVain`, `holdsModifier_iff_act`). A key with modifiers
whose code is itself a modifier types this code under its modifiers, and the byte from before is
restored at once; a key without modifiers that types a modifier when it is tapped holds none when it
is not. With these two exceptions, a release is held back as that of a modifier exactly where the
press has put modifiers down (`holdsModifier_iff_leaves`). Neither exception can be left out
(`holdsModifier_of_control_shift`).

Where the interpreter says no, the release leaves every modifier as it is (`spares_dispatch`):
whatever the key is bound to, it lets go a key, a mouse key, a usage, all keys but the modifiers, or
nothing.
-/

set_option autoImplicit false

namespace TapHold

/-! ## Modifiers of a key that is held -/

/-- The bit of a code in the modifier byte, if it is the code of a modifier. -/
def Keycode.heldBits (code : Keycode) : Byte := if code.isModifier then code.modifierBit else 0

theorem Keycode.heldBits_ne_zero : ∀ code : Keycode,
    Keycode.heldBits code ≠ 0 ↔ Keycode.isModifier code = true := by
  decide +kernel

theorem Keycode.heldBits_of_isKey {code : Keycode} (isKey : code.isKey = true) :
    code.heldBits = 0 := by
  have disjoint := (Keycode.ranges_disjoint code).1
  rw [isKey, Bool.true_and] at disjoint
  rw [heldBits, disjoint, if_neg Bool.false_ne_true]

theorem Mods.byte_ne_zero (mods : Mods) : mods.byte ≠ 0 ↔ mods.isEmpty = false := by
  obtain ⟨side, bits⟩ := mods
  revert bits
  cases side <;> decide

/-- The modifiers that a key with this action holds while it is down, where it is no tap. -/
def Action.heldBits : Action → Byte
  | .key code => code.heldBits
  | .keyWithMods mods code => if code = Keycode.nothing then mods.byte else 0
  | .modsTap mods _ => mods.byte
  | _ => 0

/-- The key counts as one that holds a modifier, and it holds none: its code is a modifier that is
typed under modifiers of the key's own, or it has no modifiers and types a modifier when tapped. -/
inductive Action.HeldInVain : Action → Prop where
  | underMods (mods : Mods) (code : Keycode) (modifier : code.isModifier = true) :
    HeldInVain (.keyWithMods mods code)
  | whenTapped (mods : Mods) (code : Keycode) (none : mods.isEmpty = true)
      (modifier : code.isModifier = true) : HeldInVain (.modsTap mods (.key code))

theorem Action.HeldInVain.heldBits_eq {action : Action} (h : action.HeldInVain) :
    action.heldBits = 0 := by
  cases h with
  | underMods mods code modifier =>
    have some : code ≠ Keycode.nothing := by
      rintro rfl
      cases modifier
    exact if_neg some
  | whenTapped mods code none modifier =>
    by_contra held
    cases none.symm.trans (mods.byte_ne_zero.mp held)

/-- Whatever modifiers are down, the effect leaves them as they are, where there are no
extensions. -/
def Effect.SparesModifiers (effect : Effect) : Prop := ∀ bits, effect.asked.bitsAfter bits = bits

namespace Interpreter

variable {i : Interpreter} {action : Action} {r : Record} {code : Keycode}

/-! ## Layer keys -/

theorem bitsAfter_changeLayers (i : Interpreter) (target : LayerTarget) (c : LayerChange)
    (bits : Byte) : (i.changeLayers target c).request.bitsAfter bits = bits := by
  rcases i.changeLayers_cases target c with ⟨-, told⟩ | ⟨-, told⟩
  · rw [told]
    rfl
  · rw [told]
    rfl

/-- A layer key that is no tap changes layers at most. -/
theorem bitsAfter_layer (i : Interpreter) (target : LayerTarget) (n : LayerNumber) (op : LayerOp)
    (untapped : r.tap.count = 0) (b : Bool) (bits : Byte) :
    (i.act (.layer target n op) r b).effect.asked.bitsAfter bits = bits := by
  rcases act_layer i target n op r b with ⟨-, told⟩ | ⟨-, told⟩
  · rw [told]
    show (i.layerKey target n op r).request.bitsAfter bits = bits
    rcases layerKey_cases i target n op r with ⟨c, -, key⟩ | ⟨_, -, counted, -⟩ | ⟨-, key⟩
    · rw [key]
      exact bitsAfter_changeLayers i target c bits
    · exact absurd untapped (Nat.ne_of_gt counted)
    · rw [key]
      rfl
  · rw [told]
    rfl

/-! ## The press -/

theorem bitsAfter_register (i : Interpreter) (code : Keycode) (bits : Byte) :
    (i.register code).request.bitsAfter bits = bits ||| code.heldBits := by
  have nothing : bits ||| (0 : Byte) = bits := BitVec.or_zero
  unfold register
  split
  · rename_i isKey
    rw [Keycode.heldBits_of_isKey isKey, nothing]
    split <;> rfl
  split
  · rename_i modifier
    rw [Keycode.heldBits, if_pos modifier]
    rfl
  · rename_i plain
    rw [Keycode.heldBits, if_neg plain, nothing]
    split <;> rfl

theorem bitsAfter_oneShotKey_down (i : Interpreter) (mods : Mods) (down : r.event.pressed = true)
    (untapped : r.tap.count = 0) (bits : Byte) :
    (i.oneShotKey mods r).request.bitsAfter bits = bits ||| mods.byte := by
  simp only [oneShotKey, down, untapped, if_true]
  split <;> rfl

/-- **The press of a key that is no tap adds the modifiers that the key holds.** -/
theorem bitsAfter_press (action : Action) (down : r.event.pressed = true)
    (untapped : r.tap.count = 0) (b : Bool) (bits : Byte) :
    (i.act action r b).effect.asked.bitsAfter bits = bits ||| action.heldBits := by
  have nothing : bits ||| (0 : Byte) = bits := BitVec.or_zero
  cases action with
  | none | transparent | usage | hook => exact nothing.symm
  | key code =>
    simp only [act, strike, down, if_true]
    exact bitsAfter_register i code bits
  | keyWithMods mods code =>
    show (i.strikeUnder mods code r.event.pressed).request.bitsAfter bits = _
    rw [strikeUnder, Action.heldBits, down]
    split
    · rfl
    · exact nothing.symm
  | modsTap mods tap =>
    cases tap with
    | oneShot => exact bitsAfter_oneShotKey_down i mods down untapped bits
    | key code =>
      simp only [act, modsTapKey, isOverruled_of_count untapped, Bool.false_eq_true, if_false,
        untapped, if_true, down]
      rfl
  | mouse code =>
    refine Eq.trans ?_ nothing.symm
    simp only [act, down, if_true]
    split <;> rfl
  | layer target n op =>
    exact (bitsAfter_layer i target n op untapped b bits).trans nothing.symm

/-! ## The release -/

theorem bitsAfter_unregister (i : Interpreter) (code : Keycode) (bits : Byte) :
    (i.unregister code).request.bitsAfter bits = bits &&& ~~~code.heldBits := by
  have nothing : bits &&& ~~~(0 : Byte) = bits := BitVec.and_allOnes
  unfold unregister
  split
  · rename_i isKey
    rw [Keycode.heldBits_of_isKey isKey, nothing]
    rfl
  split
  · rename_i modifier
    rw [Keycode.heldBits, if_pos modifier]
    rfl
  · rename_i plain
    rw [Keycode.heldBits, if_neg plain, nothing]
    split <;> rfl

theorem bitsAfter_oneShotKey_up (i : Interpreter) (mods : Mods) (up : r.event.pressed = false)
    (bits : Byte) : (i.oneShotKey mods r).request.bitsAfter bits = bits &&& ~~~mods.byte := by
  simp only [oneShotKey, up, Bool.false_eq_true, if_false]
  repeat' split
  all_goals rfl

/-- **The release of a key that is no tap takes the modifiers away that the key holds**, unless it
counts as holding a modifier in vain. -/
theorem bitsAfter_release (real : ¬ action.HeldInVain) (up : r.event.pressed = false)
    (untapped : r.tap.count = 0) (b : Bool) (bits : Byte) :
    (i.act action r b).effect.asked.bitsAfter bits = bits &&& ~~~action.heldBits := by
  have nothing : bits &&& ~~~(0 : Byte) = bits := BitVec.and_allOnes
  cases action with
  | none | transparent | usage | hook => exact nothing.symm
  | key code =>
    simp only [act, strike, up, Bool.false_eq_true, if_false]
    exact bitsAfter_unregister i code bits
  | keyWithMods mods code =>
    show (i.strikeUnder mods code r.event.pressed).request.bitsAfter bits = _
    rw [strikeUnder, Action.heldBits, up]
    split
    · rfl
    · -- the release takes away a modifier that the press has not left down
      have plain : ¬ code.isModifier = true := fun modifier => real (.underMods mods code modifier)
      have spared := bitsAfter_unregister i code bits
      rw [Keycode.heldBits, if_neg plain] at spared
      exact spared
  | modsTap mods tap =>
    cases tap with
    | oneShot => exact bitsAfter_oneShotKey_up i mods up bits
    | key code =>
      simp only [act, modsTapKey, isOverruled_of_up up, Bool.false_eq_true, if_false, untapped,
        if_true, up]
      rfl
  | mouse code =>
    refine Eq.trans ?_ nothing.symm
    simp only [act, up, Bool.false_eq_true, if_false]
    split <;> rfl
  | layer target n op =>
    exact (bitsAfter_layer i target n op untapped b bits).trans nothing.symm

/-! ## What the interpreter says of a release -/

/-- The interpreter says that the release of a key lets a modifier go where the key holds one, and
where it holds one in vain. -/
theorem holdsModifier_iff_act {km : Keymap} (found : i.resolve km r.event.key = .ok action)
    (untapped : r.tap.count = 0) :
    i.holdsModifier km r = true ↔ action.heldBits ≠ 0 ∨ action.HeldInVain := by
  have range : action.InRange := (Action.ofCode_eq_ok_iff.mp found).inRange
  have never {p : Prop} (none : ¬ action.HeldInVain) : p ∨ action.HeldInVain ↔ p :=
    or_iff_left none
  simp only [holdsModifier, found]
  cases action with
  | none | transparent | usage | mouse | layer | hook =>
    rw [never (by rintro ⟨⟩)]
    exact ⟨fun h => absurd h Bool.false_ne_true, fun h => absurd rfl h⟩
  | key code =>
    rw [never (by rintro ⟨⟩)]
    exact (Keycode.heldBits_ne_zero code).symm
  | keyWithMods mods code =>
    -- such a code names a modifier
    have some : mods.isEmpty = false := beq_eq_false_iff_ne.mpr range.1
    rw [Bool.or_eq_true, beq_iff_eq, Action.heldBits]
    constructor
    · rintro (rfl | modifier)
      · exact Or.inl (mods.byte_ne_zero.mpr some)
      · exact Or.inr (.underMods mods code modifier)
    · rintro (held | ⟨_, _, modifier⟩)
      · refine Or.inl ?_
        by_contra other
        exact held (if_neg other)
      · exact Or.inr modifier
  | modsTap mods tap =>
    have held : (!mods.isEmpty && r.tap.count == 0) = true ↔ mods.byte ≠ 0 := by
      rw [mods.byte_ne_zero, untapped]
      simp
    cases tap with
    | oneShot =>
      rw [never (by rintro ⟨⟩)]
      exact held
    | key code =>
      rw [Bool.or_eq_true, held]
      constructor
      · rintro (some | modifier)
        · exact Or.inl some
        · cases none : mods.isEmpty with
          | true => exact Or.inr (.whenTapped mods code none modifier)
          | false => exact Or.inl (mods.byte_ne_zero.mpr none)
      · rintro (some | vain)
        · exact Or.inl some
        · cases vain with
          | whenTapped _ _ none modifier => exact Or.inr modifier

/-- **The release of a key that was not tapped lets modifiers go only where it is known to.** -/
theorem spares_dispatch {km : Keymap} (i : Interpreter) (up : r.event.pressed = false)
    (zero : r.tap.count = 0) (plain : i.holdsModifier km r = false) (b : Bool) :
    (i.dispatch km r b).effect.SparesModifiers := by
  intro bits
  cases tick : r.isTick with
  | true =>
    rw [dispatch, if_pos tick]
    rfl
  | false =>
    cases found : i.resolve km r.event.key with
    | error e =>
      rw [dispatch_of_error tick found]
      rfl
    | ok action =>
      -- the key holds no modifier, not even in vain
      have none : ¬ (action.heldBits ≠ 0 ∨ action.HeldInVain) := by
        rw [← holdsModifier_iff_act found zero, plain]
        exact Bool.false_ne_true
      obtain ⟨held, vain⟩ := not_or.mp none
      rw [dispatch_of_ok tick found, bitsAfter_release vain up zero b, not_not.mp held]
      exact BitVec.and_allOnes

end Interpreter

/-! ## Press and release in a session -/

/-- `p` is the press and `q` the release of a key with one action in all layers, and neither of them
is a tap. -/
structure Keymap.HoldStroke (km : Keymap) (settings : Settings) (p q : Record) : Prop where
  real : p.isTick = false
  down : p.event.pressed = true
  up : q.event.pressed = false
  same : q.event.key = p.event.key
  untapped : p.tap.count = 0
  untapped' : q.tap.count = 0
  uniform : ∀ l l', km.resolve l settings p.event.key = km.resolve l' settings p.event.key

namespace Session

variable {η : Type} [Host η]

/-- **A release is held back as that of a modifier where the press has put modifiers down**, and in
two cases more, as long as the host is steady.

The press `p` is carried out where no modifiers are down, the release `q` at any later time, with
the same settings. The interpreter says that `q` lets a modifier go exactly where `p` has left some
modifier down or the key counts as one that holds a modifier in vain, and then `p` has left none
down. In all other cases `q` takes exactly those modifiers away that `p` has left down, whatever
else is down. -/
theorem holdsModifier_iff_leaves (s t : Session η) (km : Keymap) (p q : Record) (b b' : Bool)
    (stroke : km.HoldStroke s.interpreter.settings p q)
    (settings : t.interpreter.settings = s.interpreter.settings)
    (none : Host.modifiers s.host = 0) (steady : s.Steady [.dispatch km p b])
    (steady' : t.Steady [.dispatch km q b']) :
    let left := Host.modifiers (s.perform (.dispatch km p b)).host
    let inVain := ∃ action, s.interpreter.resolve km p.event.key = .ok action ∧ action.HeldInVain
    (t.interpreter.holdsModifier km q = true ↔ left ≠ 0 ∨ inVain) ∧
      (inVain → left = 0) ∧
      (¬ inVain → Host.modifiers (t.perform (.dispatch km q b')).host =
        Host.modifiers t.host &&& ~~~left) := by
  intro left inVain
  have real : q.isTick = false := by
    rw [← stroke.real]
    exact congrArg Position.isNowhere stroke.same
  have alike : t.interpreter.resolve km q.event.key = s.interpreter.resolve km p.event.key := by
    rw [Interpreter.resolve, Interpreter.resolve, settings, stroke.same]
    exact stroke.uniform _ _
  have pressing : left = (s.interpreter.dispatch km p b).effect.asked.bitsAfter 0 :=
    none ▸ steady.heard.2
  have releasing := steady'.heard.2
  replace releasing : _ = (t.interpreter.dispatch km q b').effect.asked.bitsAfter _ := releasing
  cases found : s.interpreter.resolve km p.event.key with
  | error e =>
    -- nothing is known of such a code, and it does nothing
    rw [found] at alike
    rw [Interpreter.dispatch_of_error stroke.real found] at pressing
    rw [Interpreter.dispatch_of_error real alike] at releasing
    have up : left = 0 := pressing
    have never : ¬ inVain := by
      rintro ⟨action, other, -⟩
      cases found.symm.trans other
    refine ⟨?_, fun vain => absurd vain never, fun _ => ?_⟩
    · simp only [Interpreter.holdsModifier, alike]
      exact ⟨fun h => absurd h Bool.false_ne_true, fun h => absurd up (h.resolve_right never)⟩
    · rw [releasing, up]
      exact BitVec.and_allOnes.symm
  | ok action =>
    rw [found] at alike
    rw [Interpreter.dispatch_of_ok stroke.real found,
      Interpreter.bitsAfter_press action stroke.down stroke.untapped b] at pressing
    have held : left = action.heldBits := pressing.trans BitVec.zero_or
    have vain : inVain ↔ action.HeldInVain := by
      constructor
      · rintro ⟨other, same, vain⟩
        cases found.symm.trans same
        exact vain
      · exact fun vain => ⟨action, found, vain⟩
    rw [held, vain]
    refine ⟨Interpreter.holdsModifier_iff_act alike stroke.untapped', fun vain => vain.heldBits_eq,
      fun real' => ?_⟩
    rw [releasing, Interpreter.dispatch_of_ok real alike]
    exact Interpreter.bitsAfter_release real' stroke.up stroke.untapped' b' _

/-- One-shot shift is held. When it is let go, control is down as well and another layer is on:
shift goes and control stays. -/
theorem holdsModifier_of_held_shift :
    let km := Keymap.ofKeys fun _ => 0x2200
    let p : Record := .ofEvent ⟨⟨0, 0⟩, true, ⟨0⟩⟩
    let q : Record := .ofEvent ⟨⟨0, 0⟩, false, ⟨300⟩⟩
    let s : Session CallLog := ⟨.start .standard 0, .empty⟩
    let t : Session CallLog := ⟨s.interpreter.withLayers ⟨0, 4, 0⟩, ⟨3, []⟩⟩
    Host.modifiers (s.perform (.dispatch km p true)).host = 2 ∧
      t.interpreter.holdsModifier km q = true ∧
      Host.modifiers (t.perform (.dispatch km q false)).host = 1 := by
  intro km p q s t
  have stroke : km.HoldStroke s.interpreter.settings p q :=
    ⟨rfl, rfl, rfl, rfl, rfl, rfl, Keymap.uniform_ofKeys _ _ _⟩
  have left : Host.modifiers (s.perform (.dispatch km p true)).host = 2 := by decide +kernel
  obtain ⟨holds, vain, goes⟩ := holdsModifier_iff_leaves s t km p q true false stroke rfl rfl
    (steady_callLog s _) (steady_callLog t _)
  rw [left] at holds vain goes
  have nonzero : (2 : Byte) ≠ 0 := by decide
  have others : Host.modifiers t.host &&& ~~~(2 : Byte) = 1 := by decide
  exact ⟨left, holds.mpr (Or.inl nonzero), (goes fun inVain => nonzero (vain inVain)).trans others⟩

/-- Control and shift on one key are down only while it is pressed, and a key without modifiers that
types shift when tapped holds nothing, yet the release of either is taken for one that lets a
modifier go. -/
theorem holdsModifier_of_control_shift :
    let km := Keymap.ofKeys fun key => if key.col = 0 then 0x01e1 else 0x20e1
    let p (col : Byte) : Record := .ofEvent ⟨⟨0, col⟩, true, ⟨0⟩⟩
    let q (col : Byte) : Record := .ofEvent ⟨⟨0, col⟩, false, ⟨300⟩⟩
    let s : Session CallLog := ⟨.start .standard 0, .empty⟩
    ∀ col ∈ [0, 1], km.HoldStroke .standard (p col) (q col) ∧ Host.modifiers s.host = 0 ∧
      s.Steady [.dispatch km (p col) false] ∧ s.interpreter.holdsModifier km (q col) = true ∧
      Host.modifiers (s.perform (.dispatch km (p col) false)).host = 0 := by
  intro km p q s col pos
  refine ⟨?_, rfl, steady_callLog s _, ?_⟩
  · exact ⟨rfl, rfl, rfl, rfl, rfl, rfl, Keymap.uniform_ofKeys _ _ _⟩
  · revert col
    decide +kernel

end Session

end TapHold
