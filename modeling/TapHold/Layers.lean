import TapHold.Action.Basic

/-!
# Active layers

Sixteen keymap layers and sixteen overlays can be on in any combination; one keymap layer is the
default layer, used where no active layer binds a key.

A change is made by `Layers.change`, which also tells whether it has made a difference. Masks and
the default layer are compared where they are replaced, each by a test of its own, and what the test
says is passed on. `Layers.apply` is what a change comes to, without any test, and `change_eq` says
that the tests are right: a change tells of a difference exactly when the layers differ.
-/

set_option autoImplicit false

namespace TapHold

/-- Which layers are on. -/
structure Layers where
  defaultLayer : LayerNumber
  keymapMask : Word
  overlayMask : Word
deriving DecidableEq

/-- A change of the layers of one family. -/
inductive LayerChange where
  | on (n : LayerNumber)
  | off (n : LayerNumber)
  | invert (n : LayerNumber)
  /-- Only layer `n` stays on. -/
  | only (n : LayerNumber)
  /-- Exactly the layers of the mask are on. -/
  | mask (m : Word)
  /-- Layer `n` becomes the default layer; for overlays, all are turned off. -/
  | reset (n : LayerNumber)
deriving DecidableEq

namespace Layers

/-- Layer `n` is the default layer and no layer is on. -/
def start (n : LayerNumber) : Layers := ⟨n, 0, 0⟩

/-- The bit of a layer in a mask. -/
def bit (n : LayerNumber) : Word := 1#16 <<< n

theorem getLsbD_bit (n : LayerNumber) (k : Nat) : (bit n).getLsbD k = decide (k = n.toNat) := by
  have small : n.toNat < 16 := n.isLt
  simp only [bit, BitVec.shiftLeft_eq', BitVec.getLsbD_shiftLeft, BitVec.getLsbD_one]
  by_cases same : k = n.toNat
  · simp [same, small]
  · by_cases less : k < n.toNat
    · simp [same, less]
    · have : k - n.toNat ≠ 0 := by omega
      simp [same, less, this]

/-- The mask of a family. -/
def maskOf (l : Layers) : LayerTarget → Word
  | .keymap => l.keymapMask
  | .overlay => l.overlayMask

/-- The layers with another mask for a family. -/
def withMask (l : Layers) (target : LayerTarget) (m : Word) : Layers :=
  match target with
  | .keymap => { l with keymapMask := m }
  | .overlay => { l with overlayMask := m }

@[simp] theorem maskOf_withMask (l : Layers) (target : LayerTarget) (m : Word) :
    (l.withMask target m).maskOf target = m := by
  cases target <;> rfl

/-- Whether a layer is on. -/
def isOn (l : Layers) (target : LayerTarget) (n : LayerNumber) : Bool :=
  (l.maskOf target).getLsbD n.toNat

/-- What a change makes of the layers. -/
def apply (l : Layers) (target : LayerTarget) : LayerChange → Layers
  | .on n => l.withMask target (l.maskOf target ||| bit n)
  | .off n => l.withMask target (l.maskOf target &&& ~~~bit n)
  | .invert n => l.withMask target (l.maskOf target ^^^ bit n)
  | .only n => l.withMask target (bit n)
  | .mask m => l.withMask target m
  | .reset n =>
    match target with
    | .keymap => { l with defaultLayer := n }
    | .overlay => { l with overlayMask := 0 }

/-! ## Changes and their tests -/

/-- Makes a layer the default layer, and tells whether another one was. -/
def setDefault (l : Layers) (n : LayerNumber) : Layers × Bool :=
  let l' := { l with defaultLayer := n }
  (l', l.defaultLayer != l'.defaultLayer)

/-- Replaces the mask of a family, and tells whether that was necessary. -/
def setMask (l : Layers) (target : LayerTarget) (m : Word) : Layers × Bool :=
  if l.maskOf target = m then (l, false) else (l.withMask target m, true)

/-- Turns a layer on. -/
def turnOn (l : Layers) (target : LayerTarget) (n : LayerNumber) : Layers × Bool :=
  l.setMask target (l.maskOf target ||| bit n)

/-- Turns a layer off. -/
def turnOff (l : Layers) (target : LayerTarget) (n : LayerNumber) : Layers × Bool :=
  l.setMask target (l.maskOf target &&& ~~~bit n)

/-- Turns a layer on that is off, and off that is on. -/
def invert (l : Layers) (target : LayerTarget) (n : LayerNumber) : Layers × Bool :=
  l.setMask target (l.maskOf target ^^^ bit n)

/-- Turns a layer on and all others of its family off. -/
def turnOnOnly (l : Layers) (target : LayerTarget) (n : LayerNumber) : Layers × Bool :=
  l.setMask target (bit n)

/-- Makes a keymap layer the default layer, or turns all overlays off. -/
def reset (l : Layers) (target : LayerTarget) (n : LayerNumber) : Layers × Bool :=
  match target with
  | .keymap => l.setDefault n
  | .overlay => l.setMask .overlay 0

/-- The layers after a change, and whether it has made a difference. -/
def change (l : Layers) (target : LayerTarget) : LayerChange → Layers × Bool
  | .on n => l.turnOn target n
  | .off n => l.turnOff target n
  | .invert n => l.invert target n
  | .only n => l.turnOnOnly target n
  | .mask m => l.setMask target m
  | .reset n => l.reset target n

theorem withMask_eq_iff {l : Layers} {target : LayerTarget} {m : Word} :
    l.withMask target m = l ↔ l.maskOf target = m := by
  constructor
  · intro same
    have put := maskOf_withMask l target m
    rwa [same] at put
  · rintro rfl
    cases target <;> rfl

/-- Comparing the mask of one family tells whether the layers differ. -/
theorem setMask_eq (l : Layers) (target : LayerTarget) (m : Word) :
    l.setMask target m = (l.withMask target m, decide (l.withMask target m ≠ l)) := by
  by_cases same : l.maskOf target = m
  · have kept := withMask_eq_iff.mpr same
    simp [setMask, same, kept]
  · have moved : l.withMask target m ≠ l := fun kept => same (withMask_eq_iff.mp kept)
    simp [setMask, same, moved]

/-- Comparing the default layer tells whether the layers differ. -/
theorem setDefault_eq (l : Layers) (n : LayerNumber) :
    l.setDefault n =
      ({ l with defaultLayer := n }, decide ({ l with defaultLayer := n } ≠ l)) := by
  rcases l with ⟨default, keymap, overlay⟩
  simp [setDefault, bne, Bool.beq_eq_decide_eq, eq_comm]

/-- **A change tells of a difference exactly when the layers differ.** -/
theorem change_eq (l : Layers) (target : LayerTarget) (c : LayerChange) :
    l.change target c = (l.apply target c, decide (l.apply target c ≠ l)) := by
  cases c with
  | on n => exact setMask_eq l target _
  | off n => exact setMask_eq l target _
  | invert n => exact setMask_eq l target _
  | only n => exact setMask_eq l target _
  | mask m => exact setMask_eq l target m
  | reset n =>
    cases target with
    | keymap => exact setDefault_eq l n
    | overlay => exact setMask_eq l .overlay 0

/-- All layers of both families are turned off. -/
def clear (l : Layers) : Layers := { l with keymapMask := 0, overlayMask := 0 }

end Layers

/-- What a layer operation makes of the layers at an edge of its key, and whether that makes a
difference. `tapped` is the tap count of the key and `toggle` the count that leaves a tap-toggle
layer on. -/
def LayerOp.operate (op : LayerOp) (l : Layers) (target : LayerTarget) (n : LayerNumber)
    (pressed : Bool) (tapped toggle : Nat) : Layers × Bool :=
  match op with
  | .reset t => if t.fires pressed then l.reset target n else (l, false)
  | .tapKey _ =>
    if 0 < tapped then (l, false)
    else if pressed then l.turnOn target n
    else l.turnOff target n
  | .tapToggle =>
    if pressed then if tapped < toggle then l.invert target n else (l, false)
    else l.invert target n
  | .invert t => if t.fires pressed then l.invert target n else (l, false)
  | .onOff => if pressed then l.turnOn target n else l.turnOff target n
  | .on t => if t.fires pressed then l.turnOn target n else (l, false)
  | .offOn => if pressed then l.turnOff target n else l.turnOn target n
  | .off t => if t.fires pressed then l.turnOff target n else (l, false)
  | .setClear => if pressed then l.turnOnOnly target n else l.setMask target 0
  | .set t => if t.fires pressed then l.turnOnOnly target n else (l, false)

/-- The change that a layer operation makes at an edge of its key, if it makes one. -/
def LayerOp.change? (op : LayerOp) (n : LayerNumber) (pressed : Bool) (tapped toggle : Nat) :
    Option LayerChange :=
  match op with
  | .reset t => if t.fires pressed then some (.reset n) else none
  | .tapKey _ => if tapped > 0 then none else some (if pressed then .on n else .off n)
  | .tapToggle => if pressed ∧ toggle ≤ tapped then none else some (.invert n)
  | .invert t => if t.fires pressed then some (.invert n) else none
  | .onOff => some (if pressed then .on n else .off n)
  | .on t => if t.fires pressed then some (.on n) else none
  | .offOn => some (if pressed then .off n else .on n)
  | .off t => if t.fires pressed then some (.off n) else none
  | .setClear => some (if pressed then .only n else .mask 0)
  | .set t => if t.fires pressed then some (.only n) else none

/-- An operation makes its change, and where it has none it makes no difference. -/
theorem LayerOp.operate_eq (op : LayerOp) (l : Layers) (target : LayerTarget) (n : LayerNumber)
    (pressed : Bool) (tapped toggle : Nat) :
    op.operate l target n pressed tapped toggle =
      match op.change? n pressed tapped toggle with
      | some c => l.change target c
      | none => (l, false) := by
  cases op with
  | reset t | invert t | on t | off t | set t =>
    simp only [operate, change?]
    cases t.fires pressed <;> rfl
  | onOff | offOn | setClear => cases pressed <;> rfl
  | tapKey code =>
    simp only [operate, change?]
    by_cases counted : 0 < tapped
    · simp only [counted, if_true]
    · simp only [counted, if_false]
      cases pressed <;> rfl
  | tapToggle =>
    simp only [operate, change?]
    cases pressed with
    | false => rfl
    | true =>
      by_cases few : tapped < toggle
      · simp only [few, Nat.not_le.mpr few, and_false, if_true, if_false]
        rfl
      · simp only [few, Nat.not_lt.mp few, and_self, if_true, if_false]

end TapHold
