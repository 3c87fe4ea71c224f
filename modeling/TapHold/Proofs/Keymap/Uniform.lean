import TapHold.Keymap.Basic

/-!
# Keymaps that no layer changes

`Keymap.Uniform` says that every key has the same action whatever layers are on. A keymap that binds
a key to the same code on all layers is uniform (`uniform_ofKeys`).
-/

set_option autoImplicit false

namespace TapHold

namespace Keymap

/-- Every key has the same action in all layers. -/
def Uniform (km : Keymap) (settings : Settings) : Prop :=
  ∀ (key : Position) (l l' : Layers), km.resolve l settings key = km.resolve l' settings key

/-- The keymap that gives a key the same code on all layers. -/
def ofKeys (code : Position → Word) : Keymap := fun _ => code

theorem firstBound?_ofKeys (code : Position → Word) (target : LayerTarget) (mask : Word)
    (key : Position) : (ofKeys code).firstBound? target mask key = none ∨
      ((ofKeys code).firstBound? target mask key = some (code key) ∧
        code key ≠ Action.transparentCode) := by
  cases found : (ofKeys code).firstBound? target mask key with
  | none => exact Or.inl rfl
  | some c =>
    have member := List.mem_of_find?_eq_some found
    have bound := List.find?_some found
    obtain ⟨n, -, rfl⟩ := List.mem_map.mp member
    exact Or.inr ⟨rfl, by simpa [ofKeys] using bound⟩

/-- The code of a key that all layers bind alike. -/
theorem boundCode_ofKeys (code : Position → Word) (layers : Layers) (overlays : Bool)
    (key : Position) : (ofKeys code).boundCode layers overlays key =
      if code key = Action.transparentCode then Action.noneCode else code key := by
  have default : (ofKeys code).defaultCode layers key =
      if code key = Action.transparentCode then Action.noneCode else code key := rfl
  have keymap : ((ofKeys code).firstBound? .keymap layers.keymapMask key).getD
      ((ofKeys code).defaultCode layers key) =
        if code key = Action.transparentCode then Action.noneCode else code key := by
    rcases firstBound?_ofKeys code .keymap layers.keymapMask key with none | ⟨some, bound⟩
    · rw [none, Option.getD_none, default]
    · rw [some, Option.getD_some, if_neg bound]
  unfold boundCode
  dsimp only
  split
  · rcases firstBound?_ofKeys code .overlay layers.overlayMask key with none | ⟨some, bound⟩
    · rw [none, Option.none_or, keymap]
    · rw [some, Option.some_or, Option.getD_some, if_neg bound]
  · rw [Option.none_or, keymap]

theorem uniform_ofKeys (code : Position → Word) (settings : Settings) :
    (ofKeys code).Uniform settings := by
  intro key l l'
  unfold resolve
  rw [boundCode_ofKeys, boundCode_ofKeys]

end Keymap

end TapHold
