import TapHold.Proofs.Action.Code
import TapHold.Proofs.Interpreter.Holds

/-!
# Which binding applies to a key

Overlays come before keymap layers, and within a family the higher number comes first
(`LayerId.Above`). The code that applies to a key is its binding on the highest active layer that
binds it, and where there is none its binding on the default layer, or no action
(`Keymap.Chosen`). There is exactly one such code, and looking a key up finds it
(`chosen_boundCode`, `Chosen.unique`).

So a key never resolves to a transparent action, and it fails to resolve only where the code that
applies is reserved, whatever is bound below (`resolve_by_priority`). Turning on one more layer
makes a difference only where this layer binds the key and no active layer above it does.
-/

set_option autoImplicit false

namespace TapHold

/-! ## The order of the layers -/

/-- A layer is looked up before another one: overlays before keymap layers, higher numbers before
lower ones. -/
inductive LayerId.Above : LayerId → LayerId → Prop where
  | family (m n : Nat) : Above ⟨.overlay, m⟩ ⟨.keymap, n⟩
  | number (target : LayerTarget) {m n : Nat} (more : n < m) : Above ⟨target, m⟩ ⟨target, n⟩

namespace LayerId

/-- Of two layers, one is looked up before the other. -/
theorem eq_or_above (a b : LayerId) : a = b ∨ a.Above b ∨ b.Above a := by
  obtain ⟨s, m⟩ := a
  obtain ⟨t, n⟩ := b
  have same (target : LayerTarget) : (⟨target, m⟩ : LayerId) = ⟨target, n⟩ ∨
      LayerId.Above ⟨target, m⟩ ⟨target, n⟩ ∨ LayerId.Above ⟨target, n⟩ ⟨target, m⟩ := by
    rcases Nat.lt_trichotomy m n with less | rfl | more
    · exact Or.inr (Or.inr (.number target less))
    · exact Or.inl rfl
    · exact Or.inr (Or.inl (.number target more))
  cases s with
  | keymap =>
    cases t with
    | keymap => exact same .keymap
    | overlay => exact Or.inr (Or.inr (.family n m))
  | overlay =>
    cases t with
    | keymap => exact Or.inr (Or.inl (.family m n))
    | overlay => exact same .overlay

end LayerId

/-! ## Active layers -/

namespace Layers

/-- The layer is on, and its family is used. -/
def Active (l : Layers) (settings : Settings) (id : LayerId) : Prop :=
  settings.uses id.target = true ∧ (l.maskOf id.target).getLsbD id.number = true

/-- The layer that is used where no active layer binds a key. -/
def defaultId (l : Layers) : LayerId := ⟨.keymap, l.defaultLayer.toNat⟩

theorem maskOf_withMask_of_ne {l : Layers} {target other : LayerTarget} (m : Word)
    (different : other ≠ target) : (l.withMask target m).maskOf other = l.maskOf other := by
  cases target with
  | keymap =>
    cases other with
    | keymap => exact absurd rfl different
    | overlay => rfl
  | overlay =>
    cases other with
    | keymap => rfl
    | overlay => exact absurd rfl different

/-- Turning a layer on makes it active, if its family is used, and leaves the others alone. -/
theorem active_on {l : Layers} {settings : Settings} {target : LayerTarget} {n : LayerNumber}
    {id : LayerId} : (l.apply target (.on n)).Active settings id ↔
      l.Active settings id ∨ (id = ⟨target, n.toNat⟩ ∧ settings.uses target = true) := by
  obtain ⟨family, k⟩ := id
  show _ ∧ ((l.withMask target (l.maskOf target ||| bit n)).maskOf family).getLsbD k = true ↔ _
  by_cases same : family = target
  · subst same
    rw [maskOf_withMask, BitVec.getLsbD_or, getLsbD_bit, Bool.or_eq_true, decide_eq_true_eq,
      LayerId.mk.injEq, and_or_left]
    refine or_congr Iff.rfl ?_
    constructor
    · rintro ⟨used, number⟩
      exact ⟨⟨rfl, number⟩, used⟩
    · rintro ⟨⟨-, number⟩, used⟩
      exact ⟨used, number⟩
  · rw [maskOf_withMask_of_ne _ same]
    exact ⟨Or.inl, fun h => h.resolve_right fun further => same (congrArg LayerId.target further.1)⟩

end Layers

namespace Keymap

/-- The layer has a binding of its own for the key. -/
def Binds (km : Keymap) (id : LayerId) (key : Position) : Prop :=
  km id key ≠ Action.transparentCode

/-- The code that applies to a key: the binding of the highest active layer that binds it, else the
binding of the default layer, else no action. -/
inductive Chosen (km : Keymap) (l : Layers) (settings : Settings) (key : Position) :
    Word → Prop where
  | active {id : LayerId} (on : l.Active settings id) (binds : km.Binds id key)
      (highest : ∀ other, l.Active settings other → other.Above id → ¬ km.Binds other key) :
    Chosen km l settings key (km id key)
  | default (none : ∀ id, l.Active settings id → ¬ km.Binds id key)
      (binds : km.Binds l.defaultId key) : Chosen km l settings key (km l.defaultId key)
  | nothing (none : ∀ id, l.Active settings id → ¬ km.Binds id key)
      (unbound : ¬ km.Binds l.defaultId key) : Chosen km l settings key Action.noneCode

variable {km : Keymap} {l : Layers} {settings : Settings} {key : Position} {code code' : Word}

/-! ## One code applies -/

/-- No more than one code applies to a key. -/
theorem Chosen.unique (h : km.Chosen l settings key code) (h' : km.Chosen l settings key code') :
    code = code' := by
  cases h with
  | @active id on binds highest =>
    cases h' with
    | @active id' on' binds' highest' =>
      -- neither of two active layers that bind the key is above the other
      rcases id.eq_or_above id' with rfl | above | below
      · rfl
      · exact absurd binds (highest' id on above)
      · exact absurd binds' (highest id' on' below)
    | default none => exact absurd binds (none id on)
    | nothing none => exact absurd binds (none id on)
  | default none binds =>
    cases h' with
    | @active id' on' binds' => exact absurd binds' (none id' on')
    | default => rfl
    | nothing none' unbound => exact absurd binds unbound
  | nothing none unbound =>
    cases h' with
    | @active id' on' binds' => exact absurd binds' (none id' on')
    | default none' binds' => exact absurd binds' unbound
    | nothing => rfl

/-- The code that applies to a key is not transparent. -/
theorem Chosen.ne_transparent (h : km.Chosen l settings key code) :
    code ≠ Action.transparentCode := by
  cases h with
  | active on binds highest => exact binds
  | default none binds => exact binds
  | nothing none unbound => decide

/-! ## Looking a key up -/

theorem mem_activeLayers {mask : Word} {n : Nat} :
    n ∈ activeLayers mask ↔ mask.getLsbD n = true := by
  rw [activeLayers, List.mem_filter, List.mem_reverse, List.mem_range]
  constructor
  · exact And.right
  · intro on
    exact ⟨BitVec.lt_of_getLsbD on, on⟩

theorem pairwise_activeLayers (mask : Word) : (activeLayers mask).Pairwise (· > ·) := by
  refine List.Pairwise.filter _ ?_
  rw [List.pairwise_reverse]
  exact List.pairwise_lt_range

/-- In a list of falling numbers, nothing above the first one that fits does. -/
theorem not_of_find?_eq_some {ns : List Nat} {p : Nat → Bool} {m n : Nat}
    (falling : ns.Pairwise (· > ·)) (found : ns.find? p = some n) (mem : m ∈ ns) (more : n < m) :
    p m = false := by
  obtain ⟨-, before, after, rfl, none⟩ := List.find?_eq_some_iff_append.mp found
  obtain ⟨-, tail, -⟩ := List.pairwise_append.mp falling
  rcases List.mem_append.mp mem with early | late
  · simpa using none m early
  · rcases List.mem_cons.mp late with rfl | later
    · exact absurd more (Nat.lt_irrefl _)
    · have less : m < n := (List.pairwise_cons.mp tail).1 m later
      omega

/-- The first code of a family is that of its highest layer in the mask that binds the key. -/
theorem firstBound?_cases (km : Keymap) (target : LayerTarget) (mask : Word) (key : Position) :
    (∃ n, mask.getLsbD n = true ∧ km.Binds ⟨target, n⟩ key ∧
        (∀ m, n < m → mask.getLsbD m = true → ¬ km.Binds ⟨target, m⟩ key) ∧
        km.firstBound? target mask key = some (km ⟨target, n⟩ key)) ∨
      ((∀ n, mask.getLsbD n = true → ¬ km.Binds ⟨target, n⟩ key) ∧
        km.firstBound? target mask key = none) := by
  rw [firstBound?, List.find?_map]
  cases found : (activeLayers mask).find?
      ((fun code => code != Action.transparentCode) ∘ fun n => km ⟨target, n⟩ key) with
  | some n =>
    refine Or.inl ⟨n, mem_activeLayers.mp (List.mem_of_find?_eq_some found), ?_, ?_, rfl⟩
    · simpa [Binds] using List.find?_some found
    · intro m more on
      have none := not_of_find?_eq_some (pairwise_activeLayers mask) found
        (mem_activeLayers.mpr on) more
      simpa [Binds] using none
  | none =>
    refine Or.inr ⟨fun n on => ?_, rfl⟩
    simpa [Binds] using List.find?_eq_none.mp found n (mem_activeLayers.mpr on)

/-- Where no active layer binds the key, the default layer does, or nothing does. -/
theorem chosen_defaultCode (none : ∀ id, l.Active settings id → ¬ km.Binds id key) :
    km.Chosen l settings key (km.defaultCode l key) := by
  unfold defaultCode
  dsimp only
  split
  · rename_i unbound
    exact .nothing none fun binds => binds unbound
  · rename_i binds
    exact .default none binds

/-- **Looking a key up finds the code that applies to it.** -/
theorem chosen_boundCode (km : Keymap) (l : Layers) (settings : Settings) (key : Position) :
    km.Chosen l settings key (km.boundCode l settings.overlays key) := by
  -- first the overlays, if they are used; `above` says that none of them binds the key
  have below (above : ∀ n, l.Active settings ⟨.overlay, n⟩ → ¬ km.Binds ⟨.overlay, n⟩ key) :
      km.Chosen l settings key
        ((km.firstBound? .keymap l.keymapMask key).getD (km.defaultCode l key)) := by
    rcases km.firstBound?_cases .keymap l.keymapMask key with
      ⟨n, on, binds, highest, found⟩ | ⟨none, found⟩
    · rw [found]
      have here : l.Active settings ⟨.keymap, n⟩ := ⟨rfl, on⟩
      refine .active here binds ?_
      rintro ⟨target, m⟩ active higher
      cases higher with
      | family => exact above m active
      | number _ more => exact highest m more active.2
    · rw [found]
      refine chosen_defaultCode ?_
      rintro ⟨target, m⟩ active
      cases target with
      | keymap => exact none m active.2
      | overlay => exact above m active
  unfold boundCode
  cases used : settings.overlays with
  | false =>
    refine below fun n active => ?_
    cases used.symm.trans active.1
  | true =>
    dsimp only
    rw [if_pos rfl]
    rcases km.firstBound?_cases .overlay l.overlayMask key with
      ⟨n, on, binds, highest, found⟩ | ⟨none, found⟩
    · rw [found]
      have here : l.Active settings ⟨.overlay, n⟩ := ⟨used, on⟩
      refine .active here binds ?_
      rintro ⟨target, m⟩ active higher
      cases higher with
      | number _ more => exact highest m more active.2
    · rw [found]
      exact below fun n active => none n active.2

/-! ## One more layer -/

/-- Turning on a layer changes the code that applies only to the binding of this layer, where it has
one and no active layer above it has one. -/
theorem Chosen.of_on {target : LayerTarget} {n : LayerNumber}
    (h : km.Chosen l settings key code)
    (h' : km.Chosen (l.apply target (.on n)) settings key code') (changed : code' ≠ code) :
    km.Binds ⟨target, n.toNat⟩ key ∧ code' = km ⟨target, n.toNat⟩ key ∧
      ∀ id, l.Active settings id → id.Above ⟨target, n.toNat⟩ → ¬ km.Binds id key := by
  have stays {id : LayerId} (on : l.Active settings id) :
      (l.apply target (.on n)).Active settings id := Layers.active_on.mpr (Or.inl on)
  have same : (l.apply target (.on n)).defaultId = l.defaultId := by cases target <;> rfl
  cases h' with
  | @active id on' binds highest =>
    rcases Layers.active_on.mp on' with on | ⟨rfl, -⟩
    · -- an old layer applied before as well
      have before : km.Chosen l settings key (km id key) :=
        .active on binds fun other active => highest other (stays active)
      exact absurd (before.unique h) changed
    · exact ⟨binds, rfl, fun id on => highest id (stays on)⟩
  | default none binds =>
    rw [same] at binds changed
    have before : km.Chosen l settings key (km l.defaultId key) :=
      .default (fun id on => none id (stays on)) binds
    exact absurd (before.unique h) changed
  | nothing none unbound =>
    rw [same] at unbound
    have before : km.Chosen l settings key Action.noneCode :=
      .nothing (fun id on => none id (stays on)) unbound
    exact absurd (before.unique h) changed

/-- **A key resolves to its binding of highest priority**, for every keymap and all active layers.

There is exactly one code that applies to the key, and the key resolves to what this code stands
for. It never resolves to a transparent action. It fails to resolve exactly where the code that
applies is reserved, and then it fails with this code, whatever the layers below bind. Turning on
any further layer of either family, one of an unused family among them, changes the code that
applies only where that layer binds the key and no active layer above it does, and then to the
binding of that layer. -/
theorem resolve_by_priority (km : Keymap) (l : Layers) (settings : Settings) (key : Position) :
    ∃ code, km.Chosen l settings key code ∧
      (∀ code', km.Chosen l settings key code' → code' = code) ∧
      km.resolve l settings key = Action.ofCode code ∧
      km.resolve l settings key ≠ .ok .transparent ∧
      (∀ e, km.resolve l settings key = .error e ↔ Action.Reserved code ∧ e = ⟨code⟩) ∧
      ∀ target n code', km.Chosen (l.apply target (.on n)) settings key code' → code' ≠ code →
        km.Binds ⟨target, n.toNat⟩ key ∧ code' = km ⟨target, n.toNat⟩ key ∧
          ∀ id, l.Active settings id → id.Above ⟨target, n.toNat⟩ → ¬ km.Binds id key := by
  let code := km.boundCode l settings.overlays key
  have chosen : km.Chosen l settings key code := km.chosen_boundCode l settings key
  have resolved : km.resolve l settings key = Action.ofCode code := rfl
  refine ⟨code, chosen, fun code' other => other.unique chosen, resolved, ?_, ?_, ?_⟩
  · intro transparent
    have denotes := Action.ofCode_eq_ok_iff.mp (resolved.symm.trans transparent)
    generalize code = word at denotes chosen
    cases denotes with
    | transparent => exact chosen.ne_transparent rfl
  · intro e
    rw [resolved]
    exact Action.ofCode_eq_error_iff
  · intro target n code' later changed
    exact chosen.of_on later changed

/-- A transparent overlay and a reserved code on the highest layer: the key fails to resolve, though
the layer below and the default layer bind it. -/
example :
    let km : Keymap := fun id _ =>
      if id = ⟨.keymap, 3⟩ then 0x6000 else if id.target = .keymap then 0x0004 else 0x0001
    km.resolve ⟨0, 0b1010, 1⟩ .standard ⟨0, 0⟩ = .error ⟨0x6000⟩ := by
  rfl

end Keymap

end TapHold
