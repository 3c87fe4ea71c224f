import TapHold.Proofs.Interpreter.Desk

/-!
# Layers change at layer keys, and then the keys go up

When the layers have changed, other actions may apply to the releases that are yet to come, so every
key that is down goes up. `Interpreter.dispatch_cases` says that this is the only case in which keys
go up without their own releases: a record either leaves the layers as they are and lets no other
key go, or it is the edge of a layer key whose change makes a difference, and all that it asks of
the host is to let the keys go. Whether it makes one is found out where a mask or the default layer
is replaced (`Layers.change_eq`) and passed on from there.

What a session makes of a record follows (`Session.keys_go_up_with_layers`): which part of the
layers it can change, that the keys go up exactly when it does, and that the modifiers stay.
-/

set_option autoImplicit false

namespace TapHold

/-! ## What a change leaves alone -/

namespace Layers

variable {l : Layers} {target : LayerTarget} {c : LayerChange}

/-- A change of the keymap layers leaves the overlays alone. -/
theorem overlayMask_apply (l : Layers) (c : LayerChange) :
    (l.apply .keymap c).overlayMask = l.overlayMask := by
  cases c <;> rfl

/-- A change of the overlays leaves the keymap layers alone. -/
theorem keymap_apply (l : Layers) (c : LayerChange) :
    (l.apply .overlay c).defaultLayer = l.defaultLayer ∧
      (l.apply .overlay c).keymapMask = l.keymapMask := by
  cases c <;> exact ⟨rfl, rfl⟩

/-- The default layer is changed by a reset of the keymap layers only. -/
theorem defaultLayer_apply (moved : (l.apply target c).defaultLayer ≠ l.defaultLayer) :
    target = .keymap ∧ ∃ n, c = .reset n := by
  cases target with
  | overlay => exact absurd (keymap_apply l c).1 moved
  | keymap =>
    cases c with
    | reset n => exact ⟨rfl, n, rfl⟩
    | _ => exact absurd rfl moved

end Layers

/-- Only a reset operation resets, and it does so to its own layer. -/
theorem LayerOp.eq_reset_of_change? {op : LayerOp} {n m : LayerNumber} {pressed : Bool}
    {tapped toggle : Nat} (h : op.change? n pressed tapped toggle = some (.reset m)) :
    m = n ∧ ∃ t, op = .reset t := by
  cases op with
  | reset t =>
    simp only [change?] at h
    split at h
    · cases h
      exact ⟨rfl, t, rfl⟩
    · cases h
  | setClear | onOff | offOn =>
    cases pressed <;> cases h
  | tapKey code | tapToggle | invert t | on t | off t | set t =>
    simp only [change?] at h
    repeat' split at h
    all_goals cases h

/-! ## Calls that let keys go -/

/-- Whether keys go up at a call without their own releases. -/
def HostCall.clears : HostCall → Bool
  | .clearKeys => true
  | .clearAll => true
  | _ => false

/-- Whether keys go up at a request without their own releases. -/
def Request.clears : Request → Bool
  | .nothing => false
  | .call c => c.clears
  | .under _ q => q.clears

/-- Where no keys go up, no call lets them go. -/
theorem Request.clears_of_mem_log {q : Request} (none : q.clears = false) (bits : Byte) :
    ∀ entry ∈ q.log bits, entry.2.clears = false := by
  induction q generalizing bits with
  | nothing => exact fun _ h => absurd h List.not_mem_nil
  | call c =>
    intro entry h
    rw [List.mem_singleton.mp h]
    exact none
  | under more q ih =>
    -- the two calls around the request add and set modifiers
    intro entry h
    rcases List.mem_cons.mp h with rfl | rest
    · rfl
    rcases List.mem_append.mp rest with inner | last
    · exact ih none _ entry inner
    · rw [List.mem_singleton.mp last]
      rfl

namespace Interpreter

/-! ## Actions that are no layer operations -/

theorem clears_register (i : Interpreter) (code : Keycode) :
    (i.register code).request.clears = false := by
  unfold register
  repeat' split
  all_goals rfl

theorem clears_unregister (i : Interpreter) (code : Keycode) :
    (i.unregister code).request.clears = false := by
  unfold unregister
  repeat' split
  all_goals rfl

theorem clears_strike (i : Interpreter) (code : Keycode) (pressed : Bool) :
    (i.strike code pressed).request.clears = false := by
  cases pressed with
  | true => exact clears_register i code
  | false => exact clears_unregister i code

theorem clears_shift (i : Interpreter) (bits : Byte) (pressed : Bool) :
    (i.shift bits pressed).request.clears = false := by
  cases pressed <;> rfl

theorem clears_strikeUnder (i : Interpreter) (mods : Mods) (code : Keycode) (pressed : Bool) :
    (i.strikeUnder mods code pressed).request.clears = false := by
  unfold strikeUnder
  split
  · exact clears_shift i _ _
  split
  · exact clears_register i code
  · exact clears_unregister i code

theorem clears_oneShotKey (i : Interpreter) (mods : Mods) (r : Record) :
    (i.oneShotKey mods r).request.clears = false := by
  unfold oneShotKey
  dsimp only
  split
  · exact clears_shift i _ _
  · repeat' split
    all_goals rfl

theorem clears_modsTapKey (i : Interpreter) (mods : Mods) (code : Keycode) (r : Record) (b : Bool) :
    (i.modsTapKey mods code r b).effect.asked.clears = false := by
  unfold modsTapKey
  split
  · exact clears_shift i _ _
  split
  · exact clears_shift i _ _
  · exact clears_strike i code _

/-! ## What a record does to the layers -/

variable {i : Interpreter} {km : Keymap} {r : Record} {b : Bool}

/-- **What an action does to the layers**: nothing, and then it lets no key go but its own, or it
is a layer operation whose change makes a difference, and then it lets the keys go and does nothing
else. -/
theorem act_cases (i : Interpreter) (action : Action) (r : Record) (b : Bool) :
    ((i.act action r b).interpreter.layers = i.layers ∧
        (i.act action r b).effect.asked.clears = false) ∨
      ∃ target n op c, action = .layer target n op ∧ i.settings.uses target = true ∧
        op.change? n r.event.pressed r.tap.count i.settings.toggle = some c ∧
        i.layers.apply target c ≠ i.layers ∧
        i.act action r b =
          ⟨i.withLayers (i.layers.apply target c), r, .request (.call .clearKeys)⟩ := by
  cases action with
  | none | transparent | usage | hook => exact Or.inl ⟨rfl, rfl⟩
  | key code => exact Or.inl ⟨layers_strike i code _, clears_strike i code _⟩
  | keyWithMods mods code =>
    exact Or.inl ⟨layers_strikeUnder i mods code _, clears_strikeUnder i mods code _⟩
  | modsTap mods tap =>
    cases tap with
    | oneShot => exact Or.inl ⟨layers_oneShotKey i mods r, clears_oneShotKey i mods r⟩
    | key code =>
      exact Or.inl ⟨layers_modsTapKey i mods code r b, clears_modsTapKey i mods code r b⟩
  | mouse code =>
    refine Or.inl ?_
    simp only [act]
    split
    · cases r.event.pressed <;> exact ⟨rfl, rfl⟩
    · exact ⟨rfl, rfl⟩
  | layer target n op =>
    rcases act_layer i target n op r b with ⟨used, told⟩ | ⟨-, told⟩
    · rw [told]
      rcases layerKey_cases i target n op r with
        ⟨c, change, key⟩ | ⟨code, -, -, key⟩ | ⟨-, key⟩
      · rw [key]
        rcases changeLayers_cases i target c with ⟨-, kept⟩ | ⟨moved, cleared⟩
        · rw [kept]
          exact Or.inl ⟨rfl, rfl⟩
        · rw [cleared]
          exact Or.inr ⟨target, n, op, c, rfl, used, change, moved, rfl⟩
      · rw [key]
        exact Or.inl ⟨layers_strike i code _, clears_strike i code _⟩
      · rw [key]
        exact Or.inl ⟨rfl, rfl⟩
    · rw [told]
      exact Or.inl ⟨rfl, rfl⟩

/-- What a record does to the layers, in the same way. -/
theorem dispatch_cases (i : Interpreter) (km : Keymap) (r : Record) (b : Bool) :
    ((i.dispatch km r b).interpreter.layers = i.layers ∧
        (i.dispatch km r b).effect.asked.clears = false) ∨
      ∃ target n op c, r.isTick = false ∧ i.resolve km r.event.key = .ok (.layer target n op) ∧
        i.settings.uses target = true ∧
        op.change? n r.event.pressed r.tap.count i.settings.toggle = some c ∧
        i.layers.apply target c ≠ i.layers ∧
        i.dispatch km r b =
          ⟨i.withLayers (i.layers.apply target c), r, .request (.call .clearKeys)⟩ := by
  cases tick : r.isTick with
  | true =>
    rw [Interpreter.dispatch, if_pos tick]
    exact Or.inl ⟨rfl, rfl⟩
  | false =>
    cases found : i.resolve km r.event.key with
    | error e =>
      rw [dispatch_of_error tick found]
      exact Or.inl ⟨rfl, rfl⟩
    | ok action =>
      rw [dispatch_of_ok tick found]
      rcases act_cases i action r b with kept | ⟨target, n, op, c, rfl, used, change, moved, told⟩
      · exact Or.inl kept
      · exact Or.inr ⟨target, n, op, c, rfl, rfl, used, change, moved, told⟩

end Interpreter

/-- Pressing or releasing a code. -/
def Operation.strike (code : Keycode) (pressed : Bool) : Operation :=
  if pressed then .register code else .unregister code

/-- A tapped layer key strikes its key code, if its family of layers is used. -/
theorem Interpreter.operate_of_tapped {i : Interpreter} {km : Keymap} {r : Record}
    {target : LayerTarget} {n : LayerNumber} {code : Keycode} (b : Bool)
    (found : i.resolve km r.event.key = .ok (.layer target n (.tapKey code)))
    (counted : 0 < r.tap.count) :
    (r.isTick = false ∧ i.settings.uses target = true ∧
        i.operate (.dispatch km r b) = i.operate (.strike code r.event.pressed)) ∨
      ((r.isTick = true ∨ i.settings.uses target = false) ∧
        i.operate (.dispatch km r b) = ⟨i, .nothing⟩) := by
  cases tick : r.isTick with
  | true =>
    refine Or.inr ⟨Or.inl rfl, ?_⟩
    simp only [operate, Interpreter.dispatch, tick, if_true]
    rfl
  | false =>
    have told := dispatch_of_ok (b := b) tick found
    rcases act_layer i target n (.tapKey code) r b with ⟨used, acts⟩ | ⟨unused, acts⟩
    · refine Or.inl ⟨rfl, used, ?_⟩
      rw [operate, told, acts, layerKey_of_tapped i target n code counted, Operation.strike]
      cases r.event.pressed <;> rfl
    · refine Or.inr ⟨Or.inr unused, ?_⟩
      rw [operate, told, acts]
      rfl

/-! ## Sessions -/

namespace Session

variable {η : Type} [Host η] {s : Session η} {km : Keymap} {r : Record}

/-- What a session makes of a tapped layer key. -/
theorem perform_of_tapped {target : LayerTarget} {n : LayerNumber} {code : Keycode} (b : Bool)
    (found : s.interpreter.resolve km r.event.key = .ok (.layer target n (.tapKey code)))
    (counted : 0 < r.tap.count) :
    (r.isTick = false ∧ s.interpreter.settings.uses target = true ∧
        s.perform (.dispatch km r b) = s.perform (.strike code r.event.pressed) ∧
        s.heard (.dispatch km r b) = s.heard (.strike code r.event.pressed)) ∨
      ((r.isTick = true ∨ s.interpreter.settings.uses target = false) ∧
        s.perform (.dispatch km r b) = s ∧ s.heard (.dispatch km r b) = []) := by
  rcases Interpreter.operate_of_tapped b found counted with ⟨real, used, same⟩ | ⟨still, same⟩
  · refine Or.inl ⟨real, used, ?_, ?_⟩
    · rw [perform, perform, same]
    · rw [heard, heard, same]
  · refine Or.inr ⟨still, ?_, ?_⟩
    · rw [perform, same]
      rfl
    · rw [heard, same]
      rfl

/-- **The keys go up when the layers change, and only then**, for every record that a session with a
steady host carries out. A desk that calls the host as the action goes along does the same.

The layers change at layer operations of a family that is used only. An operation of the keymap
layers leaves the overlays alone, one of the overlays leaves all else alone, and no operation but a
reset changes the default layer. If the layers after the record differ from those before, all that
the host hears is one call that lets the keys go; otherwise it hears no such call. The modifiers
stay at such a call. A layer key with a key code that was tapped leaves the layers as they are, and
strikes its key code and does nothing else, or nothing at all where its family is not used. -/
theorem keys_go_up_with_layers (s : Session η) (km : Keymap) (r : Record) (b : Bool)
    (steady : s.Steady [.dispatch km r b]) :
    let x := Operation.dispatch km r b
    let action := s.interpreter.resolve km r.event.key
    let before := s.interpreter.layers
    let after := (s.perform x).interpreter.layers
    ((s.desk.dispatch km r b).1 =
      ⟨(s.perform x).interpreter, ⟨⟨(s.perform x).host, s.heard x⟩, .none, []⟩⟩) ∧
    (after ≠ before → r.isTick = false ∧ ∃ target n op,
      action = .ok (.layer target n op) ∧ s.interpreter.settings.uses target = true) ∧
    (∀ n op, action = .ok (.layer .keymap n op) → after.overlayMask = before.overlayMask) ∧
    (∀ n op, action = .ok (.layer .overlay n op) →
      after.defaultLayer = before.defaultLayer ∧ after.keymapMask = before.keymapMask) ∧
    (after.defaultLayer ≠ before.defaultLayer →
      ∃ t, action = .ok (.layer .keymap after.defaultLayer (.reset t))) ∧
    (after ≠ before → s.heard x = [(Host.modifiers s.host, .clearKeys)]) ∧
    (after = before → ∀ entry ∈ s.heard x, entry.2.clears = false) ∧
    ((∃ entry ∈ s.heard x, entry.2.clears = true) →
      Host.modifiers (s.perform x).host = Host.modifiers s.host) ∧
    (∀ target n code, action = .ok (.layer target n (.tapKey code)) → 0 < r.tap.count →
      after = before ∧
        ((r.isTick = false ∧ s.interpreter.settings.uses target = true ∧
            s.perform x = s.perform (.strike code r.event.pressed) ∧
            s.heard x = s.heard (.strike code r.event.pressed)) ∨
          ((r.isTick = true ∨ s.interpreter.settings.uses target = false) ∧
            s.perform x = s ∧ s.heard x = []))) := by
  intro x action before after
  refine ⟨s.dispatch_desk km r b, ?_⟩
  obtain ⟨heard, bits⟩ := steady.heard
  rcases s.interpreter.dispatch_cases km r b with
    ⟨kept, none⟩ | ⟨target, n, op, c, real, found, used, change, moved, told⟩
  · have same : after = before := kept
    have clears : ∀ entry ∈ s.heard x, entry.2.clears = false := by
      rw [heard]
      exact Request.clears_of_mem_log none _
    refine ⟨fun moved => absurd same moved, fun _ _ _ => congrArg Layers.overlayMask same,
      fun _ _ _ => ⟨congrArg Layers.defaultLayer same, congrArg Layers.keymapMask same⟩,
      fun moved => absurd (congrArg Layers.defaultLayer same) moved,
      fun moved => absurd same moved, fun _ => clears, ?_,
      fun target n code found counted => ⟨same, perform_of_tapped b found counted⟩⟩
    rintro ⟨entry, mem, clear⟩
    cases (clears entry mem).symm.trans clear
  · have layers : after = before.apply target c :=
      congrArg (fun o : Outcome => o.interpreter.layers) told
    have asked : (s.interpreter.operate x).request = .call .clearKeys :=
      congrArg (fun o : Outcome => o.effect.asked) told
    rw [asked] at heard bits
    have unique {target' : LayerTarget} {n' : LayerNumber} {op' : LayerOp}
        (found' : action = .ok (.layer target' n' op')) :
        target' = target ∧ n' = n ∧ op' = op := by
      cases found'.symm.trans found
      exact ⟨rfl, rfl, rfl⟩
    refine ⟨fun _ => ⟨real, target, n, op, found, used⟩, ?_, ?_, ?_, fun _ => heard, ?_,
      fun _ => bits, ?_⟩
    · intro n' op' found'
      obtain ⟨rfl, -, -⟩ := unique found'
      rw [layers]
      exact Layers.overlayMask_apply before c
    · intro n' op' found'
      obtain ⟨rfl, -, -⟩ := unique found'
      rw [layers]
      exact Layers.keymap_apply before c
    · intro other
      rw [layers] at other ⊢
      obtain ⟨rfl, m, rfl⟩ := Layers.defaultLayer_apply other
      obtain ⟨rfl, t, rfl⟩ := LayerOp.eq_reset_of_change? change
      exact ⟨t, found⟩
    · intro same
      exact absurd (layers.symm.trans same) moved
    · intro target' n' code found' counted
      -- a tapped key makes no change
      obtain ⟨-, -, rfl⟩ := unique found'
      simp [LayerOp.change?, counted] at change

/-- A layer key goes down while a key and shift are held, at a host that reports: the key goes up,
and shift stays down. -/
theorem keys_go_up_under_shift :
    let km := Keymap.ofKeys fun _ => 0x83f4
    let host : ReportHost := ⟨64, [], ⟨2, KeySet.single 4, 0, 0, 0⟩⟩
    let s : Session ReportHost := ⟨.start .standard 0, host⟩
    let x := Operation.dispatch km (.ofEvent ⟨⟨0, 0⟩, true, ⟨0⟩⟩) false
    (s.perform x).interpreter.layers = ⟨0, 8, 0⟩ ∧ s.heard x = [(2, .clearKeys)] ∧
      (s.perform x).host = ⟨64, [.clearKeys], ⟨2, 0, 0, 0, 0⟩⟩ := by
  intro km host s x
  have steady : s.Steady [x] :=
    steady_reportHost ⟨ReportHost.lossless_of_room (by decide +kernel), trivial⟩
  obtain ⟨-, -, -, -, -, moved, -, kept, -⟩ := keys_go_up_with_layers s km _ _ steady
  have heard : s.heard x = [(2, .clearKeys)] := moved (by decide +kernel)
  have shift : Host.modifiers (s.perform x).host = 2 :=
    kept ⟨_, heard ▸ List.mem_singleton_self _, rfl⟩
  exact ⟨by decide +kernel, heard, by decide +kernel⟩

end Session

end TapHold
