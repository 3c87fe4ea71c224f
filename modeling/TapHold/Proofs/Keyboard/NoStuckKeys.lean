import TapHold.Proofs.Keyboard.Held

/-!
# No key is stuck

Whatever the layers do, a key, mouse key or usage that is down goes up again (`isIdle_of_run`). Some
key of the matrix answers for it (`Owes`): either its action holds the item as a tap and as a hold,
and the key is not at rest; or its action holds the item as a tap, and the release is due as that of
a tap. A layer key that is tapped may also be released as a hold. Then its layer was on and goes
off, or another press of the key is awaited, which is tapped or turns the layer on. Every change of
the layers lifts all items of this kind.
-/

set_option autoImplicit false

namespace TapHold

/-- An item that is no modifier is held as a tap and as a hold, or it is that of a tap. -/
theorem Action.holds_cases {settings : Settings} {action : Action} {tapped : Bool} {x : Item}
    (plain : x.isModifier = false) (h : action.holds settings tapped x = true) :
    (∀ t, action.holds settings t x = true) ∨
      (tapped = true ∧ ((∃ mods code, action = .modsTap mods (.key code)) ∨
        ∃ target n code, action = .layer target n (.tapKey code))) := by
  cases action with
  | none => cases h
  | transparent => cases h
  | hook kind id options => cases h
  | key code => exact Or.inl fun _ => h
  | keyWithMods mods code => exact Or.inl fun _ => h
  | usage page code => exact Or.inl fun _ => h
  | mouse code => exact Or.inl fun _ => h
  | modsTap mods tap =>
    cases tap with
    | oneShot => exact Or.inl fun _ => h
    | key code =>
      cases tapped with
      | true => exact Or.inr ⟨rfl, Or.inl ⟨mods, code, rfl⟩⟩
      | false =>
        cases x with
        | modifier bit => cases plain
        | _ => cases h
  | layer target n op =>
    rw [Action.holds, Bool.and_eq_true] at h
    cases op with
    | tapKey code =>
      exact Or.inr ⟨(Bool.and_eq_true_iff.mp h.2).1, Or.inr ⟨target, n, code, rfl⟩⟩
    | _ => cases h.2

namespace Arbiter

variable {km : Keymap} {a b : Arbiter} {out : List Emission} {x : Item}
  {down down' : Position → Bool} {o : Outlet ReportHost NoHooks} {key : Position} {r : Record}

/-- The key answers for an item that is down. -/
inductive Owes (km : Keymap) (down : Position → Bool) (a : Arbiter) (key : Position) (x : Item) :
    Prop where
  /-- Every release of the key lifts the item. -/
  | always {action : Action} (bound : a.interpreter.resolve km key = .ok action)
      (holds : ∀ t, action.holds a.interpreter.settings t x = true) (busy : ¬ AtRest down a key)
  /-- The release of a tap lifts the item, and it is due. -/
  | tapped {action : Action} (bound : a.interpreter.resolve km key = .ok action)
      (holds : action.holds a.interpreter.settings true x = true) (due : Due down a key true)
  /-- The release of a tap lifts the item, and that of a hold changes the layers, or the next press
  does. -/
  | layer {target : LayerTarget} {n : LayerNumber} {code : Keycode}
      (bound : a.interpreter.resolve km key = .ok (.layer target n (.tapKey code)))
      (holds : (Action.layer target n (.tapKey code)).holds a.interpreter.settings true x = true)
      (state : (a.interpreter.layers.isOn target n = true ∧ ¬ AtRest down a key) ∨
        PressAwaited a key)

theorem Emits.settings (h : Emits km a out b) :
    b.interpreter.settings = a.interpreter.settings := by
  rcases h with ⟨-, same⟩ | ⟨r, -, -, -, -, same⟩
  · rw [same]
  · rw [same]
    exact Interpreter.settings_dispatch _ _ _ _

/-- The keys are bound as before a step that changes no layers. -/
theorem Emits.resolve (h : Emits km a out b) (layers : b.interpreter.layers = a.interpreter.layers)
    (key : Position) : b.interpreter.resolve km key = a.interpreter.resolve km key := by
  unfold Interpreter.resolve
  rw [layers, h.settings]

/-- The press of a key answers for the items that it puts down. -/
theorem owes_of_press (s : Step km down a out down' b) {d : Dispatched}
    (hd : out = [.dispatched d]) (pressed : d.given.event.pressed = true)
    (layers : b.interpreter.layers = a.interpreter.layers) {action : Action}
    (bound : a.interpreter.resolve km d.given.event.key = .ok action) (plain : x.isModifier = false)
    (holds : action.holds a.interpreter.settings (decide (0 < d.settled.tap.count)) x = true) :
    Owes km down' b d.given.event.key x := by
  have bound' := (s.emits.resolve layers d.given.event.key).trans bound
  have settings := s.emits.settings
  rcases Action.holds_cases plain holds with every | ⟨counted, kind⟩
  · exact .always bound' (settings ▸ every) (s.pressed _ ⟨d, hd, rfl, pressed⟩)
  rw [counted] at holds
  rcases s.tapped d hd pressed (of_decide_eq_true counted) with due | ⟨-, other, press⟩
  · exact .tapped bound' (settings ▸ holds) due
  rcases kind with ⟨mods, code, rfl⟩ | ⟨target, n, code, rfl⟩
  · -- such a key would have been overruled again
    have modsTap := (a.interpreter.isModsTapKeyAt_iff km d.given.event.key).mpr ⟨mods, code, bound⟩
    cases other.symm.trans modsTap
  · exact .layer bound' (settings ▸ holds) (Or.inr press)

/-- A key goes on to answer for an item when nothing of it is dispatched. -/
theorem Owes.keep (h : Owes km down a key x) (s : Step km down a out down' b)
    (other : ∀ d, out = [.dispatched d] → d.given.event.key ≠ key)
    (layers : b.interpreter.layers = a.interpreter.layers) : Owes km down' b key x := by
  have bindings := s.emits.resolve layers key
  have settings := s.emits.settings
  have unreleased (t : Bool) : ¬ Released out key t := by
    rintro ⟨d, hd, same, -⟩
    exact other d hd same
  have unpressed : ¬ Pressed out key := by
    rintro ⟨d, hd, same, -⟩
    exact other d hd same
  have busy (before : ¬ AtRest down a key) : ¬ AtRest down' b key := by
    rcases s.busy key before with after | ⟨t, released⟩
    · exact after
    · exact absurd released (unreleased t)
  cases h with
  | always bound holds before =>
    exact .always (bindings.trans bound) (settings ▸ holds) (busy before)
  | tapped bound holds due =>
    exact .tapped (bindings.trans bound) (settings ▸ holds)
      ((s.due key true due).resolve_right (unreleased true))
  | layer bound holds state =>
    refine .layer (bindings.trans bound) (settings ▸ holds) ?_
    rcases state with ⟨on, before⟩ | press
    · exact Or.inl ⟨layers ▸ on, busy before⟩
    · exact Or.inr ((s.press key press).resolve_right unpressed)

/-- A layer key that is no tap and changes no layers finds its layer on at its press and off at its
release. -/
theorem isOn_of_layerKey {target : LayerTarget} {n : LayerNumber} {code : Keycode}
    (real : r.isTick = false) (zero : r.tap.count = 0)
    (bound : a.interpreter.resolve km r.event.key = .ok (.layer target n (.tapKey code)))
    (holds : (Action.layer target n (.tapKey code)).holds a.interpreter.settings true x = true)
    (unchanged : (a.outcome km r).interpreter.layers = a.interpreter.layers) :
    a.interpreter.layers.isOn target n = r.event.pressed := by
  rw [Action.holds, Bool.and_eq_true] at holds
  rw [outcome, Interpreter.dispatch_of_ok real bound] at unchanged
  exact Interpreter.isOn_of_hold holds.1 zero unchanged

/-- A key that is released without lifting an item goes on to answer for it. -/
theorem Owes.release (h : Owes km down a r.event.key x) (s : Step km down a out down' b)
    {effect : Effect} {settled : Record} {synthetic : Bool}
    (hd : out = [.dispatched ⟨r, settled, effect, synthetic⟩])
    (real : r.isTick = false) (up : r.event.pressed = false)
    (kept : ∀ action, a.interpreter.resolve km r.event.key = .ok action →
      action.holds a.interpreter.settings (decide (0 < r.tap.count)) x = false)
    (unchanged : (a.outcome km r).interpreter.layers = a.interpreter.layers)
    (layers : b.interpreter.layers = a.interpreter.layers) : Owes km down' b r.event.key x := by
  have settings := s.emits.settings
  have bindings := s.emits.resolve layers r.event.key
  cases h with
  | always bound holds busy => cases (kept _ bound).symm.trans (holds _)
  | tapped bound holds due =>
    rcases s.due _ true due with after | ⟨d, hd', -, -, kind⟩
    · exact .tapped (bindings.trans bound) (settings ▸ holds) after
    · obtain rfl := Emission.eq_of_dispatched (hd.symm.trans hd')
      have notHeld := kept _ bound
      rw [kind] at notHeld
      cases notHeld.symm.trans holds
  | layer bound holds state =>
    have zero : r.tap.count = 0 := by
      apply Nat.eq_zero_of_not_pos
      intro counted
      have notHeld := kept _ bound
      rw [decide_eq_true counted] at notHeld
      cases notHeld.symm.trans holds
    have off := isOn_of_layerKey real zero bound holds unchanged
    rw [up] at off
    rcases state with ⟨on, -⟩ | press
    · cases off.symm.trans on
    · refine .layer (bindings.trans bound) (settings ▸ holds) (Or.inr ?_)
      rcases s.press _ press with after | ⟨d, hd', -, pressed⟩
      · exact after
      · obtain rfl := Emission.eq_of_dispatched (hd.symm.trans hd')
        cases up.symm.trans pressed

/-- A key that is pressed goes on to answer for an item. -/
theorem Owes.press (h : Owes km down a r.event.key x) (s : Step km down a out down' b)
    {effect : Effect} {synthetic : Bool}
    (hd : out = [.dispatched ⟨r, (a.outcome km r).record, effect, synthetic⟩])
    (real : r.isTick = false) (pressed : r.event.pressed = true) (plain : x.isModifier = false)
    (unchanged : (a.outcome km r).interpreter.layers = a.interpreter.layers)
    (layers : b.interpreter.layers = a.interpreter.layers) : Owes km down' b r.event.key x := by
  have settings := s.emits.settings
  have bindings := s.emits.resolve layers r.event.key
  have busy : ¬ AtRest down' b r.event.key := s.pressed _ ⟨_, hd, rfl, pressed⟩
  cases h with
  | always bound holds before => exact .always (bindings.trans bound) (settings ▸ holds) busy
  | tapped bound holds due =>
    rcases s.due _ true due with after | ⟨d, hd', -, up, -⟩
    · exact .tapped (bindings.trans bound) (settings ▸ holds) after
    · obtain rfl := Emission.eq_of_dispatched (hd.symm.trans hd')
      cases up.symm.trans pressed
  | layer bound holds state =>
    -- a tap strikes the key code again; otherwise the layer was on and stays on
    have same : (a.outcome km r).record = r := by
      rw [outcome, Interpreter.dispatch_of_ok real bound, Interpreter.record_act]
      rfl
    cases counted : decide (0 < (a.outcome km r).record.tap.count) with
    | true => exact owes_of_press s hd pressed layers bound plain (counted ▸ holds)
    | false =>
      have zero : r.tap.count = 0 := by
        rw [same] at counted
        exact Nat.eq_zero_of_not_pos (of_decide_eq_false counted)
      have on := isOn_of_layerKey real zero bound holds unchanged
      rw [pressed] at on
      exact .layer (bindings.trans bound) (settings ▸ holds) (Or.inl ⟨layers ▸ on, busy⟩)

/-- After a step some key answers for every item that is down, if one did so before. -/
theorem owes_step (s : Step km down a out down' b) (plain : x.isModifier = false)
    (before : o.host.held.has x = true → ∃ key, Owes km down a key x)
    (after : (o.emitAll out).host.held.has x = true) : ∃ key, Owes km down' b key x := by
  rcases held_step s.emits after with ⟨rfl, same, held⟩ | ⟨r, synthetic, rfl, real, same, cause⟩
  · obtain ⟨key, owes⟩ := before held
    exact ⟨key, owes.keep s (fun d hd => by cases hd) (congrArg Interpreter.layers same)⟩
  have unchanged := layers_of_held real plain after
  have layers : b.interpreter.layers = a.interpreter.layers := by rw [same, unchanged]
  rcases cause with ⟨pressed, action, bound, holds⟩ | ⟨held, kept⟩
  · exact ⟨_, owes_of_press s rfl pressed layers bound plain holds⟩
  obtain ⟨key, owes⟩ := before held
  refine ⟨key, ?_⟩
  by_cases own : r.event.key = key
  · subst own
    cases pressed : r.event.pressed with
    | true => exact owes.press s rfl real pressed plain unchanged layers
    | false => exact owes.release s rfl real pressed (kept pressed) unchanged layers
  · refine owes.keep s (fun d hd => ?_) layers
    obtain rfl := Emission.eq_of_dispatched hd
    exact own

/-- What holds of a keyboard at all times: the held events are in order, and some key answers for
every item that is down and no modifier. -/
structure Tended (km : Keymap) (down : Position → Bool) (a : Arbiter)
    (o : Outlet ReportHost NoHooks) : Prop where
  orderly : Orderly down a
  chronological : Chronological a
  scanned : Scanned km a
  owed : ∀ x : Item, x.isModifier = false → o.host.held.has x = true → ∃ key, Owes km down a key x

theorem tended_of_nothing (hc : a.candidate = none) (hl : a.line = [])
    (nothing : ∀ x, o.host.held.has x = false) : Tended km down a o where
  orderly := orderly_of_nothing hc hl
  chronological := by simp [Chronological, heldEvents, hc, hl]
  scanned := fun c h => by cases (undecided?_of_none hc).symm.trans h
  owed := fun x _ held => by cases (nothing x).symm.trans held

theorem invariant_tended (km : Keymap) : Invariant km (Tended km) where
  orderly := fun t => t.orderly
  move := by
    intro down a out b o m t
    refine ⟨orderly_move m t.orderly, chronological_move m t.chronological,
      scanned_move t.orderly m t.scanned, fun x plain held => ?_⟩
    by_cases kept : out = [.overflow]
    · -- an overflow lifts everything
      subst kept
      cases (Outlet.has_overflow x).symm.trans held
    · exact owes_step (step_move t.orderly t.chronological m kept) plain (t.owed x plain) held
  arrival := by
    intro down a out b o e arrival real next late t
    have s := step_arrival t.orderly t.chronological t.scanned arrival real next late
    exact ⟨orderly_arrival arrival real next t.orderly,
      chronological_arrival arrival late t.chronological, scanned_arrival arrival t.scanned,
      fun x plain => owes_step s plain (t.owed x plain)⟩
  reset := fun _ => tended_of_nothing rfl rfl Outlet.has_reset
  read := fun n t => ⟨t.orderly, t.chronological, t.scanned, t.owed⟩

/-- A key that answers for an item is not at rest. -/
theorem Owes.not_atRest (h : Owes km down a key x) : ¬ AtRest down a key := by
  cases h with
  | always _ _ busy => exact busy
  | tapped _ _ due => exact not_atRest_of_head due.next
  | layer _ _ state =>
    rcases state with ⟨-, busy⟩ | press
    · exact busy
    · exact press.not_atRest

end Arbiter

namespace Keyboard

/-- Whenever all keys are up, nothing waits and no candidate is undecided, the host holds no key, no
mouse key and no usage. -/
theorem isIdle_of_run (km : Keymap) (settings : Settings) (layer : LayerNumber)
    (capacity channel : Nat) (xs : List Stimulus)
    (admitted : (start settings layer capacity (.empty channel) NoHooks.none).admitsAll km allUp xs)
    (up : ∀ key, xs.foldl Stimulus.after allUp key = false) :
    let last := xs.foldl (step km) (start settings layer capacity (.empty channel) NoHooks.none)
    last.arbiter.backlog.size = 0 →
      (∀ c, last.arbiter.candidate = some c → c.isUndecided = false) →
        last.outlet.host.held.isIdle = true := by
  intro last empty decided
  have tended : Arbiter.Tended km (xs.foldl Stimulus.after allUp) last.arbiter last.outlet :=
    (Arbiter.invariant_tended km).run xs admitted rfl (fun _ => rfl)
      (Arbiter.tended_of_nothing rfl rfl Held.has_nothing)
  apply Held.isIdle_of_has
  intro x plain
  rw [← Bool.not_eq_true]
  intro held
  obtain ⟨key, owes⟩ := tended.owed x plain held
  exact owes.not_atRest (Arbiter.atRest_of_settled (up key) empty decided)

/-- A key of another layer is down while its layer goes off. -/
theorem isIdle_of_layered_run :
    let km : Keymap := fun id key =>
      if key = ⟨0, 0⟩ then (if id.number = 0 then 0x8104 else 0x0001)
      else if id.number = 0 then 0x0005 else 0x0006
    let xs : List Stimulus :=
      [.event ⟨⟨0, 0⟩, true, ⟨10⟩⟩, .tick ⟨300⟩, .event ⟨⟨0, 1⟩, true, ⟨310⟩⟩, .read 1,
        .event ⟨⟨0, 0⟩, false, ⟨320⟩⟩, .event ⟨⟨0, 1⟩, false, ⟨330⟩⟩]
    let first := start .standard 0 8 (.empty 1) NoHooks.none
    first.admitsAll km allUp xs = true ∧
      ((xs.take 4).foldl (step km) first).outlet.host.held.isIdle = false ∧
      (xs.foldl (step km) first).outlet.host.held.isIdle = true := by
  intro km xs first
  have admitted : first.admitsAll km allUp xs = true := by decide +kernel
  have up : ∀ key, xs.foldl Stimulus.after allUp key = false := by
    intro key
    show (if key = ⟨0, 1⟩ then false else if key = ⟨0, 0⟩ then false else
      if key = ⟨0, 1⟩ then true else if key = ⟨0, 0⟩ then true else false) = false
    split_ifs <;> rfl
  have none : (xs.foldl (step km) first).arbiter.candidate = none := by decide +kernel
  exact ⟨admitted, by decide +kernel,
    isIdle_of_run km .standard 0 8 1 xs admitted up (by decide +kernel)
      fun c hc => by cases none.symm.trans hc⟩

end Keyboard

end TapHold
