import TapHold.Hook.Script
import TapHold.Host.CallLog
import TapHold.Proofs.Arbiter.Overflow
import TapHold.Proofs.Keyboard.Journal
import TapHold.Proofs.Keymap.Priority

/-!
# Keyboards without tap keys

A relay is a keyboard without an arbiter: it hands every key event to its interpreter as it comes,
and then every event that extensions queue on the way. Where no key has an action that depends on
tap or hold (`Keymap.TapFree`), the arbiter of a keyboard has nothing to decide. There is never a
candidate, nothing waits and nothing is lost, and the keyboard does what the relay does, whatever
the times of the events are and in whatever order keys go down and up (`mirrors_of_tapFree`).
-/

set_option autoImplicit false

namespace TapHold

/-! ## Keymaps without tap keys -/

namespace Keymap

/-- No key has an action that depends on tap or hold, whatever layers are on. -/
def TapFree (km : Keymap) (settings : Settings) : Prop :=
  ∀ (key : Position) (layers : Layers) (action : Action),
    km.resolve layers settings key = .ok action → action.dependsOnTap = false

/-- A keymap is free of tap keys if none of its codes stands for an action that depends on tap or
hold. -/
theorem tapFree_of_codes {km : Keymap} (settings : Settings)
    (plain : ∀ id key action, Action.ofCode (km id key) = .ok action →
      action.dependsOnTap = false) :
    km.TapFree settings := by
  intro key layers action found
  have chosen := km.chosen_boundCode layers settings key
  unfold resolve at found
  generalize km.boundCode layers settings.overlays key = code at chosen found
  cases chosen with
  | active | default => exact plain _ key action found
  | nothing =>
    obtain rfl : Action.none = action := Except.ok.inj found
    rfl

theorem TapFree.isTapHoldKey {km : Keymap} {i : Interpreter} (free : km.TapFree i.settings)
    (key : Position) : i.isTapHoldKey km key = false := by
  unfold Interpreter.isTapHoldKey Interpreter.resolve
  split
  · rename_i action found
    rw [free key i.layers action found, Bool.and_false]
  · exact Bool.and_false _

end Keymap

/-! ## Relays -/

/-- An interpreter with its outlet, and nothing between the key events and them. -/
structure Relay (η χ : Type) where
  interpreter : Interpreter
  outlet : Outlet η χ
  /-- What has been handed to the interpreter, oldest first. -/
  handed : List Dispatched

namespace Relay

variable {η χ : Type} [Host η] [Hooks χ]

/-- A relay that has seen no event. -/
def start (settings : Settings) (layer : LayerNumber) (host : η) (hooks : χ) : Relay η χ :=
  ⟨.start settings layer, ⟨host, hooks, []⟩, []⟩

/-- Hands an event to the interpreter, as no tap and with no other press behind it, and performs the
effect. A tick is passed over. -/
def hand (d : Relay η χ) (km : Keymap) (e : KeyEvent) : Relay η χ :=
  if e.isTick then d
  else
    let o := d.interpreter.dispatch km (.ofEvent e) false
    ⟨o.interpreter, d.outlet.perform o.effect,
      d.handed ++ [⟨.ofEvent e, o.record, o.effect, false⟩]⟩

/-- The relay with other queued events. -/
def withInjected (d : Relay η χ) (events : List KeyEvent) : Relay η χ :=
  { d with outlet := { d.outlet with injected := events } }

theorem debt_hand (d : Relay η χ) (km : Keymap) (e : KeyEvent) :
    (d.hand km e).outlet.debt ≤ d.outlet.debt := by
  unfold hand
  split
  · exact Nat.le_refl _
  · exact Outlet.debt_perform _ _

theorem debt_hand_lt {d : Relay η χ} {e : KeyEvent} {rest : List KeyEvent} (km : Keymap)
    (h : d.outlet.injected = e :: rest) :
    ((d.withInjected rest).hand km e).outlet.debt < d.outlet.debt := by
  refine Nat.lt_of_le_of_lt (debt_hand _ km e) ?_
  simp [withInjected, Outlet.debt, h]

/-- Hands over the queued events until none is left. -/
def handInjected (d : Relay η χ) (km : Keymap) : Relay η χ :=
  match h : d.outlet.injected with
  | [] => d
  | e :: rest =>
    have := debt_hand_lt km h
    ((d.withInjected rest).hand km e).handInjected km
termination_by d.outlet.debt

/-- Hands over one event, and then every event that extensions queue on the way. -/
def process (d : Relay η χ) (km : Keymap) (e : KeyEvent) : Relay η χ :=
  (d.hand km e).handInjected km

theorem handInjected_of_nil {d : Relay η χ} (km : Keymap) (none : d.outlet.injected = []) :
    d.handInjected km = d := by
  unfold handInjected
  split
  · rfl
  · rename_i e rest some
    cases none.symm.trans some

theorem handInjected_of_cons {d : Relay η χ} {e : KeyEvent} {rest : List KeyEvent} (km : Keymap)
    (some : d.outlet.injected = e :: rest) :
    d.handInjected km = ((d.withInjected rest).hand km e).handInjected km := by
  rw [handInjected]
  split
  · rename_i none
    cases none.symm.trans some
  · rename_i some'
    obtain ⟨rfl, rfl⟩ := List.cons.inj (some.symm.trans some')
    rfl

end Relay

/-! ## Arbiters without tap keys -/

namespace Arbiter

variable {km : Keymap} {a : Arbiter} {e : KeyEvent}

/-- With no candidate and nothing in line, an event that is bound to no tap key is dispatched at
once, as no tap and with no other press behind it. -/
theorem handle_of_plain (hc : a.candidate = none) (hl : a.line = [])
    (plain : a.isTapHoldKey km e.key = false) :
    a.handle km e = ((a.dispatch km (.ofEvent e) false).arbiter,
      (a.dispatch km (.ofEvent e) false).emitted) := by
  have tried : a.attempt km (.ofEvent e) = a.pass km (.ofEvent e) := by
    simp only [attempt, hc, attemptFree, Record.event_ofEvent, plain, Bool.and_false,
      Bool.false_eq_true, if_false]
  have accepted : a.accept km e = ((a.dispatch km (.ofEvent e) false).arbiter,
      (a.dispatch km (.ofEvent e) false).emitted) := by
    simp only [accept, tried, pass]
  have empty : (a.dispatch km (.ofEvent e) false).arbiter.line = [] := by rw [line_dispatch, hl]
  unfold handle
  rw [accepted]
  dsimp only
  rw [drain_of_line km empty, List.append_nil]

end Arbiter

/-! ## Keyboards without tap keys -/

namespace Keyboard

variable {η χ : Type} [Host η] [Hooks χ]

/-- The keyboard has nothing to decide, is where the relay is, and has done what the relay has. -/
structure Mirrors (settings : Settings) (capacity : Nat) (told : List Note) (kb : Keyboard η χ)
    (d : Relay η χ) : Prop where
  arbiter : kb.arbiter = ⟨d.interpreter, .empty capacity, none⟩
  outlet : kb.outlet = d.outlet
  settings : d.interpreter.settings = settings
  emitted : emissions told = d.handed.map .dispatched

variable {km : Keymap} {settings : Settings} {capacity : Nat} {told : List Note}
  {kb : Keyboard η χ} {d : Relay η χ}

omit [Host η] [Hooks χ] in
theorem Mirrors.withInjected (h : Mirrors settings capacity told kb d) (events : List KeyEvent) :
    Mirrors settings capacity told (kb.withInjected events) (d.withInjected events) where
  arbiter := h.arbiter
  outlet := by rw [Keyboard.withInjected, Relay.withInjected, h.outlet]
  settings := h.settings
  emitted := h.emitted

/-- A keyboard handles one event as the relay hands it over. -/
theorem Mirrors.handle (free : km.TapFree settings) (h : Mirrors settings capacity told kb d)
    (e : KeyEvent) :
    Mirrors settings capacity (told ++ handled e (kb.arbiter.handle km e).2) (kb.handle km e)
      (d.hand km e) := by
  obtain ⟨a, o⟩ := kb
  obtain ⟨rfl, rfl, same, emitted⟩ := h
  have free' : km.TapFree d.interpreter.settings := same.symm ▸ free
  let a : Arbiter := ⟨d.interpreter, .empty capacity, none⟩
  have plain : a.isTapHoldKey km e.key = false := free'.isTapHoldKey e.key
  have handles := Arbiter.handle_of_plain (a := a) rfl rfl plain
  rw [Keyboard.handle, handles]
  cases tick : e.isTick with
  | true =>
    -- neither of them takes notice of a tick
    rw [Arbiter.dispatch_of_tick (r := .ofEvent e) _ km tick]
    have still : d.hand km e = d := if_pos tick
    rw [still]
    refine ⟨rfl, rfl, same, ?_⟩
    rw [emissions_append, emissions_handled, emitted, List.append_nil]
  | false =>
    rw [Arbiter.dispatch_of_real (r := .ofEvent e) _ km tick]
    have handed : d.hand km e = _ := if_neg (by simp [tick])
    rw [handed]
    refine ⟨rfl, rfl, ?_, ?_⟩
    · exact (Interpreter.settings_dispatch _ _ _ _).trans same
    · rw [emissions_append, emissions_handled, emitted, List.map_append]
      rfl

theorem Mirrors.injected (free : km.TapFree settings) (h : Mirrors settings capacity told kb d) :
    Mirrors settings capacity (told ++ kb.injectedNotes km) (kb.processInjected km)
      (d.handInjected km) := by
  -- by induction on the events that the keyboard has queued, which are those of the relay
  fun_induction processInjected kb km generalizing told d with
  | case1 kb none =>
    rw [injectedNotes_of_nil km none, List.append_nil,
      Relay.handInjected_of_nil km (h.outlet ▸ none)]
    exact h
  | case2 kb e rest some less ih =>
    rw [injectedNotes_of_cons km some, Relay.handInjected_of_cons km (h.outlet ▸ some),
      ← List.append_assoc]
    exact ih ((h.withInjected rest).handle free e)

theorem Mirrors.process (free : km.TapFree settings) (h : Mirrors settings capacity told kb d)
    (e : KeyEvent) :
    Mirrors settings capacity (told ++ kb.processNotes km e) (kb.process km e)
      (d.process km e) := by
  rw [processNotes, ← List.append_assoc]
  exact (h.handle free e).injected free

theorem Mirrors.events (free : km.TapFree settings) (h : Mirrors settings capacity told kb d)
    (es : List KeyEvent) :
    Mirrors settings capacity (told ++ kb.journal km (es.map .event))
      (es.foldl (fun kb e => kb.process km e) kb) (es.foldl (fun d e => d.process km e) d) := by
  induction es generalizing kb d told with
  | nil =>
    rw [List.map_nil, journal, List.append_nil]
    exact h
  | cons e es ih =>
    rw [List.map_cons, journal, ← List.append_assoc]
    exact ih (h.process free e)

/-- Where no key has an action that depends on tap or hold, a keyboard is a relay. After any events,
ticks among them, there is no candidate and nothing waits; the layers, the one-shot modifiers, the
host and the extensions are those of the relay, whatever they are; and what has left the arbiter is
what the relay has handed over, in the same order and with the same effects, each record as no tap,
so nothing was lost. -/
theorem mirrors_of_tapFree {km : Keymap} {settings : Settings} (free : km.TapFree settings)
    (layer : LayerNumber) (capacity : Nat) (host : η) (hooks : χ) (es : List KeyEvent) :
    let first := start settings layer capacity host hooks
    let kb := es.foldl (fun kb e => kb.process km e) first
    let relay := es.foldl (fun d e => d.process km e) (Relay.start settings layer host hooks)
    kb.arbiter.candidate = none ∧ kb.arbiter.backlog.size = 0 ∧
      kb.arbiter.interpreter = relay.interpreter ∧ kb.outlet = relay.outlet ∧
      emissions (first.journal km (es.map .event)) = relay.handed.map .dispatched := by
  intro first kb relay
  have begins : Mirrors settings capacity [] first (Relay.start settings layer host hooks) :=
    ⟨rfl, rfl, rfl, rfl⟩
  obtain ⟨arbiter, outlet, -, emitted⟩ := begins.events free es
  have nothing : kb.arbiter = ⟨relay.interpreter, .empty capacity, none⟩ := arbiter
  rw [nothing]
  exact ⟨rfl, rfl, rfl, outlet, emitted⟩

/-- A layer key, a macro that queues a whole stroke of a key, and edges that do not come in turn. -/
theorem mirrors_of_macro_run :
    let km : Keymap := fun id key =>
      if key.col = 1 then 0x81f4 else if key.col = 2 then 0xc001
      else if id = ⟨.keymap, 1⟩ then 0x0005 else 0x0004
    let hooks : ScriptHooks := ⟨[⟨.playMacro, 1, some true, 1, [.call (.addModifiers 2),
      .inject ⟨0, 0⟩ true 1, .inject ⟨0, 0⟩ false 2]⟩], []⟩
    let es : List KeyEvent := [⟨⟨0, 1⟩, true, ⟨0⟩⟩, ⟨⟨0, 2⟩, true, ⟨0xffff⟩⟩, .tick ⟨500⟩,
      ⟨⟨0, 1⟩, false, ⟨3⟩⟩, ⟨⟨0, 0⟩, false, ⟨2⟩⟩]
    let first := start .standard 0 0 CallLog.empty hooks
    let kb := es.foldl (fun kb e => kb.process km e) first
    let relay := es.foldl (fun d e => d.process km e)
      (Relay.start .standard 0 CallLog.empty hooks)
    km.TapFree .standard ∧
      relay.outlet.host.calls = [.clearKeys, .addModifiers 2, .register 5, .unregister 5,
        .clearKeys, .unregister 4] ∧
      kb.arbiter.candidate = none ∧ kb.outlet = relay.outlet ∧
      emissions (first.journal km (es.map .event)) = relay.handed.map .dispatched := by
  intro km hooks es first kb relay
  have free : km.TapFree .standard := by
    apply Keymap.tapFree_of_codes
    intro id key action found
    dsimp only [km] at found
    split_ifs at found <;> cases found <;> rfl
  obtain ⟨free', -, -, same, emitted⟩ :=
    mirrors_of_tapFree free 0 0 CallLog.empty hooks es
  exact ⟨free, by decide +kernel, free', same, emitted⟩

end Keyboard

end TapHold
