import TapHold.Proofs.Arbiter.Alone
import TapHold.Proofs.Interpreter.OneShot
import TapHold.Proofs.Keyboard.Heard

/-!
# A one-shot key is tapped

The press of a tapped one-shot key asks nothing of the host, it arms modifiers for the next key. Its
release, though, lets these modifiers go as the release of a held key does
(`carryOut_oneShotTap`). What other keys hold is thus kept only where it has no modifier in common
with the one-shot key (`modifiers_of_oneShot_tap`): shift that is held at its own key is gone after
a tap of one-shot shift (`modifiers_of_shift_under_shift`). The next key is typed under the
modifiers from before the tap together with those of the one-shot key in any case.
-/

set_option autoImplicit false

namespace TapHold

/-! ## Modifier bytes -/

/-- Bits that were taken away and are added again are all there. -/
theorem Byte.andNot_or (bits mods : Byte) : bits &&& ~~~mods ||| mods = bits ||| mods := by
  ext i
  simp only [BitVec.getElem_or, BitVec.getElem_and, BitVec.getElem_not]
  cases mods[i] <;> simp

/-- Taking away bits changes nothing only where there are none of them. -/
theorem Byte.andNot_eq_iff (bits mods : Byte) :
    bits &&& ~~~mods = bits ↔ bits &&& mods = 0 := by
  simp only [BitVec.eq_of_getElem_eq_iff, BitVec.getElem_and, BitVec.getElem_not,
    BitVec.ofNat_eq_ofNat, BitVec.getElem_zero]
  refine forall₂_congr fun i _ => ?_
  cases bits[i] <;> cases mods[i] <;> simp

/-! ## What is asked of the host -/

namespace Interpreter

variable {i : Interpreter} {km : Keymap} {p r q : KeyEvent} {mods : Mods} {code : Keycode}

/-- A tap of a one-shot key arms its modifiers, and lets them go at the host. -/
theorem carryOut_oneShotTap (on : i.settings.oneShot = true) (real : p.isTick = false)
    (down : p.pressed = true) (up : r.pressed = false) (same : r.key = p.key)
    (bound : i.resolve km p.key = .ok (.modsTap mods .oneShot)) :
    (i.carryOut km [⟨p, ⟨1, false⟩⟩, ⟨r, ⟨1, false⟩⟩]).1 =
        { i with oneShot := i.oneShot.start mods.byte p.time } ∧
      (i.carryOut km [⟨p, ⟨1, false⟩⟩, ⟨r, ⟨1, false⟩⟩]).2.map Emission.asked =
        [.nothing, .call (.removeModifiers mods.byte)] := by
  let armed : Interpreter := { i with oneShot := i.oneShot.start mods.byte p.time }
  have pressing : i.dispatch km ⟨p, ⟨1, false⟩⟩ false =
      ⟨armed, ⟨p, ⟨1, false⟩⟩, .request .nothing⟩ := by
    rw [dispatch_of_ok (r := ⟨p, ⟨1, false⟩⟩) real bound]
    simp [act, oneShotKey, on, down, Response.outcome, armed]
  have real' : r.isTick = false := (Arbiter.isTick_of_key same).trans real
  have bound' : armed.resolve km r.key = .ok (.modsTap mods .oneShot) := same ▸ bound
  have releasing : armed.dispatch km ⟨r, ⟨1, false⟩⟩ false =
      ⟨armed, ⟨r, ⟨1, false⟩⟩, .request (.call (.removeModifiers mods.byte))⟩ := by
    rw [dispatch_of_ok (r := ⟨r, ⟨1, false⟩⟩) real' bound']
    simp [act, oneShotKey, on, up, Response.outcome, shift, armed]
  simp only [carryOut, pressing, releasing, List.map_cons, List.map_nil]
  exact ⟨rfl, rfl⟩

/-- The press of a key that strikes a code presses that code. -/
theorem asked_key (real : q.isTick = false) (down : q.pressed = true)
    (bound : i.resolve km q.key = .ok (.key code)) :
    (i.carryOut km [.ofEvent q]).2.map Emission.asked = [(i.register code).request] := by
  have struck := dispatch_of_ok (r := .ofEvent q) (b := false) real bound
  simp only [carryOut, struck, List.map_cons, List.map_nil, Emission.asked, act, strike,
    Record.event_ofEvent, down, if_true, Response.outcome, Effect.asked]

/-- Modifiers that have just been armed are given to the next key, if they are any. -/
theorem request_register_started (on : i.settings.oneShot = true)
    (enabled : i.oneShot.disabled = false) (isKey : code.isKey = true) (bits : Byte) (now : Time) :
    (Interpreter.register { i with oneShot := i.oneShot.start bits now } code).request =
      if bits = 0 then .call (.register code) else .under bits (.call (.register code)) := by
  let started : Interpreter := { i with oneShot := i.oneShot.start bits now }
  by_cases empty : bits = 0
  · have unarmed : started.oneShot.isArmed = false := by
      simp [OneShot.isArmed, OneShot.start, started, empty]
    rw [if_pos empty]
    exact congrArg Response.request (register_unarmed isKey unarmed)
  · have armed : started.oneShot.isArmed = true := by
      simpa [OneShot.isArmed, OneShot.start, started, enabled] using empty
    rw [if_neg empty]
    exact congrArg Response.request (register_armed (i := started) on isKey armed)

end Interpreter

namespace Arbiter

variable {km : Keymap} {a : Arbiter} {p r q : KeyEvent} {mods : Mods} {code : Keycode}

/-- Where nothing is to be decided and one-shot modifiers are at work, `p` and `r` tap a one-shot
key with the modifiers `mods`. Then `q` presses an ordinary key with the code `code`. -/
structure TapsOneShot (km : Keymap) (a : Arbiter) (p r q : KeyEvent) (mods : Mods)
    (code : Keycode) : Prop where
  idle : a.candidate = none
  empty : a.line = []
  on : a.interpreter.settings.oneShot = true
  enabled : a.interpreter.oneShot.disabled = false
  bound : a.interpreter.resolve km p.key = .ok (.modsTap mods .oneShot)
  ordinary : a.interpreter.resolve km q.key = .ok (.key code)
  isKey : code.isKey = true
  down : p.pressed = true
  up : r.pressed = false
  same : r.key = p.key
  inTerm : r.time.isWithin p.time a.term = true
  next : q.pressed = true
  real : p.isTick = false
  real' : q.isTick = false

/-- What the host is asked for when a one-shot key is tapped, and then an ordinary key goes down. -/
theorem TapsOneShot.asked (taps : TapsOneShot km a p r q mods code)
    (room : 0 < a.backlog.capacity) :
    let pressed := (a.handle km p).1
    let tapped := (pressed.handle km r).1
    (a.handle km p).2.map Emission.asked = [] ∧
      (pressed.handle km r).2.map Emission.asked = [.nothing, .call (.removeModifiers mods.byte)] ∧
      (tapped.handle km q).2.map Emission.asked = [if mods.byte = 0 then .call (.register code)
        else .under mods.byte (.call (.register code))] := by
  intro pressed tapped
  -- the press is undecided, and its release makes it a tap
  have press := handle_press_alone taps.empty taps.idle taps.down
    (Interpreter.isTapHoldKey_of_resolve taps.real taps.bound)
  have released : pressed.handle km r =
      a.carried km [⟨p, ⟨1, false⟩⟩, ⟨r, ⟨1, false⟩⟩] (some ⟨r, ⟨1, false⟩⟩) := by
    have term : (a.carried km [] (some ⟨p, ⟨0, false⟩⟩)).1.term = a.term := term_carried a km _ _
    rw [show pressed = _ from congrArg Prod.fst press]
    exact handle_release_tap rfl rfl room taps.down taps.real taps.up taps.same
      (term ▸ taps.inTerm)
  obtain ⟨arms, takes⟩ := Interpreter.carryOut_oneShotTap taps.on taps.real taps.down taps.up
    taps.same taps.bound
  -- then another key goes down
  have state : tapped = _ := congrArg Prod.fst released
  have interpreter : tapped.interpreter = { a.interpreter with
      oneShot := a.interpreter.oneShot.start mods.byte p.time } := by
    rw [state]
    exact arms
  have bound : tapped.interpreter.resolve km q.key = .ok (.key code) := by
    rw [interpreter]
    exact taps.ordinary
  have other : q.key ≠ r.key := by
    intro same
    cases taps.ordinary.symm.trans (same ▸ taps.same ▸ taps.bound)
  obtain ⟨d, next⟩ := handle_press_plain km (a := tapped) (c := ⟨r, ⟨1, false⟩⟩)
    (by rw [state]; rfl) (by rw [state]; rfl) taps.up taps.real' taps.next other
    (Interpreter.isTapHoldKey_of_resolve taps.real' bound)
  refine ⟨by rw [press]; rfl, by rw [released]; exact takes, ?_⟩
  rw [next, ← Interpreter.request_register_started taps.on taps.enabled taps.isKey mods.byte p.time,
    ← interpreter]
  exact Interpreter.asked_key taps.real' taps.next bound

end Arbiter

/-! ## What is heard -/

namespace Keyboard

variable {η : Type} [Host η] {km : Keymap} {kb : Keyboard η NoHooks} {layer : LayerNumber}
  {capacity : Nat}

/-- No event is injected without extensions. -/
theorem Reached.uninjected (h : kb.Reached km layer capacity) : kb.outlet.injected = [] := by
  obtain ⟨settings, host, calls, rfl⟩ := h
  exact injected_calls calls rfl

/-- No call changes the room of the backlog. -/
theorem Reached.room (h : kb.Reached km layer capacity) :
    kb.arbiter.backlog.capacity = capacity := by
  obtain ⟨settings, host, calls, rfl⟩ := h
  exact ((Arbiter.lasting_faithful km capacity).calls calls
    (Arbiter.faithful_start settings layer capacity)).room

/-- **Tapping a one-shot key takes its modifiers off the host**, whoever holds them, as long as the
host does what it is asked to.

The press asks nothing of the host. The release takes away the modifiers of the one-shot key, so the
byte from before the tap stays as it is only where it has none of them. The ordinary key goes down
under the byte from before the tap and the modifiers of the one-shot key. Afterwards the byte is
again what the release has left. -/
theorem modifiers_of_oneShot_tap (km : Keymap) (layer : LayerNumber) (capacity : Nat)
    (kb : Keyboard η NoHooks) (p r q : KeyEvent) (mods : Mods) (code : Keycode)
    (reached : kb.Reached km layer capacity) (room : 0 < capacity)
    (taps : kb.arbiter.TapsOneShot km p r q mods code)
    (steady : kb.Steady km [.event p, .event r, .event q]) :
    let bits := Host.modifiers kb.outlet.host
    let left := bits &&& ~~~mods.byte
    let pressed := kb.process km p
    let tapped := pressed.process km r
    kb.heard km (.event p) = [] ∧
      pressed.heard km (.event r) = [(bits, .removeModifiers mods.byte)] ∧
      Host.modifiers tapped.outlet.host = left ∧
      (left = bits ↔ bits &&& mods.byte = 0) ∧
      tapped.heard km (.event q) = (if mods.byte = 0 then [(bits, .register code)] else
        [(left, .addModifiers mods.byte), (bits ||| mods.byte, .register code),
          (bits ||| mods.byte, .setModifiers left)]) ∧
      Host.modifiers (tapped.process km q).outlet.host = left := by
  intro bits left pressed tapped
  have none := reached.uninjected
  have none' : pressed.outlet.injected = [] := injected_process km p none
  have none'' : tapped.outlet.injected = [] := injected_process km r none'
  have state : pressed.arbiter = (kb.arbiter.handle km p).1 :=
    congrArg Keyboard.arbiter (process_eq_handle km p none)
  have state' : tapped.arbiter = (pressed.arbiter.handle km r).1 :=
    congrArg Keyboard.arbiter (process_eq_handle km r none')
  obtain ⟨asked, asked', asked''⟩ := taps.asked (reached.room ▸ room)
  rw [← state] at asked' asked''
  rw [← state'] at asked''
  obtain ⟨heard, byte⟩ := heard_of_steady none steady
  obtain ⟨heard', byte'⟩ := heard_of_steady none' steady.2.2
  obtain ⟨heard'', byte''⟩ := heard_of_steady none'' steady.2.2.2.2
  rw [asked] at heard byte
  replace byte : Host.modifiers pressed.outlet.host = bits := byte
  rw [asked', byte] at heard' byte'
  replace byte' : Host.modifiers tapped.outlet.host = left := byte'
  rw [asked'', byte'] at heard'' byte''
  refine ⟨heard, heard', byte', Byte.andNot_eq_iff bits mods.byte, ?_⟩
  by_cases empty : mods.byte = 0
  · have same : left = bits := (Byte.andNot_eq_iff bits mods.byte).mpr (by simp [empty])
    rw [if_pos empty] at heard'' byte'' ⊢
    rw [← same]
    exact ⟨heard'', byte''⟩
  · rw [if_neg empty] at heard'' byte'' ⊢
    rw [← Byte.andNot_or bits mods.byte]
    exact ⟨heard'', byte''⟩

/-- Control and shift are held while one-shot shift is tapped: control stays, and the next key is
typed under both. -/
theorem modifiers_of_control_shift :
    let km := Keymap.ofKeys fun key =>
      if key.col = 0 then 0x0300 else if key.col = 1 then 0x2200 else 0x0004
    let press (col : Byte) (ms : Word) : KeyEvent := ⟨⟨0, col⟩, true, ⟨ms⟩⟩
    let release : KeyEvent := ⟨⟨0, 1⟩, false, ⟨20⟩⟩
    let kb := (start .standard 0 8 CallLog.empty NoHooks.none).process km (press 0 0)
    let tapped := (kb.process km (press 1 10)).process km release
    Host.modifiers kb.outlet.host = 3 ∧ Host.modifiers tapped.outlet.host = 1 ∧
      tapped.heard km (.event (press 2 30)) =
        [(1, .addModifiers 2), (3, .register 4), (3, .setModifiers 1)] ∧
      Host.modifiers (tapped.process km (press 2 30)).outlet.host = 1 := by
  intro km press release kb tapped
  have taps : kb.arbiter.TapsOneShot km (press 1 10) release (press 2 30) ⟨.left, 2⟩ 4 := by
    constructor <;> decide +kernel
  have bits : Host.modifiers kb.outlet.host = 3 := by decide +kernel
  obtain ⟨-, -, left, -, heard, after⟩ := modifiers_of_oneShot_tap km 0 8 kb (press 1 10) release
    (press 2 30) ⟨.left, 2⟩ 4 ⟨.standard, .empty, [.event (press 0 0)], rfl⟩ (by decide) taps
    (steady_callLog km kb [.event (press 1 10), .event release, .event (press 2 30)])
  rw [bits] at left heard after
  exact ⟨bits, left, heard, after⟩

/-- Shift that is held at its own key is gone after a tap of one-shot shift, although no report is
lost. The next key gets it once more, and then it is gone again, with its key still down. -/
theorem modifiers_of_shift_under_shift :
    let km := Keymap.ofKeys fun key =>
      if key.col = 0 then 0x00e1 else if key.col = 1 then 0x2200 else 0x0004
    let press (col : Byte) (ms : Word) : KeyEvent := ⟨⟨0, col⟩, true, ⟨ms⟩⟩
    let release : KeyEvent := ⟨⟨0, 1⟩, false, ⟨20⟩⟩
    let kb := (start .standard 0 8 (ReportHost.empty 64) NoHooks.none).process km (press 0 0)
    let tapped := (kb.process km (press 1 10)).process km release
    km.Uniform .standard ∧
      kb.arbiter.TapsOneShot km (press 1 10) release (press 2 30) ⟨.left, 2⟩ 4 ∧
      kb.Lossless km [.event (press 1 10), .event release, .event (press 2 30)] ∧
      Host.modifiers kb.outlet.host = 2 ∧
      Host.modifiers tapped.outlet.host = 0 ∧
      tapped.heard km (.event (press 2 30)) =
        [(0, .addModifiers 2), (2, .register 4), (2, .setModifiers 0)] ∧
      Host.modifiers (tapped.process km (press 2 30)).outlet.host = 0 := by
  refine ⟨Keymap.uniform_ofKeys _ _, ?_, ⟨?_, ?_, ?_, trivial⟩, by decide +kernel⟩
  · constructor <;> decide +kernel
  all_goals exact ReportHost.lossless_of_room (by decide +kernel)

end Keyboard

end TapHold
