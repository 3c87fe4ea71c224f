import TapHold.Host.CallLog
import TapHold.Proofs.Arbiter.Later
import TapHold.Proofs.Hook.Later
import TapHold.Proofs.Keyboard.Journal
import TapHold.Proofs.Keymap.Uniform

/-!
# Keyboards at a later time

Only the time between events counts: when every event and every tick comes `k` milliseconds later,
the host is called as before, and everything else is as before but for the times of the records
(`later_of_calls`). The clock may wrap around in one run where it does not in the other. Extensions
are allowed as far as they reckon from the time of the record they are called for.
-/

set_option autoImplicit false

namespace TapHold

variable {η χ : Type} [Host η] [Hooks χ] {k : Word} {R : χ → χ → Prop}

/-! ## Outlets -/

/-- The second outlet has the same host, a corresponding state of the extensions, and the same
events queued, `k` milliseconds later. -/
structure Outlet.Later (k : Word) (R : χ → χ → Prop) (o p : Outlet η χ) : Prop where
  host : p.host = o.host
  hooks : R o.hooks p.hooks
  injected : p.injected = o.injected.map (KeyEvent.later k)

namespace Outlet

variable {o p : Outlet η χ}

omit [Hooks χ] in
theorem Later.call (h : o.Later k R p) (c : HostCall) : (o.call c).Later k R (p.call c) :=
  ⟨congrArg (Host.perform · c) h.host, h.hooks, h.injected⟩

omit [Hooks χ] in
theorem Later.reset (h : o.Later k R p) : o.reset.Later k R p.reset :=
  ⟨(h.call .clearAll).host, h.hooks, rfl⟩

omit [Host η] [Hooks χ] in
/-- There is room for the event in both queues or in none. -/
theorem Later.inject (h : o.Later k R p) (e : KeyEvent) :
    (o.inject e).1.Later k R (p.inject (e.later k)).1 ∧
      (p.inject (e.later k)).2 = (o.inject e).2 := by
  have length : p.injected.length = o.injected.length := by rw [h.injected, List.length_map]
  unfold Outlet.inject
  rw [length]
  split
  · refine ⟨⟨h.host, h.hooks, ?_⟩, rfl⟩
    rw [h.injected, List.map_append]
    rfl
  · exact ⟨h, rfl⟩

omit [Hooks χ] in
theorem later_runProgram {s t : HookProgram χ} (program : s.Later k R t) (h : o.Later k R p) :
    (o.runProgram s).Later k R (p.runProgram t) := by
  induction program generalizing o p with
  | done states => exact ⟨h.host, states, h.injected⟩
  | call c _ ih => exact ih (h.call c)
  | modifiers _ ih =>
    unfold runProgram
    rw [h.host]
    exact ih _ h
  | inject e _ ih =>
    obtain ⟨queued, accepted⟩ := h.inject e
    unfold runProgram
    rw [accepted]
    exact ih _ queued

theorem later_perform (relative : Hooks.Relative k R) (h : o.Later k R p) (e : Effect) :
    (o.perform e).Later k R (p.perform (e.later k)) := by
  cases e with
  | request r => exact ⟨congrArg r.run h.host, h.hooks, h.injected⟩
  | hook c => exact later_runProgram (relative.answer c h.hooks) h
  | unknown code => exact ⟨h.host, relative.unknown code h.hooks, h.injected⟩

theorem later_emit (relative : Hooks.Relative k R) (h : o.Later k R p) (x : Emission) :
    (o.emit x).Later k R (p.emit (x.later k)) := by
  cases x with
  | dispatched d => exact later_perform relative h d.effect
  | overflow => exact h.call .clearAll

/-- The same emissions, performed later. -/
theorem later_emitAll (relative : Hooks.Relative k R) (h : o.Later k R p) (out : List Emission) :
    (o.emitAll out).Later k R (p.emitAll (out.map (Emission.later k))) := by
  induction out generalizing o p with
  | nil => exact h
  | cons x out ih => exact ih (later_emit relative h x)

end Outlet

/-! ## Journals -/

/-- The same note `k` milliseconds later. -/
def Note.later (k : Word) : Note → Note
  | .came e => .came (e.later k)
  | .emitted x => .emitted (x.later k)
  | .reset => .reset

theorem handled_later (e : KeyEvent) (out : List Emission) :
    handled (e.later k) (out.map (Emission.later k)) = (handled e out).map (Note.later k) := by
  rw [handled, handled, List.map_cons, List.map_map, List.map_map]
  rfl

namespace Keyboard

/-- The same call, where an event or a tick comes `k` milliseconds later. -/
def Call.later (k : Word) : Call η → Call η
  | .event e => .event (e.later k)
  | .tick now => .tick (now.after k)
  | c => c

/-- The second keyboard is the first one `k` milliseconds later. -/
structure Later (k : Word) (R : χ → χ → Prop) (kb kb' : Keyboard η χ) : Prop where
  arbiter : kb.arbiter.Later k kb'.arbiter
  outlet : kb.outlet.Later k R kb'.outlet

variable {kb kb' : Keyboard η χ}

omit [Host η] [Hooks χ] in
theorem later_start (settings : Settings) (layer : LayerNumber) (capacity : Nat) (host : η)
    {hooks hooks' : χ} (related : R hooks hooks') :
    (start settings layer capacity host hooks).Later k R
      (start settings layer capacity host hooks') :=
  ⟨⟨.refl _, rfl, rfl⟩, ⟨rfl, related, rfl⟩⟩

theorem later_handle (relative : Hooks.Relative k R) (h : kb.Later k R kb') (km : Keymap)
    (e : KeyEvent) : (kb.handle km e).Later k R (kb'.handle km (e.later k)) := by
  have arbiter := Arbiter.later_handle h.arbiter km e
  have outlet := Outlet.later_emitAll relative h.outlet (kb.arbiter.handle km e).2
  rw [← arbiter.2] at outlet
  exact ⟨arbiter.1, outlet⟩

omit [Host η] [Hooks χ] in
/-- What happens while an event is handled. -/
theorem handled_later_of (h : kb.Later k R kb') (km : Keymap) (e : KeyEvent) :
    handled (e.later k) (kb'.arbiter.handle km (e.later k)).2 =
      (handled e (kb.arbiter.handle km e).2).map (Note.later k) := by
  rw [(Arbiter.later_handle h.arbiter km e).2, handled_later]

theorem later_injected (relative : Hooks.Relative k R) (h : kb.Later k R kb') (km : Keymap) :
    (kb.processInjected km).Later k R (kb'.processInjected km) ∧
      kb'.injectedNotes km = (kb.injectedNotes km).map (Note.later k) := by
  -- by induction on the events that the first keyboard has queued: the second has queued as many
  fun_induction processInjected kb km generalizing kb' with
  | case1 kb none =>
    have none' : kb'.outlet.injected = [] := by rw [h.outlet.injected, none, List.map_nil]
    rw [processInjected_of_nil km none', injectedNotes_of_nil km none,
      injectedNotes_of_nil km none']
    exact ⟨h, rfl⟩
  | case2 kb e rest some less ih =>
    have some' : kb'.outlet.injected = e.later k :: rest.map (KeyEvent.later k) := by
      rw [h.outlet.injected, some, List.map_cons]
    have taken : (kb.withInjected rest).Later k R
        (kb'.withInjected (rest.map (KeyEvent.later k))) :=
      ⟨h.arbiter, ⟨h.outlet.host, h.outlet.hooks, rfl⟩⟩
    obtain ⟨keyboard, notes⟩ := ih (later_handle relative taken km e)
    rw [processInjected_of_cons km some', injectedNotes_of_cons km some,
      injectedNotes_of_cons km some', notes, handled_later_of taken km e, List.map_append]
    exact ⟨keyboard, rfl⟩

theorem later_process (relative : Hooks.Relative k R) (h : kb.Later k R kb') (km : Keymap)
    (e : KeyEvent) :
    (kb.process km e).Later k R (kb'.process km (e.later k)) ∧
      kb'.processNotes km (e.later k) = (kb.processNotes km e).map (Note.later k) := by
  obtain ⟨keyboard, notes⟩ := later_injected relative (later_handle relative h km e) km
  refine ⟨keyboard, ?_⟩
  rw [processNotes, processNotes, notes, handled_later_of h km e, List.map_append]

theorem later_call (relative : Hooks.Relative k R) (h : kb.Later k R kb') (km : Keymap)
    (c : Call η) :
    (kb.call km c).Later k R (kb'.call km (c.later k)) ∧
      kb'.notes km (c.later k) = (kb.notes km c).map (Note.later k) := by
  cases c with
  | event e => exact later_process relative h km e
  | tick now => exact later_process relative h km (.tick now)
  | reset => exact ⟨⟨h.arbiter.reset, h.outlet.reset⟩, rfl⟩
  | settings s =>
    exact ⟨⟨⟨h.arbiter.interpreter.withSettings s, h.arbiter.backlog, h.arbiter.candidate⟩,
      h.outlet⟩, rfl⟩
  | layers l =>
    exact ⟨⟨⟨h.arbiter.interpreter.withLayers l, h.arbiter.backlog, h.arbiter.candidate⟩,
      h.outlet⟩, rfl⟩
  | host state => exact ⟨⟨h.arbiter, ⟨rfl, h.outlet.hooks, h.outlet.injected⟩⟩, rfl⟩

theorem later_calls (relative : Hooks.Relative k R) (h : kb.Later k R kb') (km : Keymap)
    (calls : List (Call η)) :
    (calls.foldl (call km) kb).Later k R ((calls.map (Call.later k)).foldl (call km) kb') ∧
      kb'.journal km (calls.map (Call.later k)) = (kb.journal km calls).map (Note.later k) := by
  induction calls generalizing kb kb' with
  | nil => exact ⟨h, rfl⟩
  | cons c calls ih =>
    obtain ⟨keyboard, notes⟩ := later_call relative h km c
    obtain ⟨rest, told⟩ := ih keyboard
    refine ⟨rest, ?_⟩
    rw [List.map_cons, journal, journal, notes, told, List.map_append]

/-- Only the time between events counts. Two keyboards start with the same host and settings, and
with extensions in corresponding states that reckon from the time of the record they are called for.
The same is done with both, but for the second one every event and every tick comes `k` milliseconds
later, modulo the range of the clock. Then the host has been called in the same way; the layers and
the one-shot modifiers are the same; as many records wait, and they and the candidate are the same
but for their times, which are `k` later, as are all that came and was handed over on the way. -/
theorem later_of_calls (relative : Hooks.Relative k R) (km : Keymap) (settings : Settings)
    (layer : LayerNumber) (capacity : Nat) (host : η) {hooks hooks' : χ} (related : R hooks hooks')
    (calls : List (Call η)) :
    let first := start settings layer capacity host hooks
    let second := start settings layer capacity host hooks'
    let kb := calls.foldl (call km) first
    let kb' := (calls.map (Call.later k)).foldl (call km) second
    kb'.outlet.host = kb.outlet.host ∧
      kb'.arbiter.interpreter.settings = kb.arbiter.interpreter.settings ∧
      kb'.arbiter.interpreter.layers = kb.arbiter.interpreter.layers ∧
      kb'.arbiter.interpreter.oneShot.mods = kb.arbiter.interpreter.oneShot.mods ∧
      kb'.arbiter.interpreter.oneShot.ready = kb.arbiter.interpreter.oneShot.ready ∧
      kb'.arbiter.interpreter.oneShot.disabled = kb.arbiter.interpreter.oneShot.disabled ∧
      kb'.arbiter.backlog.size = kb.arbiter.backlog.size ∧
      kb'.arbiter.candidate.map Record.tap = kb.arbiter.candidate.map Record.tap ∧
      kb'.arbiter.candidate = kb.arbiter.candidate.map (Record.later k) ∧
      kb'.arbiter.backlog = kb.arbiter.backlog.map (Record.later k) ∧
      R kb.outlet.hooks kb'.outlet.hooks ∧
      second.journal km (calls.map (Call.later k)) =
        (first.journal km calls).map (Note.later k) := by
  intro first second kb kb'
  have begin : first.Later k R second := later_start settings layer capacity host related
  obtain ⟨⟨arbiter, outlet⟩, told⟩ := later_calls relative begin km calls
  obtain ⟨time, alike⟩ := arbiter.interpreter
  have pending : kb'.arbiter.backlog.size = kb.arbiter.backlog.size := by
    rw [arbiter.backlog]
    exact List.length_map _
  have tap : kb'.arbiter.candidate.map Record.tap = kb.arbiter.candidate.map Record.tap := by
    rw [arbiter.candidate, Option.map_map]
    rfl
  exact ⟨outlet.host, arbiter.interpreter.settings, arbiter.interpreter.layers,
    congrArg (·.oneShot.mods) alike, congrArg (·.oneShot.ready) alike,
    congrArg (·.oneShot.disabled) alike, pending, tap, arbiter.candidate, arbiter.backlog,
    outlet.hooks, told⟩

/-- A tap key is tapped, a macro types another key after a while, and the tap key goes down again:
in one run the clock wraps around in the middle, and in the other, 100 ms later, it does not. Where
there is no macro, only the tap is typed. -/
theorem later_of_wrapping_run :
    let km := Keymap.ofKeys fun key =>
      if key = ⟨0, 0⟩ then 0x212c else if key = ⟨0, 1⟩ then 0xc000 else 0x0004
    let hooks : ScriptHooks :=
      ⟨[⟨.playMacro, 0, some true, 1, [.inject ⟨0, 2⟩ true 5, .inject ⟨0, 2⟩ false 60]⟩], []⟩
    let calls : List (Call CallLog) :=
      [.event ⟨⟨0, 0⟩, true, ⟨65450⟩⟩, .event ⟨⟨0, 0⟩, false, ⟨65470⟩⟩,
        .event ⟨⟨0, 1⟩, true, ⟨65500⟩⟩, .event ⟨⟨0, 0⟩, true, ⟨10⟩⟩, .tick ⟨20⟩]
    let first := start .standard 0 8 CallLog.empty hooks
    let kb := calls.foldl (call km) first
    let kb' := (calls.map (Call.later 100)).foldl (call km) first
    let bare := start .standard 0 8 CallLog.empty NoHooks.none
    let typed : List HostCall :=
      [.register 0x2c, .unregister 0x2c, .register 0x04, .unregister 0x04]
    kb.outlet.host.calls = typed ∧ kb'.outlet.host.calls = typed ∧
      kb.arbiter.candidate = some ⟨⟨⟨0, 0⟩, true, ⟨10⟩⟩, ⟨0, false⟩⟩ ∧
      kb'.arbiter.candidate = some ⟨⟨⟨0, 0⟩, true, ⟨110⟩⟩, ⟨0, false⟩⟩ ∧
      kb'.outlet.hooks = kb.outlet.hooks.later 100 ∧ kb.outlet.hooks.notes.length = 3 ∧
      ((calls.map (Call.later 100)).foldl (call km) bare).outlet.host.calls = typed.take 2 := by
  intro km hooks calls first kb kb' bare typed
  have before : kb.outlet.host.calls = typed := by decide +kernel
  have pressed : kb.arbiter.candidate = some ⟨⟨⟨0, 0⟩, true, ⟨10⟩⟩, ⟨0, false⟩⟩ := by
    decide +kernel
  have noted : kb.outlet.hooks.notes.length = 3 := by decide +kernel
  have related : hooks = hooks.later 100 := rfl
  obtain ⟨host, -, -, -, -, -, -, -, candidate, -, notes, -⟩ := later_of_calls
    (ScriptHooks.relative 100) km .standard 0 8 CallLog.empty related calls
  have after : kb'.arbiter.candidate = kb.arbiter.candidate.map (Record.later 100) := candidate
  rw [pressed] at after
  have bareTyped : (calls.foldl (call km) bare).outlet.host.calls = typed.take 2 := by
    decide +kernel
  obtain ⟨bareHost, -⟩ := later_of_calls (NoHooks.relative 100) km .standard 0 8 CallLog.empty
    (Eq.refl NoHooks.none) calls
  exact ⟨before, (congrArg CallLog.calls host).trans before, pressed, after, notes, noted,
    (congrArg CallLog.calls bareHost).trans bareTyped⟩

end Keyboard

end TapHold
