import TapHold.Host.CallLog
import TapHold.Proofs.Arbiter.Overdue
import TapHold.Proofs.Arbiter.Tick
import TapHold.Proofs.Keyboard.Traced

/-!
# The passing of time

What a keyboard without extensions makes of time: an event that no key belongs to only tells it
(`process_nowhere_of_run`), and a press whose term is over does not stay undecided for long
(`undecided_of_process`). Neither is quite what one would expect. Such an event that claims to be a
press is taken for one where a press interrupts (`interrupted_of_pressed_tick`), and a press that
moves up in line is not held against the time that let it move up, so one tick settles one press
(`overdue_of_waiting_press`).
-/

set_option autoImplicit false

namespace TapHold

namespace Arbiter

variable {km : Keymap} {a b : Arbiter} {out : List Emission} {d : Dispatched}

/-- No event that only tells the time is dispatched. -/
theorem real_of_move (m : Move km a out b) (hd : Emission.dispatched d ∈ out) :
    d.given.isTick = false := by
  cases m with
  | lapse | interrupt | start => cases hd
  | overflow => cases List.mem_singleton.mp hd
  | hold | pass | overtake | again | release | displace | tap | startTap =>
    obtain ⟨real, given, -⟩ := given_of_mem hd
    rw [given]
    exact real

theorem real_of_moves (m : Moves km a out b) (hd : Emission.dispatched d ∈ out) :
    d.given.isTick = false := by
  induction m with
  | refl => cases hd
  | step m _ ih =>
    rcases List.mem_append.mp hd with first | later
    · exact real_of_move m first
    · exact ih later

end Arbiter

namespace Keyboard

variable {η : Type} [Host η]

/-- What is known of a keyboard without extensions after a list of events. -/
structure AfterEvents (km : Keymap) (kb : Keyboard η NoHooks) : Prop where
  uninjected : kb.outlet.injected = []
  sound : Arbiter.Sound kb.arbiter
  rested : kb.arbiter.Rested
  stuck : kb.arbiter.advance? km = none

omit [Host η] in
theorem afterEvents_start (km : Keymap) (settings : Settings) (layer : LayerNumber)
    (capacity : Nat) (host : η) :
    AfterEvents km (start settings layer capacity host NoHooks.none) where
  uninjected := rfl
  sound := Arbiter.sound_of_nothing rfl rfl
  rested := fun _ => rfl
  stuck := rfl

variable {km : Keymap} {kb : Keyboard η NoHooks} {now : Time}

theorem AfterEvents.process (h : AfterEvents km kb) (e : KeyEvent) :
    AfterEvents km (kb.process km e) where
  uninjected := injected_process km e h.uninjected
  sound := by
    rw [process_eq_handle km e h.uninjected]
    exact Arbiter.sound_handle h.sound h.rested e
  rested := by
    rw [process_eq_handle km e h.uninjected]
    exact Arbiter.rested_handle _ km e
  stuck := by
    rw [process_eq_handle km e h.uninjected]
    exact Arbiter.advance?_handle _ km e

theorem AfterEvents.events (h : AfterEvents km kb) (es : List KeyEvent) :
    AfterEvents km (es.foldl (fun kb e => kb.process km e) kb) := by
  induction es generalizing kb with
  | nil => exact h
  | cons e es ih => exact ih (h.process e)

/-- What is emitted while an event is processed. -/
theorem AfterEvents.emissions (h : AfterEvents km kb) (e : KeyEvent) :
    emissions (kb.processNotes km e) = (kb.arbiter.handle km e).2 := by
  rw [processNotes_eq_handled e h.uninjected, emissions_handled]

/-! ## Events that only tell the time -/

/-- An event that only tells the time does what a tick does, or is taken for a press that interrupts
the candidate. -/
theorem AfterEvents.process_tick (h : AfterEvents km kb) {e : KeyEvent} (tick : e.isTick = true) :
    kb.process km e = if e.pressed && kb.arbiter.isInterruptible e.time
      then ⟨kb.arbiter.interrupted, kb.outlet⟩ else kb.tick km e.time := by
  rw [Keyboard.tick, process_eq_handle km e h.uninjected, process_eq_handle km _ h.uninjected,
    Keyboard.handle, Keyboard.handle, Arbiter.handle_tick tick h.sound h.rested h.stuck]
  by_cases press : (e.pressed && kb.arbiter.isInterruptible e.time) = true
  · rw [if_pos press, if_pos press]
    rfl
  · rw [if_neg press, if_neg press]

/-- While no term ends, a tick changes nothing. -/
theorem AfterEvents.tick_of_unexpired (h : AfterEvents km kb) (u : kb.arbiter.Unexpired now) :
    kb.tick km now = kb := by
  rw [Keyboard.tick, process_eq_handle km _ h.uninjected, Keyboard.handle,
    Arbiter.handle_tick_of_unexpired h.sound h.stuck u]
  rfl

/-- After any events, an event that no key belongs to is neither kept nor dispatched, and nothing
else is kept that was not kept before. It does exactly what a tick does, except that one which
claims to be a press within the term of a released tap or an undecided press interrupts that
candidate, and does nothing else. As long as no term ends, a tick changes nothing: neither the
candidate nor the backlog, the layers, the one-shot modifiers or the host. -/
theorem process_nowhere_of_run (km : Keymap) (settings : Settings) (layer : LayerNumber)
    (capacity : Nat) (host : η) (es : List KeyEvent) (pressed : Bool) (now : Time) :
    let first := start settings layer capacity host NoHooks.none
    let kb := es.foldl (fun kb e => kb.process km e) first
    let e : KeyEvent := ⟨.nowhere, pressed, now⟩
    (kb.process km e).arbiter.heldEvents.Sublist kb.arbiter.heldEvents ∧
    (∀ x ∈ kb.arbiter.heldEvents, x.isTick = false) ∧
    (∀ d, .dispatched d ∈ emissions (kb.processNotes km e) → d.given.isTick = false) ∧
    kb.process km e = (if pressed && kb.arbiter.isInterruptible now
      then ⟨kb.arbiter.interrupted, kb.outlet⟩ else kb.tick km now) ∧
    (kb.arbiter.Unexpired now → kb.tick km now = kb) := by
  intro first kb e
  have h : AfterEvents km kb := (afterEvents_start km settings layer capacity host).events es
  have moves : Arbiter.Moves km kb.arbiter (kb.arbiter.handle km e).2 (kb.arbiter.handle km e).1 :=
    Arbiter.handle_tick_moves rfl fun _ hc => h.sound.real_candidate hc
  refine ⟨?_, h.sound.real, fun d hd => ?_, h.process_tick rfl, h.tick_of_unexpired⟩
  · rw [process_eq_handle km e h.uninjected]
    exact Arbiter.heldEvents_moves moves
  · rw [h.emissions] at hd
    exact Arbiter.real_of_moves moves hd

/-- A key that is control when held and types a letter when tapped goes down. An event that no key
belongs to and that claims to be a press makes a hold of the tap, while a tick leaves it a tap. -/
theorem interrupted_of_pressed_tick :
    let km := Keymap.ofKeys fun _ => 0x2104
    let kb := (start .standard 0 8 CallLog.empty NoHooks.none).process km ⟨⟨0, 0⟩, true, ⟨0⟩⟩
    let after (kb : Keyboard CallLog NoHooks) :=
      (kb.process km ⟨⟨0, 0⟩, false, ⟨20⟩⟩).outlet.host.calls
    kb.process km ⟨.nowhere, true, ⟨10⟩⟩ ≠ kb.tick km ⟨10⟩ ∧
      after (kb.process km ⟨.nowhere, true, ⟨10⟩⟩) = [.addModifiers 1, .removeModifiers 1] ∧
      after (kb.tick km ⟨10⟩) = [.register 4, .unregister 4] := by
  intro km kb after
  have differ : after (kb.process km ⟨.nowhere, true, ⟨10⟩⟩) ≠ after (kb.tick km ⟨10⟩) := by
    decide +kernel
  exact ⟨fun same => differ (congrArg after same), by decide +kernel, by decide +kernel⟩

/-! ## Presses whose term is over -/

/-- After any events: an undecided press is dispatched as a hold, before anything else, by any event
or tick that comes after its term. A press that is undecided after an event or tick is within its
term then, unless it was in line behind another one and has moved up just now, or no press is ever
within the term. And when there are at least as many ticks after the terms of all presses that are
undecided or in line as there are such presses, nothing is undecided or in line any more. -/
theorem undecided_of_process (km : Keymap) (settings : Settings) (layer : LayerNumber)
    (capacity : Nat) (host : η) (es : List KeyEvent) :
    let first := start settings layer capacity host NoHooks.none
    let kb := es.foldl (fun kb e => kb.process km e) first
    let a := kb.arbiter
    (∀ e c, a.undecided? = some c → e.time.isWithin c.event.time a.term = false →
      ∃ d later, emissions (kb.processNotes km e) = .dispatched d :: later ∧ d.given = c) ∧
    (∀ e c, (kb.process km e).arbiter.undecided? = some c →
      e.time.isWithin c.event.time a.term = true ∨
        c.event ∈ a.backlog.records.map Record.event ∨ (c.event = e ∧ a.term = 0)) ∧
    (∀ ts : List Time, (∀ t ∈ ts, ∀ x ∈ a.awaitedPresses, t.isWithin x.time a.term = false) →
      a.awaitedPresses.length ≤ ts.length →
        (ts.foldl (fun kb t => kb.tick km t) kb).arbiter.awaited = []) := by
  intro first kb a
  have h : AfterEvents km kb := (afterEvents_start km settings layer capacity host).events es
  refine ⟨fun e c undecided late => ?_, fun e c undecided => ?_, fun ts late enough => ?_⟩
  · obtain ⟨hc, hu⟩ := Arbiter.of_undecided? undecided
    obtain ⟨later, split⟩ := Arbiter.emitted_of_late km hc hu late
    rw [Arbiter.emitted_dispatch a km (h.sound.real_candidate hc)] at split
    rw [h.emissions]
    exact ⟨_, later, split.symm, rfl⟩
  · rw [process_eq_handle km e h.uninjected] at undecided
    exact Arbiter.undecided_handle h.sound h.rested undecided
  · have ticks : ts.foldl (fun kb t => kb.tick km t) kb =
        (ts.map KeyEvent.tick).foldl (fun kb e => kb.process km e) kb := by
      rw [List.foldl_map]
      rfl
    rw [ticks, foldl_process kb km _ h.uninjected]
    exact Arbiter.awaited_ticks h.sound h.rested ts late enough

/-- Two layer keys go down one after the other, and a tick comes when the terms of both are over. It
settles the first one; the second one moves up and stays undecided. -/
theorem overdue_of_waiting_press :
    let km := Keymap.ofKeys fun key => if key = ⟨0, 0⟩ then 0x812c else 0x822c
    let first := Arbiter.start .standard 0 8
    let es : List KeyEvent :=
      [⟨⟨0, 0⟩, true, ⟨0⟩⟩, ⟨⟨0, 1⟩, true, ⟨10⟩⟩, .tick ⟨300⟩]
    let result := first.run km es
    first.timely km es = true ∧ Emission.overflow ∉ result.2 ∧
      result.1.undecided? = some ⟨⟨⟨0, 1⟩, true, ⟨10⟩⟩, .undecided⟩ ∧
      Time.isWithin ⟨300⟩ ⟨10⟩ result.1.term = false := by
  decide +kernel

end Keyboard

end TapHold
