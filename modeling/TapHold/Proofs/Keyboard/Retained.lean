import TapHold.Proofs.Arbiter.Retained
import TapHold.Proofs.Interpreter.ModifierKeys
import TapHold.Proofs.Keyboard.Heard
import TapHold.Proofs.Keyboard.Ticks

/-!
# Modifiers stay down while a tap is undecided

A tap that is still undecided is typed under the modifiers that were down when its key went down, so
none of them may come up before the decision. While the same press stays undecided
(`StaysUndecided`), all that an event can have dispatched is a release that lets no modifier go, so
what the host is asked for does not concern its modifiers (`AfterEvents.bitsAfter_asked`).
-/

set_option autoImplicit false

namespace TapHold

namespace Keyboard

variable {η : Type} [Host η] {km : Keymap} {kb : Keyboard η NoHooks} {e : KeyEvent} {c : Record}

/-- The press `c` is undecided before the event `e` and after it. It is the same press: none with
its key and stamp waits or comes, or none with its key and stamp is dispatched. -/
structure StaysUndecided (km : Keymap) (kb : Keyboard η NoHooks) (e : KeyEvent) (c : Record) :
    Prop where
  before : kb.arbiter.undecided? = some c
  after : ∃ d, (kb.process km e).arbiter.undecided? = some d ∧ d.event = c.event
  same : (c.event ∉ kb.arbiter.line.map Record.event ∧ e ≠ c.event) ∨
    ∀ d, .dispatched d ∈ emissions (kb.processNotes km e) → d.given.event ≠ c.event

/-- No event changes the settings. -/
theorem AfterEvents.settings_events (h : AfterEvents km kb) (es : List KeyEvent) :
    (es.foldl (fun kb e => kb.process km e) kb).arbiter.interpreter.settings =
      kb.arbiter.interpreter.settings := by
  induction es generalizing kb with
  | nil => rfl
  | cons e es ih =>
    refine (ih (h.process e)).trans ?_
    rw [process_eq_handle km e h.uninjected]
    exact congrArg Prod.fst
      (Arbiter.fixed_handle h.rested fun _ hc => h.sound.real_candidate hc)

/-- What the host is asked for while a press stays undecided leaves its modifiers as they are. -/
theorem AfterEvents.bitsAfter_asked (h : AfterEvents km kb)
    (uniform : km.Uniform kb.arbiter.interpreter.settings) (stays : kb.StaysUndecided km e c)
    (bits : Byte) :
    Request.bitsAfterAll ((kb.arbiter.handle km e).2.map Emission.asked) bits = bits := by
  obtain ⟨hc, hu⟩ := Arbiter.of_undecided? stays.before
  obtain ⟨d, after, same⟩ := stays.after
  rw [process_eq_handle km e h.uninjected] at after
  have undispatched : c.event ∉ finalEvents (kb.arbiter.handle km e).2 := by
    rcases stays.same with ⟨alone, other⟩ | kept
    · exact Arbiter.notMem_finalEvents h.sound h.rested stays.before after same alone other
    · rw [h.emissions] at kept
      intro final
      obtain ⟨d, hd, event⟩ := exists_of_mem_finalEvents final
      exact kept d hd event
  rcases Arbiter.handle_undecided uniform h.sound h.stuck hc hu e with
    final | overflow | none | ⟨real, up, plain, one⟩
  · exact absurd final undispatched
  · exact absurd overflow (Arbiter.overflow_notMem_of_undecided h.sound h.rested after)
  · rw [none]
    rfl
  · rw [one, Arbiter.emitted_dispatch (r := .ofEvent e) _ km real]
    exact Interpreter.spares_dispatch _ up rfl plain _ bits

/-- **Modifiers stay down while a tap is undecided.** Every key has the same action in all layers.
After any events, whatever the host has come to by then: if a press is undecided before an event or
tick, and the same press is still undecided after it, then the modifiers that are down at the host
stay as they are, as long as the host does at this event what it is asked to. A host that remembers
its calls always does, and a reporting host does while it loses no report. -/
theorem modifiers_of_staysUndecided (km : Keymap) (settings : Settings) (layer : LayerNumber)
    (capacity : Nat) (first host : η) (es : List KeyEvent) (e : KeyEvent) (c : Record)
    (uniform : km.Uniform settings) :
    let kb := (es.foldl (fun kb e => kb.process km e)
      (start settings layer capacity first NoHooks.none)).withHost host
    kb.Steady km [.event e] → kb.StaysUndecided km e c →
      Host.modifiers (kb.process km e).outlet.host = Host.modifiers host := by
  intro kb steady stays
  have begins := afterEvents_start km settings layer capacity first
  have run := begins.events es
  have h : AfterEvents km kb := ⟨run.uninjected, run.sound, run.rested, run.stuck⟩
  have same : kb.arbiter.interpreter.settings = settings := begins.settings_events es
  exact (heard_of_steady h.uninjected steady).2.trans
    (h.bitsAfter_asked (same ▸ uniform) stays (Host.modifiers host))

/-- Shift and a key are down when a key of control goes down and is undecided. The release of shift
waits. The other key comes up and is dispatched, and shift is still down then. -/
theorem modifiers_of_waiting_shift :
    let km := Keymap.ofKeys fun key =>
      if key.col = 0 then 0x00e1 else if key.col = 1 then 0x0005 else 0x2104
    let press (col : Byte) (ms : Word) : KeyEvent := ⟨⟨0, col⟩, true, ⟨ms⟩⟩
    let release (col : Byte) (ms : Word) : KeyEvent := ⟨⟨0, col⟩, false, ⟨ms⟩⟩
    let es := [press 0 0, press 1 5, press 2 10, release 0 20]
    let before := es.foldl (fun kb e => kb.process km e)
      (start .standard 0 8 (ReportHost.empty 4) NoHooks.none)
    -- the computer has taken all reports
    let kb := before.withHost (before.outlet.host.read 4).2
    kb.arbiter.line = [.ofEvent (release 0 20)] ∧
      dispatchedEvents (kb.arbiter.handle km (release 1 30)).2 = [release 1 30] ∧
      (kb.process km (release 1 30)).outlet.host.held.modifiers = 2 := by
  intro km press release es before kb
  have lossless : kb.Lossless km [.event (release 1 30)] :=
    And.intro (ReportHost.lossless_of_room (by decide +kernel)) trivial
  have stays : kb.StaysUndecided km (release 1 30) (.ofEvent (press 2 10)) :=
    ⟨by decide +kernel, ⟨.ofEvent (press 2 10), by decide +kernel, rfl⟩,
      Or.inl ⟨by decide +kernel, by decide⟩⟩
  have kept := modifiers_of_staysUndecided km .standard 0 8 (ReportHost.empty 4)
    (before.outlet.host.read 4).2 es (release 1 30) (.ofEvent (press 2 10))
    (Keymap.uniform_ofKeys _ _) (steady_reportHost lossless) stays
  refine ⟨by decide +kernel, by decide +kernel, kept.trans (by decide +kernel)⟩

end Keyboard

end TapHold
