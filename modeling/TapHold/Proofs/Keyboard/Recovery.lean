import TapHold.Proofs.Host.Call
import TapHold.Proofs.Keyboard.Pending
import TapHold.Proofs.Keyboard.Traced

/-!
# After an overflow

An event is lost when it has to wait and the backlog is full (`overflow_mem_handle_iff`), and
otherwise it is dispatched or kept (`final_or_awaited`). The attempt at an event that has to wait
hands over the undecided candidate or nothing at all (`attempt_of_waiting`), and that is all that is
left of the overflow: the arbiter is one that has seen no event, but for its interpreter.

What happens at the calls of a keyboard without extensions depends on its arbiter only
(`journal_congr`), so from then on the keyboard cannot be told from one that has just been started
with that interpreter (`recovered_of_overflow`).
-/

set_option autoImplicit false

namespace TapHold

namespace Arbiter

variable {km : Keymap} {a : Arbiter} {r s : Record} {e : KeyEvent}

/-! ## The attempt before an overflow -/

/-- An attempt at a record that has to wait leaves the undecided candidate alone, or hands it over
as a hold or as a tap. -/
theorem attempt_of_waiting (waits : (a.attempt km r).waiting = some s) :
    ∃ c, a.candidate = some c ∧ c.isUndecided = true ∧
      ((a.attempt km r).emitted = [] ∧ (a.attempt km r).arbiter.interpreter = a.interpreter ∨
        ∃ n, (a.attempt km r).emitted = (a.dispatch km (c.withCount n) false).emitted ∧
          (a.attempt km r).arbiter.interpreter =
            (a.dispatch km (c.withCount n) false).arbiter.interpreter) := by
  obtain ⟨c, hc, hu, meets⟩ := meets_of_waiting waits
  have zero : c.withCount 0 = c := by
    rw [Record.withCount, ← (Record.isUndecided_iff.mp hu).2]
  refine ⟨c, hc, hu, ?_⟩
  generalize a.attempt km r = tried at meets waits ⊢
  cases meets with
  | late | typed =>
    refine Or.inr ⟨0, ?_⟩
    rw [zero]
    exact ⟨rfl, rfl⟩
  | own => exact Or.inr ⟨1, rfl, rfl⟩
  | press | still => exact Or.inl ⟨rfl, rfl⟩
  | pass => cases waits

/-! ## When an overflow comes -/

/-- A record that finds room, or that is a tick, loses nothing. -/
theorem overflow_notMem_postpone (room : r.isTick = true ∨ a.backlog.size < a.backlog.capacity) :
    Emission.overflow ∉ (a.postpone r).2 := by
  cases tick : r.isTick with
  | true =>
    rw [postpone_tick a tick]
    exact List.not_mem_nil
  | false =>
    rw [postpone_of_room tick (room.resolve_left (by simp [tick]))]
    exact List.not_mem_nil

/-- An attempt keeps the room of the backlog. -/
theorem capacity_attempt (km : Keymap) (rested : a.Rested) (real : e.isTick = false) :
    (a.attempt km (.ofEvent e)).arbiter.backlog.capacity = a.backlog.capacity := by
  have passage : Passage km e a (a.attempt km (.ofEvent e)).emitted _ := attempt_passage rested real
  have joined := capacity_passage passage
  exact joined

/-- When an event has to wait and the backlog is full, nothing is left but the interpreter. -/
theorem handle_of_full (rested : a.Rested) (real : e.isTick = false)
    (waits : (a.attempt km (.ofEvent e)).waiting = some s)
    (full : a.backlog.capacity ≤ a.backlog.size) :
    a.handle km e = ((a.attempt km (.ofEvent e)).arbiter.forget,
      (a.attempt km (.ofEvent e)).emitted ++ [.overflow]) := by
  have realS : s.isTick = false := by
    rw [Record.isTick, event_waiting waits]
    exact real
  have fullS : (a.attempt km (.ofEvent e)).arbiter.backlog.capacity ≤
      (a.attempt km (.ofEvent e)).arbiter.backlog.size := by
    rw [capacity_attempt km rested real, size_attempt]
    exact full
  have accepted : a.accept km e = ((a.attempt km (.ofEvent e)).arbiter.forget,
      (a.attempt km (.ofEvent e)).emitted ++ [.overflow]) := by
    unfold accept
    simp only [waits, postpone_of_full realS fullS]
  have empty : (a.attempt km (.ofEvent e)).arbiter.forget.line = [] := rfl
  unfold handle
  rw [accepted]
  dsimp only
  rw [drain_of_line km empty, List.append_nil]

/-- An event is lost exactly when it is no tick, has to wait, and finds the backlog full. -/
theorem overflow_mem_handle_iff (rested : a.Rested)
    (noTick : ∀ c, a.candidate = some c → c.isTick = false) :
    Emission.overflow ∈ (a.handle km e).2 ↔
      e.isTick = false ∧ (a.attempt km (.ofEvent e)).waiting ≠ none ∧
        a.backlog.capacity ≤ a.backlog.size := by
  constructor
  · intro lost
    cases tick : e.isTick with
    | true => exact absurd lost (overflow_notMem_handle tick noTick)
    | false =>
      -- neither the attempt nor the draining loses anything, so the event is put in line
      rcases List.mem_append.mp lost with accepted | drained
      · unfold accept at accepted
        dsimp only at accepted
        split at accepted
        · exact absurd accepted (overflow_notMem_attempt a km _)
        rename_i s waits
        rcases List.mem_append.mp accepted with tried | kept
        · exact absurd tried (overflow_notMem_attempt a km _)
        refine ⟨rfl, fun none => ?_, ?_⟩
        · cases none.symm.trans waits
        · rw [← capacity_attempt km rested tick, ← size_attempt a km (.ofEvent e)]
          by_contra room
          exact overflow_notMem_postpone (Or.inr (Nat.lt_of_not_le room)) kept
      · exact absurd drained (overflow_notMem_drain _ km)
  · rintro ⟨real, waits, full⟩
    obtain ⟨s, waits⟩ := Option.ne_none_iff_exists'.mp waits
    rw [handle_of_full rested real waits full]
    exact List.mem_append_right _ (List.mem_singleton_self _)

/-- An event that is not lost is dispatched for the last time or awaited. -/
theorem final_or_awaited (sound : Sound a) (rested : a.Rested) (real : e.isTick = false)
    (calm : Emission.overflow ∉ (a.handle km e).2) :
    e ∈ finalEvents (a.handle km e).2 ∨ e ∈ (a.handle km e).1.awaited := by
  have passage : Passage km e a (a.handle km e).2 (a.handle km e).1 := handle_passage rested real
  have before : Complete a.awaited [] a := List.Perm.refl _
  obtain ⟨-, complete⟩ := complete_passage passage real calm sound before
  have arrived : e ∈ a.awaited ++ [e] := List.mem_append_right _ (List.mem_singleton_self e)
  exact List.mem_append.mp (complete.mem_iff.mp arrived)

end Arbiter

namespace Keyboard

/-! ## What happens depends on the arbiter only -/

section Congr

variable {η : Type} [Host η] {km : Keymap} {kb kb' : Keyboard η NoHooks}

/-- What happens at a call, and the arbiter after it. -/
theorem call_congr (km : Keymap) (same : kb.arbiter = kb'.arbiter)
    (none : kb.outlet.injected = []) (none' : kb'.outlet.injected = []) (c : Call η) :
    kb.notes km c = kb'.notes km c ∧ (kb.call km c).arbiter = (kb'.call km c).arbiter := by
  have event (e : KeyEvent) : kb.processNotes km e = kb'.processNotes km e ∧
      (kb.process km e).arbiter = (kb'.process km e).arbiter := by
    rw [processNotes_eq_handled e none, processNotes_eq_handled e none',
      process_eq_handle km e none, process_eq_handle km e none', handle, handle, same]
    exact ⟨rfl, rfl⟩
  cases c with
  | event e => exact event e
  | tick now => exact event (.tick now)
  | reset => exact ⟨rfl, congrArg Arbiter.reset same⟩
  | settings s =>
    refine ⟨rfl, ?_⟩
    rw [call, call, withSettings, withSettings, withInterpreter, withInterpreter, same]
  | layers l =>
    refine ⟨rfl, ?_⟩
    rw [call, call, withLayers, withLayers, withInterpreter, withInterpreter, same]
  | host h => exact ⟨rfl, same⟩

/-- What happens at a list of calls, and the arbiter after it. -/
theorem journal_congr (same : kb.arbiter = kb'.arbiter) (none : kb.outlet.injected = [])
    (none' : kb'.outlet.injected = []) (cs : List (Call η)) :
    kb.journal km cs = kb'.journal km cs ∧
      (cs.foldl (call km) kb).arbiter = (cs.foldl (call km) kb').arbiter := by
  induction cs generalizing kb kb' with
  | nil => exact ⟨rfl, same⟩
  | cons c cs ih =>
    obtain ⟨notes, next⟩ := call_congr km same none none' c
    obtain ⟨rest, last⟩ := ih next (injected_call c none) (injected_call c none')
    rw [journal, journal, notes, rest]
    exact ⟨rfl, last⟩

end Congr

/-! ## The keyboard after an overflow -/

/-- When everything is let go, nothing is down, whether the report about it finds room or not. -/
theorem held_clearAll (host : ReportHost) : (Host.perform host .clearAll).held = .nothing := by
  rcases ReportHost.held_perform host .clearAll with applied | ⟨-, cleared, -⟩
  · exact applied
  · exact cleared

/-- A keyboard that has seen no event, with the state of its interpreter given. -/
def fresh {η : Type} (i : Interpreter) (capacity : Nat) (host : η) : Keyboard η NoHooks :=
  (start i.settings i.startLayer capacity host NoHooks.none).withInterpreter i

/-- The keyboard `kb` has lost everything at an event and has become `next`. -/
structure Recovered (km : Keymap) (capacity : Nat) (kb next : Keyboard ReportHost NoHooks)
    (out : List Emission) : Prop where
  candidate : next.arbiter.candidate = none
  records : next.arbiter.backlog.records = []
  held : next.outlet.host.held = .nothing
  /-- At most the undecided candidate was handed over, and the interpreter is as this left it. -/
  dispatched : ∃ c, kb.arbiter.candidate = some c ∧ c.isUndecided = true ∧
    (out = [.overflow] ∧ next.arbiter.interpreter = kb.arbiter.interpreter ∨
      ∃ d, out = [.dispatched d, .overflow] ∧ d.given.event = c.event ∧
        next.arbiter.interpreter = (kb.arbiter.interpreter.dispatch km d.given
          (kb.arbiter.backlog.hasOtherPress c.event.key)).interpreter)
  /-- Whatever is done later, the same happens as with a keyboard that has seen no event. -/
  later : ∀ (host : ReportHost) (later : List (Call ReportHost)),
    next.journal km later = (fresh next.arbiter.interpreter capacity host).journal km later ∧
      (later.foldl (call km) next).arbiter =
        (later.foldl (call km) (fresh next.arbiter.interpreter capacity host)).arbiter

variable {km : Keymap} {kb : Keyboard ReportHost NoHooks} {capacity : Nat} {told : List Note}
  {e : KeyEvent}

theorem recovered_of_overflow (h : Arbiter.Faithful capacity told kb.arbiter)
    (none : kb.outlet.injected = []) (lost : Emission.overflow ∈ (kb.arbiter.handle km e).2) :
    Recovered km capacity kb (kb.process km e) (kb.arbiter.handle km e).2 := by
  obtain ⟨real, waits, full⟩ := (Arbiter.overflow_mem_handle_iff h.rested
    fun _ hc => h.sound.real_candidate hc).mp lost
  obtain ⟨s, waits⟩ := Option.ne_none_iff_exists'.mp waits
  have handled := Arbiter.handle_of_full h.rested real waits full
  have room : (kb.arbiter.attempt km (.ofEvent e)).arbiter.backlog.capacity = capacity :=
    (Arbiter.capacity_attempt km h.rested real).trans h.room
  have next : (kb.process km e).arbiter = (kb.arbiter.attempt km (.ofEvent e)).arbiter.forget := by
    rw [process_eq_handle km e none, handle, handled]
  refine ⟨?_, ?_, ?_, ?_, fun host later => ?_⟩
  · rw [next]
    rfl
  · rw [next]
    rfl
  · -- the last call of the host lets everything go
    rw [process_eq_handle km e none, handle, handled]
    dsimp only
    rw [Outlet.emitAll_append]
    exact held_clearAll _
  · obtain ⟨c, hc, hu, same | ⟨n, emitted, interpreter⟩⟩ := Arbiter.attempt_of_waiting waits
    · refine ⟨c, hc, hu, Or.inl ⟨?_, ?_⟩⟩
      · rw [handled, same.1]
        rfl
      · rw [next]
        exact same.2
    · have realC : c.isTick = false := h.sound.real_candidate hc
      have realN : (c.withCount n).isTick = false := realC
      rw [Arbiter.dispatch_of_real _ km realN] at emitted interpreter
      refine ⟨c, hc, hu, Or.inr ⟨_, by rw [handled, emitted]; rfl, rfl, ?_⟩⟩
      rw [next]
      exact interpreter
  · -- but for its interpreter, the arbiter is as at the start
    refine journal_congr ?_ (injected_process km e none) rfl later
    rw [next, fresh, withInterpreter, start, Arbiter.start, Arbiter.forget, Backlog.clear, room]
    rfl

/-- After whatever calls: an event is lost exactly when it is no tick, has to wait after it was
tried, and the backlog holds as many records as it has room for; an event that is not lost and is no
tick is dispatched for the last time or awaited. When an event is lost, nothing waits and nothing is
down any more, only the undecided candidate can have been dispatched before, and from then on the
keyboard does what one does that has seen no event and has the same settings, layers and one-shot
modifiers. -/
theorem recovered_of_calls (km : Keymap) (settings : Settings) (layer : LayerNumber)
    (capacity : Nat) (host : ReportHost) (calls : List (Call ReportHost)) (e : KeyEvent) :
    let kb := calls.foldl (call km) (start settings layer capacity host NoHooks.none)
    let out := emissions (kb.processNotes km e)
    (.overflow ∈ out ↔ e.isTick = false ∧
      (kb.arbiter.attempt km (.ofEvent e)).waiting ≠ none ∧ kb.arbiter.backlog.size = capacity) ∧
    (.overflow ∉ out → e.isTick = false →
      e ∈ finalEvents out ∨ e ∈ (kb.process km e).arbiter.awaited) ∧
    (.overflow ∈ out → Recovered km capacity kb (kb.process km e) out) := by
  intro kb out
  have h : Arbiter.Faithful capacity
      ((start settings layer capacity host NoHooks.none).journal km calls) kb.arbiter := by
    have begins : Arbiter.Faithful capacity []
        (start settings layer capacity host NoHooks.none).arbiter :=
      Arbiter.faithful_start settings layer capacity
    exact (Arbiter.lasting_faithful km capacity).calls calls begins
  have none : kb.outlet.injected = [] := injected_calls calls rfl
  have emitted : out = (kb.arbiter.handle km e).2 := by
    rw [← emissions_handled e (kb.arbiter.handle km e).2, ← processNotes_eq_handled e none]
  have noTick (c : Record) (hc : kb.arbiter.candidate = some c) : c.isTick = false :=
    h.sound.real_candidate hc
  have fits : kb.arbiter.backlog.size ≤ capacity := h.room ▸ h.fits
  rw [emitted]
  refine ⟨?_, fun calm real => ?_, recovered_of_overflow h none⟩
  · rw [Arbiter.overflow_mem_handle_iff h.rested noTick, h.room]
    have full : capacity ≤ kb.arbiter.backlog.size ↔ kb.arbiter.backlog.size = capacity :=
      ⟨fun le => Nat.le_antisymm fits le, fun same => Nat.le_of_eq same.symm⟩
    rw [full]
  · rw [process_eq_handle km e none]
    exact Arbiter.final_or_awaited h.sound h.rested real calm

/-- There is room for one record: behind an undecided press a second one waits, and a third is
lost. -/
example :
    let km := Keymap.ofKeys fun _ => 0x812c
    let press (col : Byte) (ms : Word) : KeyEvent := ⟨⟨0, col⟩, true, ⟨ms⟩⟩
    let kb := [press 0 0, press 1 10].foldl (fun kb e => kb.process km e)
      (start .standard 0 1 (ReportHost.empty 64) NoHooks.none)
    emissions (kb.processNotes km (press 2 20)) = [.overflow] := by
  decide +kernel

end Keyboard

end TapHold
