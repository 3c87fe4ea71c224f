import TapHold.Host.CallLog
import TapHold.Proofs.Arbiter.Sound
import TapHold.Proofs.Keyboard.Journal

/-!
# What waits in a keyboard

Whatever is done with a keyboard, and whatever its extensions queue: the backlog keeps within its
room, records wait only behind an undecided candidate, and when none is undecided, every event that
came since everything was dropped for the last time has been dispatched (`dispatched_of_settled`).
An overflow drops all that waits, and so does a reset (`lost_of_reset`).
-/

set_option autoImplicit false

namespace TapHold

namespace Arbiter

variable {km : Keymap} {a : Arbiter} {told : List Note} {capacity : Nat}

/-- What is known of an arbiter by what is told of it. -/
structure Faithful (capacity : Nat) (told : List Note) (a : Arbiter) : Prop where
  sound : Sound a
  rested : a.Rested
  room : a.backlog.capacity = capacity
  fits : Fits a
  complete : Complete (arrivals (sinceDrop told)) (emissions (sinceDrop told)) a

/-- Where nothing is held there is nothing to know. -/
theorem faithful_of_drop {b : Arbiter} (h : Faithful capacity told a) {told' : List Note}
    (drop : sinceDrop told' = []) (hc : b.candidate = none) (hl : b.line = [])
    (room : b.backlog.capacity = a.backlog.capacity) : Faithful capacity told' b where
  sound := sound_of_nothing hc hl
  rested := fun _ => hl
  room := room.trans h.room
  fits := by
    rw [Fits, hl]
    exact Nat.zero_le _
  complete := by
    rw [drop]
    exact complete_of_nothing hc hl

theorem faithful_handle (e : KeyEvent) (h : Faithful capacity told a) :
    Faithful capacity (told ++ handled e (a.handle km e).2) (a.handle km e).1 := by
  have rested := rested_handle a km e
  have noTick : ∀ c, a.candidate = some c → c.isTick = false :=
    fun c hc => h.sound.real_candidate hc
  have fits : Fits (a.handle km e).1 := fits_handle h.rested noTick h.fits
  cases tick : e.isTick with
  | true =>
    have calm : Emission.overflow ∉ (a.handle km e).2 := overflow_notMem_handle tick noTick
    have chain : Moves km a (a.handle km e).2 (a.handle km e).1 := handle_tick_moves tick noTick
    obtain ⟨sound, complete⟩ := complete_moves chain calm h.sound h.complete
    refine ⟨sound, rested, (capacity_moves chain).trans h.room, fits, ?_⟩
    have none : realEvents [e] = [] := by simp [realEvents, tick]
    rw [arrivals_sinceDrop_handled _ calm, emissions_sinceDrop_handled _ calm, none,
      List.append_nil]
    exact complete
  | false =>
    have passes : Passes km e a (a.handle km e).2 (a.handle km e).1 := handle_passes h.rested tick
    generalize (a.handle km e).1 = b at passes rested fits ⊢
    generalize (a.handle km e).2 = out at passes ⊢
    cases passes with
    | kept calm passage =>
      obtain ⟨sound, complete⟩ := complete_passage passage tick calm h.sound h.complete
      refine ⟨sound, rested, (capacity_passage passage).trans h.room, fits, ?_⟩
      have one : realEvents [e] = [e] := by simp [realEvents, tick]
      rw [arrivals_sinceDrop_handled _ calm, emissions_sinceDrop_handled _ calm, one]
      exact complete
    | @lost out b calm passage =>
      have room := capacity_passage passage
      exact faithful_of_drop h (sinceDrop_handled_overflow told e out) rfl rfl room

theorem lasting_faithful (km : Keymap) (capacity : Nat) : Lasting km (Faithful capacity) where
  handle := faithful_handle
  reset := fun h => faithful_of_drop h (sinceDrop_concat_of_drops _ rfl) rfl rfl rfl
  interpreter := fun _ h =>
    ⟨⟨h.sound.real, h.sound.fresh, h.sound.counted⟩, h.rested, h.room, h.fits, h.complete⟩

theorem faithful_start (settings : Settings) (layer : LayerNumber) (capacity : Nat) :
    Faithful capacity [] (start settings layer capacity) where
  sound := sound_of_nothing rfl rfl
  rested := fun _ => rfl
  room := rfl
  fits := Nat.zero_le capacity
  complete := complete_of_nothing rfl rfl

/-- Records wait only behind an undecided candidate. -/
theorem Rested.exists_undecided (rested : a.Rested) (waits : 0 < a.backlog.size) :
    ∃ c, a.candidate = some c ∧ c.isUndecided = true := by
  cases free : a.undecided? with
  | some c => exact ⟨c, of_undecided? free⟩
  | none =>
    have empty : a.backlog.size = 0 := congrArg List.length (rested free)
    exact absurd waits (by simp [empty])

end Arbiter

namespace Keyboard

/-- Whatever is done with a keyboard, with whatever extensions: the backlog keeps within its room
and holds no tick, records wait only behind an undecided press, and the candidate is a key, which if
it is up has been tapped, up to fifteen times in a row. When no candidate is undecided, the events
that were dispatched for the last time are exactly those that came, up to the last reset or
overflow. -/
theorem dispatched_of_settled {η χ : Type} [Host η] [Hooks χ] (km : Keymap) (settings : Settings)
    (layer : LayerNumber) (capacity : Nat) (host : η) (hooks : χ) (calls : List (Call η)) :
    let first := start settings layer capacity host hooks
    let last := (calls.foldl (call km) first).arbiter
    let told := sinceDrop (first.journal km calls)
    last.backlog.size ≤ capacity ∧
    (∀ r ∈ last.backlog.records, r.isTick = false) ∧
    (0 < last.backlog.size →
      ∃ c, last.candidate = some c ∧ c.event.pressed = true ∧ c.tap.count = 0) ∧
    (∀ c, last.candidate = some c → c.isTick = false ∧
      (c.event.pressed = false → 1 ≤ c.tap.count ∧ c.tap.count ≤ 15)) ∧
    ((∀ c, last.candidate = some c → c.isUndecided = false) →
      (arrivals told).Perm (finalEvents (emissions told))) := by
  intro first last told
  have h : Arbiter.Faithful capacity (first.journal km calls) last := by
    have begins : Arbiter.Faithful capacity [] first.arbiter :=
      Arbiter.faithful_start settings layer capacity
    exact (Arbiter.lasting_faithful km capacity).calls calls begins
  refine ⟨?_, ?_, ?_, ?_, ?_⟩
  · exact h.room ▸ h.fits
  · intro r hr
    exact h.sound.real _ (Arbiter.line_mem_heldEvents hr)
  · intro waits
    obtain ⟨c, hc, undecided⟩ := h.rested.exists_undecided waits
    exact ⟨c, hc, Record.isUndecided_iff.mp undecided⟩
  · intro c hc
    refine ⟨h.sound.real_candidate hc, fun up => ?_⟩
    exact ⟨(h.sound.counted c hc).2 up, (h.sound.counted c hc).1⟩
  · intro decided
    have free : last.undecided? = none :=
      Option.filter_eq_none_iff.mpr fun c hc => by simp [decided c hc]
    have complete := h.complete
    rw [Arbiter.Complete, Arbiter.awaited_of_free free, h.rested free, List.map_nil,
      List.append_nil] at complete
    exact complete

/-- A reset drops an undecided press and what waits behind it: two presses came, no candidate is
left, and yet nothing has left the arbiter, no overflow either. -/
theorem lost_of_reset :
    let km := Keymap.ofKeys fun key => if key = ⟨0, 0⟩ then 0x812c else 0x0004
    let first := start .standard 0 8 CallLog.empty NoHooks.none
    let calls : List (Call CallLog) :=
      [.event ⟨⟨0, 0⟩, true, ⟨10⟩⟩, .event ⟨⟨0, 1⟩, true, ⟨20⟩⟩, .reset]
    let told := first.journal km calls
    (calls.foldl (call km) first).arbiter.candidate = none ∧
      arrivals told = [⟨⟨0, 0⟩, true, ⟨10⟩⟩, ⟨⟨0, 1⟩, true, ⟨20⟩⟩] ∧
      emissions told = [] := by
  decide +kernel

end Keyboard

end TapHold
