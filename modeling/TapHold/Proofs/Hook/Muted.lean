import TapHold.Proofs.Keyboard.Journal

/-!
# Extensions that queue nothing

`Muted` extensions do what others do, except that they queue no event: where the others queue one,
they go on as if it had been accepted, or refused when there would be no more room. An outlet with
muted extensions does the same to its host, and its extensions come to the same states
(`muted_emitAll`), so a keyboard with muted extensions handles an event as the keyboard does
otherwise, and nothing is queued behind it (`process_muted`).
-/

set_option autoImplicit false

namespace TapHold

/-- Extensions with states `χ` that queue nothing. -/
structure Muted (χ : Type) where
  hooks : χ
  /-- How many more events they are to take for accepted. -/
  room : Nat

variable {η χ : Type}

namespace HookProgram

/-- The program without the events that it queues. It goes on as if there had been room for so many
of them. -/
def mute : HookProgram χ → Nat → HookProgram (Muted χ)
  | .done hooks, room => .done ⟨hooks, room⟩
  | .call c next, room => .call c (next.mute room)
  | .modifiers next, room => .modifiers fun bits => (next bits).mute room
  | .inject _ next, room => (next (decide (0 < room))).mute (room - 1)

theorem mute_within (p : HookProgram χ) (room : Nat) : (p.mute room).Within (fun _ => 0) 0 := by
  induction p generalizing room with
  | done hooks => exact Nat.le_refl 0
  | call c next ih => exact ih room
  | modifiers next ih => exact fun bits => ih bits room
  | inject e next ih => exact ih _ (room - 1)

end HookProgram

/-- Muted extensions have no budget: they can queue nothing. -/
instance [Hooks χ] : Hooks (Muted χ) where
  answer s c := (Extensions.answer s.hooks c).mute s.room
  unknown s code := { s with hooks := Extensions.unknown s.hooks code }
  budget _ := 0
  answer_within s c := (Extensions.answer s.hooks c).mute_within s.room
  unknown_budget _ _ := Nat.le_refl 0

/-! ## Outlets -/

namespace Outlet

/-- How many more events can be queued. -/
def room (o : Outlet η χ) : Nat := injectCapacity - o.injected.length

theorem accepts_iff (o : Outlet η χ) : o.injected.length < injectCapacity ↔ 0 < o.room :=
  Nat.sub_pos_iff_lt.symm

theorem inject_of_room {o : Outlet η χ} (some : o.injected.length < injectCapacity) (e : KeyEvent) :
    o.inject e = ({ o with injected := o.injected ++ [e] }, true) := if_pos some

theorem inject_of_full {o : Outlet η χ} (full : ¬ o.injected.length < injectCapacity)
    (e : KeyEvent) : o.inject e = (o, false) := if_neg full

theorem accepted_inject (o : Outlet η χ) (e : KeyEvent) :
    (o.inject e).2 = decide (0 < o.room) := by
  by_cases some : o.injected.length < injectCapacity
  · rw [inject_of_room some, decide_eq_true (o.accepts_iff.mp some)]
  · rw [inject_of_full some, decide_eq_false (mt o.accepts_iff.mpr some)]

theorem room_inject (o : Outlet η χ) (e : KeyEvent) : (o.inject e).1.room = o.room - 1 := by
  by_cases some : o.injected.length < injectCapacity
  · rw [inject_of_room some, room, List.length_append, room]
    exact Nat.sub_add_eq _ _ _
  · rw [inject_of_full some, Nat.eq_zero_of_not_pos (mt o.accepts_iff.mpr some)]

theorem host_inject (o : Outlet η χ) (e : KeyEvent) : (o.inject e).1.host = o.host := by
  unfold inject
  split <;> rfl

/-- The outlet with its extensions muted. -/
def muted (o : Outlet η χ) : Outlet η (Muted χ) := ⟨o.host, ⟨o.hooks, o.room⟩, []⟩

variable [Host η]

/-- A program does the same without the events that it queues, and so do the extensions that it
leaves. The extensions from before it make no difference. -/
theorem muted_runProgram (p : HookProgram χ) (o : Outlet η χ) (before : Muted χ) :
    (o.runProgram p).muted = (Outlet.mk o.host before []).runProgram (p.mute o.room) := by
  induction p generalizing o with
  | done hooks => rfl
  | call c next ih => exact ih (o.call c)
  | modifiers next ih => exact ih (Host.modifiers o.host) o
  | inject e next ih =>
    show ((o.inject e).1.runProgram (next (o.inject e).2)).muted =
      Outlet.runProgram _ ((next (decide (0 < o.room))).mute (o.room - 1))
    rw [ih, host_inject, room_inject, accepted_inject]

variable [Hooks χ]

theorem muted_emit (o : Outlet η χ) (x : Emission) : (o.emit x).muted = o.muted.emit x := by
  cases x with
  | dispatched d =>
    show (o.perform d.effect).muted = o.muted.perform d.effect
    cases d.effect with
    | request r => rfl
    | hook c => exact muted_runProgram (Extensions.answer o.hooks c) o o.muted.hooks
    | unknown code => rfl
  | overflow => rfl

/-- **An outlet does the same to its host when its extensions queue nothing**, and the extensions
come to the same states. -/
theorem muted_emitAll (o : Outlet η χ) (out : List Emission) :
    (o.emitAll out).muted = o.muted.emitAll out := by
  induction out generalizing o with
  | nil => rfl
  | cons x out ih =>
    show ((o.emit x).emitAll out).muted = (o.muted.emit x).emitAll out
    rw [ih, muted_emit]

end Outlet

/-! ## Keyboards -/

namespace Keyboard

/-- The keyboard with its extensions muted. -/
def muted (kb : Keyboard η χ) : Keyboard η (Muted χ) := ⟨kb.arbiter, kb.outlet.muted⟩

/-- The keyboard with its extensions no longer muted. -/
def unmuted (kb : Keyboard η (Muted χ)) : Keyboard η χ :=
  ⟨kb.arbiter, ⟨kb.outlet.host, kb.outlet.hooks.hooks, kb.outlet.injected⟩⟩

variable [Host η] [Hooks χ] (km : Keymap) (kb : Keyboard η χ) (e : KeyEvent)

theorem muted_handle : (kb.handle km e).muted = kb.muted.handle km e :=
  congrArg (Keyboard.mk _) (Outlet.muted_emitAll kb.outlet _)

/-- A keyboard with muted extensions is done with an event when it has handled it. -/
theorem process_muted : kb.muted.process km e = (kb.handle km e).muted := by
  rw [process, ← muted_handle]
  exact processInjected_of_nil km rfl

theorem processNotes_muted :
    kb.muted.processNotes km e = handled e (kb.arbiter.handle km e).2 := by
  have nothing : (kb.muted.handle km e).outlet.injected = [] := by
    rw [← muted_handle]
    rfl
  rw [processNotes, injectedNotes_of_nil km nothing, List.append_nil]
  rfl

/-- Only what is queued behind the event is missing. -/
theorem unmuted_process :
    (kb.muted.process km e).unmuted = (kb.handle km e).withInjected [] := by
  rw [process_muted]
  rfl

end Keyboard

end TapHold
