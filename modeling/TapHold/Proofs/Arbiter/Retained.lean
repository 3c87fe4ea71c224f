import TapHold.Proofs.Arbiter.Carry
import TapHold.Proofs.Arbiter.Sound
import TapHold.Proofs.Arbiter.Tick

/-!
# Events while a press stays undecided

While the same press stays undecided, an event has at most one record dispatched: its own, if it is
a release, and if this release lets no modifier go (`handle_undecided`). Everything else waits, or
decides about the press. What waits in front of the line is a press or the release of a modifier,
and it goes on waiting (`drain_of_blocked`): the release that was dispatched may have changed the
layers, but not what the keys are bound to.

An undecided press that another one like it replaces has been dispatched. Where there is no other
one like it, the events that are awaited tell that it has not (`notMem_finalEvents`).
-/

set_option autoImplicit false

namespace TapHold

/-- An event of which a record is dispatched for the last time is the event of a record that is
dispatched. -/
theorem exists_of_mem_finalEvents {out : List Emission} {e : KeyEvent} (h : e ∈ finalEvents out) :
    ∃ d, Emission.dispatched d ∈ out ∧ d.given.event = e := by
  obtain ⟨x, hx, final⟩ := List.mem_filterMap.mp h
  cases x with
  | overflow => cases final
  | dispatched d =>
    rw [Emission.finalEvent?] at final
    split at final
    · exact ⟨d, hx, Option.some.inj final⟩
    · cases final

namespace Arbiter

variable {km : Keymap} {a b : Arbiter} {c r : Record} {rest : List Record} {e : KeyEvent}
  {t : Attempt}

/-- Whether a record has to wait for the decision about an undecided press: a press, or a release
that lets a modifier go. -/
def Blocks (km : Keymap) (a : Arbiter) (r : Record) : Bool :=
  r.event.pressed || a.interpreter.holdsModifier km r

/-- What comes of a record `r` that meets the undecided press `c`: the press is dispatched for the
last time, or the record waits and the press stays undecided, or the record passes. -/
inductive Encounter (km : Keymap) (a : Arbiter) (c r : Record) : Attempt → Prop where
  | decides {t : Attempt} (final : c.event ∈ finalEvents t.emitted)
      (free : t.arbiter.undecided? = none) : Encounter km a c r t
  | waits (d : Record) (event : d.event = c.event) (undecided : d.isUndecided = true)
      (blocks : r.isTick = true ∨ a.Blocks km r = true) :
      Encounter km a c r ⟨a.withCandidate (some d), some r, []⟩
  | passes (real : r.isTick = false) (up : r.event.pressed = false)
      (plain : a.interpreter.holdsModifier km r = false) : Encounter km a c r (a.pass km r)

theorem encounter_settleHold (real : c.isTick = false) (hu : c.isUndecided = true) :
    Encounter km a c r (a.settleHold km c r) := by
  refine .decides ?_ rfl
  have zero : c.tap.count = 0 := (Record.isUndecided_iff.mp hu).2
  rw [settleHold, finalEvents_dispatch a km real fun _ => by omega]
  exact List.mem_singleton_self _

theorem encounter (km : Keymap) (hc : a.candidate = some c) (hu : c.isUndecided = true)
    (real : c.isTick = false) (r : Record) : Encounter km a c r (a.attempt km r) := by
  have unchanged : a = a.withCandidate (some c) := by
    rw [← hc]
    rfl
  rw [attempt_undecided hc hu]
  unfold attemptUndecided
  split
  · exact encounter_settleHold real hu
  split
  · rename_i down
    exact .waits c.interrupt rfl hu (Or.inr (by rw [Blocks, down, Bool.true_or]))
  rename_i notDown
  have up : r.event.pressed = false := by simpa using notDown
  split
  · refine .decides ?_ (undecided?_dispatchTap a km c)
    rw [settleTap, finalEvents_dispatchTap a km real]
    exact List.mem_singleton_self _
  split
  · rename_i tick
    have waits : Encounter km a c r _ := .waits c rfl hu (Or.inl tick)
    rw [← unchanged] at waits
    exact waits
  rename_i notTick
  split
  · exact encounter_settleHold real hu
  split
  · rename_i holds
    have waits : Encounter km a c r _ :=
      .waits c rfl hu (Or.inr (by rw [Blocks, holds, Bool.or_true]))
    rw [← unchanged] at waits
    exact waits
  · rename_i plain
    exact .passes (by simpa using notTick) up (by simpa using plain)

/-- What waits in front of the line when nothing comes of it blocks the line. -/
theorem blocks_of_stuck (s : Sound a) (hc : a.candidate = some c) (hu : c.isUndecided = true)
    (stuck : a.advance? km = none) (hl : a.line = r :: rest) : a.Blocks km r = true := by
  have records : a.backlog.records = r :: rest := hl
  have met := encounter km hc hu (s.real_candidate hc) r
  simp only [advance?, records] at stuck
  generalize a.attempt km r = t at met stuck
  cases met with
  | decides final free =>
    have differs : t.arbiter.candidate ≠ a.candidate := by
      intro same
      rw [undecided?, same, ← undecided?, undecided?_eq_some hc hu] at free
      cases free
    cases waiting : t.waiting <;> simp [waiting, differs] at stuck
  | waits d event undecided blocks =>
    exact blocks.resolve_left (by simp [s.real_front hl])
  | passes => cases stuck

/-- As long as the front of the line blocks it, draining dispatches nothing, or it dispatches the
undecided press. -/
theorem drain_of_blocked (km : Keymap) (hc : a.candidate = some c) (hu : c.isUndecided = true)
    (real : c.isTick = false) (blocked : ∀ r ∈ a.line.head?, a.Blocks km r = true) :
    (a.drain km).2 = [] ∨ c.event ∈ finalEvents (a.drain km).2 := by
  induction a using drain.induct km generalizing c with
  | case1 a stuck => exact Or.inl (by rw [drain_of_stuck stuck])
  | case2 a b out advanced less ih =>
    rw [drain_of_advance? advanced]
    obtain ⟨r, others, hl, rfl⟩ := attempt_of_advance? advanced
    have records : a.backlog.records = r :: others := hl
    have met := encounter km hc hu real r
    simp only [advance?, records] at advanced
    generalize a.attempt km r = t at met advanced ⊢
    cases met with
    | decides final free =>
      rw [finalEvents_append]
      exact Or.inr (List.mem_append_left _ final)
    | waits d event undecided blocks =>
      dsimp only at advanced
      split at advanced
      · cases advanced
      obtain ⟨rfl, -⟩ := Prod.mk.inj (Option.some.inj advanced)
      have next := ih (c := d) rfl undecided (by rwa [Record.isTick, event]) fun s hs => ?_
      · rwa [event] at next
      · simp [line, withCandidate, Backlog.setFront, records] at hs
        exact hs ▸ blocked r (by rw [hl]; rfl)
    | passes notTick up plain =>
      have waits := blocked r (by rw [hl]; rfl)
      rw [Blocks, up, plain] at waits
      cases waits

/-- A record that blocks the line joins it behind records of which the first blocks it, too. Then
draining does nothing, or it dispatches the undecided press; unless the line overflows. -/
theorem drain_postpone_of_blocks (km : Keymap) (hc : a.candidate = some c)
    (hu : c.isUndecided = true) (real : c.isTick = false)
    (blocked : ∀ r ∈ a.line.head?, a.Blocks km r = true)
    (blocks : r.isTick = true ∨ a.Blocks km r = true) :
    let kept := a.postpone r
    let out := kept.2 ++ (kept.1.drain km).2
    c.event ∈ finalEvents out ∨ .overflow ∈ out ∨ out = [] := by
  cases tick : r.isTick with
  | true =>
    -- a tick does not join the line
    rw [postpone_tick _ tick]
    exact (drain_of_blocked km hc hu real blocked).elim (fun none => Or.inr (Or.inr none)) Or.inl
  | false =>
    rcases postpone_real a tick with joined | lost
    · have front : ∀ s ∈ (a.line ++ [r]).head?, a.Blocks km s = true := by
        intro s hs
        cases hl : a.line with
        | nil =>
          rw [hl] at hs
          obtain rfl := Option.some.inj hs
          exact blocks.resolve_left (by simp [tick])
        | cons first rest =>
          rw [hl] at hs
          exact blocked s (by rw [hl]; exact hs)
      rw [joined]
      exact (drain_of_blocked km (a := a.withLine (a.line ++ [r])) hc hu real front).elim
        (fun none => Or.inr (Or.inr none)) Or.inl
    · rw [lost]
      exact Or.inr (Or.inl (List.mem_append_left _ (List.mem_singleton_self _)))

/-- **While a press is undecided**, an event has the press dispatched for the last time, or the
line overflows, or nothing is dispatched but the event itself, the release of a key that lets no
modifier go. -/
theorem handle_undecided (uniform : km.Uniform a.interpreter.settings) (s : Sound a)
    (stuck : a.advance? km = none) (hc : a.candidate = some c) (hu : c.isUndecided = true)
    (e : KeyEvent) :
    c.event ∈ finalEvents (a.handle km e).2 ∨ .overflow ∈ (a.handle km e).2 ∨
      (a.handle km e).2 = [] ∨
      (e.isTick = false ∧ e.pressed = false ∧ a.interpreter.holdsModifier km (.ofEvent e) = false ∧
        (a.handle km e).2 = (a.dispatch km (.ofEvent e) false).emitted) := by
  have real := s.real_candidate hc
  have met := encounter km hc hu real (.ofEvent e)
  have blocked : ∀ r ∈ a.line.head?, a.Blocks km r = true := by
    intro r hr
    obtain ⟨rest, hl⟩ := List.head?_eq_some_iff.mp hr
    exact blocks_of_stuck s hc hu stuck hl
  have split : (a.handle km e).2 = (a.accept km e).2 ++ ((a.accept km e).1.drain km).2 := rfl
  rw [split]
  unfold accept
  generalize a.attempt km (.ofEvent e) = t at met
  cases met with
  | decides final free =>
    left
    rw [finalEvents_append]
    refine List.mem_append_left _ ?_
    dsimp only
    split
    · exact final
    · rw [finalEvents_append]
      exact List.mem_append_left _ final
  | passes notTick up plain =>
    -- the release may have changed the layers, but the keys are bound to what they were
    have settings := settings_dispatch a km (.ofEvent e) false
    have still := drain_of_blocked km (a := (a.dispatch km (.ofEvent e) false).arbiter)
      ((candidate_dispatch a km _ false).trans hc) hu real fun r hr => ?_
    · rcases still with none | final
      · exact Or.inr (Or.inr (Or.inr ⟨notTick, up, plain, by
          show (a.dispatch km (.ofEvent e) false).emitted ++ _ = _
          rw [pass, none, List.append_nil]⟩))
      · left
        rw [finalEvents_append]
        exact List.mem_append_right _ final
    · rw [line_dispatch] at hr
      rw [Blocks, Interpreter.holdsModifier_of_uniform uniform settings]
      exact blocked r hr
  | waits d event undecided blocks =>
    have still := drain_postpone_of_blocks km (a := a.withCandidate (some d)) (r := .ofEvent e) rfl
      undecided (by rwa [Record.isTick, event]) blocked blocks
    rw [event] at still
    exact still.imp_right fun other => other.imp_right Or.inl

/-- The events that were awaited and the event that comes are those that are dispatched for the last
time and those that are awaited then. -/
theorem complete_handle (s : Sound a) (rested : a.Rested) (e : KeyEvent)
    (calm : .overflow ∉ (a.handle km e).2) :
    (a.awaited ++ realEvents [e]).Perm
      (finalEvents (a.handle km e).2 ++ (a.handle km e).1.awaited) := by
  have all : Complete a.awaited [] a := List.Perm.refl _
  cases tick : e.isTick with
  | true =>
    have none : realEvents [e] = [] := by simp [realEvents, tick]
    rw [none, List.append_nil]
    exact (complete_moves (handle_tick_moves tick fun _ hc => s.real_candidate hc) calm s all).2
  | false =>
    have one : realEvents [e] = [e] := by simp [realEvents, tick]
    have passes : Passes km e a (a.handle km e).2 (a.handle km e).1 := handle_passes rested tick
    rw [one]
    generalize (a.handle km e).1 = b at passes ⊢
    generalize (a.handle km e).2 = out at passes calm ⊢
    cases passes with
    | kept _ passage => exact (complete_passage passage tick calm s all).2
    | lost => exact absurd (List.mem_append_right _ (List.mem_singleton_self _)) calm

/-- After an overflow nothing is undecided. -/
theorem overflow_notMem_of_undecided (s : Sound a) (rested : a.Rested) {e : KeyEvent}
    (undecided : (a.handle km e).1.undecided? = some c) : .overflow ∉ (a.handle km e).2 := by
  cases tick : e.isTick with
  | true => exact overflow_notMem_handle tick fun _ hc => s.real_candidate hc
  | false =>
    have passes : Passes km e a (a.handle km e).2 (a.handle km e).1 := handle_passes rested tick
    generalize (a.handle km e).1 = b at passes undecided
    generalize (a.handle km e).2 = out at passes ⊢
    cases passes with
    | kept calm => exact calm
    | lost => cases undecided

/-- A press that is awaited once before an event and still awaited after it has not been
dispatched. -/
theorem notMem_finalEvents (s : Sound a) (rested : a.Rested) {e : KeyEvent} {d : Record}
    (before : a.undecided? = some c) (after : (a.handle km e).1.undecided? = some d)
    (same : d.event = c.event) (alone : c.event ∉ a.line.map Record.event) (other : e ≠ c.event) :
    c.event ∉ finalEvents (a.handle km e).2 := by
  intro final
  obtain ⟨hc, hu⟩ := of_undecided? before
  obtain ⟨hd, hv⟩ := of_undecided? after
  have complete := complete_handle s rested e (overflow_notMem_of_undecided s rested after)
  have counts := complete.count_eq c.event
  have notNew : c.event ∉ realEvents [e] := by
    intro new
    exact other (List.mem_singleton.mp (List.mem_filter.mp new).1).symm
  rw [awaited_of_undecided hc hu, awaited_of_undecided hd hv, same, List.count_append,
    List.count_append, List.count_cons_self, List.count_cons_self, List.count_eq_zero.mpr alone,
    List.count_eq_zero.mpr notNew] at counts
  have one := List.count_pos_iff.mpr final
  omega

end Arbiter

end TapHold
