import TapHold.Proofs.Arbiter.Sound

/-!
# Presses whose term is over

An undecided press whose term is over at an event is dispatched as a hold before anything else
(`emitted_of_late`). What is awaited afterwards was in line before, or is the event itself
(`heldEvents_of_late`); otherwise it may also be the press that was undecided already
(`awaited_handle`).

A press that moves up in line is not held against the event that let it move up, so a tick settles
one press only. As many ticks as there are presses settle them all (`awaited_ticks`).
-/

set_option autoImplicit false

namespace TapHold

/-- A moment lies in the window that opens at it unless the window is empty. -/
theorem Time.isWithin_self (t : Time) {term : Word} (open' : term ≠ 0) :
    t.isWithin t term = true := by
  have zero : t.since t = 0 := BitVec.sub_self t.ms
  have pos : (0 : Word) < term := by bv_omega
  rw [isWithin, isNotBefore, zero, decide_eq_true pos]
  rfl

namespace Arbiter

variable {km : Keymap} {a b : Arbiter} {c : Record} {e x : KeyEvent} {out : List Emission}

/-- The presses among the awaited events. -/
def awaitedPresses (a : Arbiter) : List KeyEvent := a.awaited.filter KeyEvent.pressed

theorem awaited_sublist_heldEvents (a : Arbiter) : a.awaited.Sublist a.heldEvents := by
  refine List.Sublist.map Record.event (List.Sublist.append_right ?_ a.line)
  cases hc : a.candidate with
  | none => rw [undecided?_of_none hc]
  | some c =>
    cases hu : c.isUndecided with
    | true => rw [undecided?_eq_some hc hu]
    | false =>
      rw [undecided?_of_decided hc hu]
      exact List.nil_sublist _

theorem heldEvents_moves (m : Moves km a out b) : b.heldEvents.Sublist a.heldEvents :=
  m.keep (p := fun d => d.heldEvents.Sublist a.heldEvents)
    (fun m held => (heldEvents_move m).trans held) (List.Sublist.refl _)

theorem heldEvents_postpone (a : Arbiter) (e : KeyEvent) :
    (a.postpone (.ofEvent e)).1.heldEvents.Sublist (a.heldEvents ++ realEvents [e]) := by
  cases tick : e.isTick with
  | true =>
    rw [postpone_tick (r := .ofEvent e) a tick]
    exact List.sublist_append_left _ _
  | false =>
    have one : realEvents [e] = [e] := by simp [realEvents, tick]
    rcases postpone_real (r := .ofEvent e) a tick with kept | lost
    · rw [kept, one]
      simp [heldEvents]
    · rw [lost]
      exact List.nil_sublist _

/-! ## An undecided press whose term is over -/

/-- The press is a hold, and the event that tells so has to wait. -/
theorem accept_of_late (hc : a.candidate = some c) (hu : c.isUndecided = true)
    (late : e.time.isWithin c.event.time a.term = false) :
    a.accept km e =
      (((((a.dispatch km c false).arbiter.withCandidate none).postpone (.ofEvent e)).1),
        (a.dispatch km c false).emitted ++
          (((a.dispatch km c false).arbiter.withCandidate none).postpone (.ofEvent e)).2) := by
  have tried : a.attempt km (.ofEvent e) = a.settleHold km c (.ofEvent e) := by
    have past : (!(Record.ofEvent e).event.time.isWithin c.event.time a.term) = true := by
      simp [late]
    rw [attempt_undecided hc hu, attemptUndecided, if_pos past]
  unfold accept
  rw [tried]
  rfl

/-- An undecided press whose term is over is dispatched as a hold first of all. -/
theorem emitted_of_late (km : Keymap) (hc : a.candidate = some c)
    (hu : c.isUndecided = true) (late : e.time.isWithin c.event.time a.term = false) :
    (a.dispatch km c false).emitted <+: (a.handle km e).2 := by
  show _ <+: (a.accept km e).2 ++ _
  rw [accept_of_late hc hu late, List.append_assoc]
  exact List.prefix_append _ _

/-- After an event that comes too late for an undecided press, nothing is held but what was in line,
and the event. -/
theorem heldEvents_of_late (km : Keymap) (hc : a.candidate = some c)
    (hu : c.isUndecided = true) (late : e.time.isWithin c.event.time a.term = false) :
    (a.handle km e).1.heldEvents.Sublist (a.line.map Record.event ++ realEvents [e]) := by
  unfold handle
  rw [accept_of_late hc hu late]
  have line : ((a.dispatch km c false).arbiter.withCandidate none).heldEvents =
      a.line.map Record.event := by
    rw [heldEvents, line_withCandidate, line_dispatch]
    rfl
  rw [← line]
  exact (heldEvents_moves (drain_moves _ km)).trans (heldEvents_postpone _ e)

/-! ## What is awaited after an event -/

/-- Nothing is awaited after an event but what was awaited before, and the event. -/
theorem awaited_handle (s : Sound a) (rested : a.Rested)
    (h : x ∈ (a.handle km e).1.awaited) : x ∈ a.awaited ++ realEvents [e] := by
  have all : Complete a.awaited [] a := List.Perm.refl _
  cases tick : e.isTick with
  | true =>
    have noTick : ∀ c, a.candidate = some c → c.isTick = false := fun c hc => s.real_candidate hc
    have calm : Emission.overflow ∉ (a.handle km e).2 := overflow_notMem_handle tick noTick
    obtain ⟨-, complete⟩ := complete_moves (handle_tick_moves tick noTick) calm s all
    exact List.mem_append_left _ (complete.mem_iff.mpr (List.mem_append_right _ h))
  | false =>
    have one : realEvents [e] = [e] := by simp [realEvents, tick]
    have passes : Passes km e a (a.handle km e).2 (a.handle km e).1 := handle_passes rested tick
    generalize (a.handle km e).1 = b at passes h
    generalize (a.handle km e).2 = out at passes
    rw [one]
    cases passes with
    | kept calm passage =>
      obtain ⟨-, complete⟩ := complete_passage passage tick calm s all
      exact complete.mem_iff.mpr (List.mem_append_right _ h)
    | lost calm passage => cases h

/-- An undecided candidate is still within its term after an event, unless it moved up in line to
become the candidate, or no press is ever within the term. -/
theorem undecided_handle (s : Sound a) (rested : a.Rested)
    (h : (a.handle km e).1.undecided? = some c) :
    e.time.isWithin c.event.time a.term = true ∨ c.event ∈ a.line.map Record.event ∨
      (c.event = e ∧ a.term = 0) := by
  have awaited : c.event ∈ (a.handle km e).1.awaited := by
    obtain ⟨hc, hu⟩ := of_undecided? h
    rw [awaited_of_undecided hc hu]
    exact List.mem_cons_self
  have arriving (new : c.event ∈ realEvents [e]) :
      e.time.isWithin c.event.time a.term = true ∨ c.event ∈ a.line.map Record.event ∨
        (c.event = e ∧ a.term = 0) := by
    have same : c.event = e := List.mem_singleton.mp (List.mem_filter.mp new).1
    by_cases zero : a.term = 0
    · exact Or.inr (Or.inr ⟨same, zero⟩)
    · rw [same]
      exact Or.inl (Time.isWithin_self e.time zero)
  cases before : a.undecided? with
  | none =>
    rcases List.mem_append.mp (awaited_handle s rested awaited) with old | new
    · rw [awaited_of_free before] at old
      exact Or.inr (Or.inl old)
    · exact arriving new
  | some d =>
    obtain ⟨hd, hu⟩ := of_undecided? before
    cases within : e.time.isWithin d.event.time a.term with
    | true =>
      rcases List.mem_append.mp (awaited_handle s rested awaited) with old | new
      · rw [awaited_of_undecided hd hu] at old
        rcases List.mem_cons.mp old with same | waiting
        · rw [same]
          exact Or.inl within
        · exact Or.inr (Or.inl waiting)
      · exact arriving new
    | false =>
      have held := (heldEvents_of_late km hd hu within).subset
        ((awaited_sublist_heldEvents _).subset awaited)
      rcases List.mem_append.mp held with waiting | new
      · exact Or.inr (Or.inl waiting)
      · exact arriving new

/-! ## Ticks after the terms of all presses -/

theorem term_tick (s : Sound a) (t : Time) : (a.handle km (.tick t)).1.term = a.term :=
  (handle_tick_moves rfl fun _ hc => s.real_candidate hc).keep (p := fun d => d.term = a.term)
    (fun m same => (congrArg Settings.term (settings_move m)).trans same) rfl

theorem awaited_tick_subset (s : Sound a) (rested : a.Rested) (t : Time) :
    (a.handle km (.tick t)).1.awaited ⊆ a.awaited := by
  intro x hx
  rcases List.mem_append.mp (awaited_handle s rested hx) with old | new
  · exact old
  · cases new

/-- A tick after the terms of all awaited presses leaves one press fewer. -/
theorem length_awaitedPresses_tick (km : Keymap) (s : Sound a) (rested : a.Rested) {t : Time}
    (late : ∀ x ∈ a.awaitedPresses, t.isWithin x.time a.term = false) :
    (a.handle km (.tick t)).1.awaitedPresses.length ≤ a.awaitedPresses.length - 1 := by
  cases before : a.undecided? with
  | none =>
    have nothing : a.awaited = [] := by rw [awaited_of_free before, rested before, List.map_nil]
    have rest : (a.handle km (.tick t)).1.awaited = [] :=
      List.subset_nil.mp (nothing ▸ awaited_tick_subset s rested t)
    simp [awaitedPresses, rest]
  | some c =>
    obtain ⟨hc, hu⟩ := of_undecided? before
    have first : a.awaited = c.event :: a.line.map Record.event := awaited_of_undecided hc hu
    have pressed : c.event.pressed = true := (Record.isUndecided_iff.mp hu).1
    have presses : a.awaitedPresses =
        c.event :: (a.line.map Record.event).filter KeyEvent.pressed := by
      rw [awaitedPresses, first, List.filter_cons_of_pos pressed]
    have past := late c.event (presses ▸ List.mem_cons_self)
    have held := heldEvents_of_late km (e := .tick t) hc hu past
    rw [show realEvents [KeyEvent.tick t] = [] from rfl, List.append_nil] at held
    have fewer := (((awaited_sublist_heldEvents _).trans held).filter KeyEvent.pressed).length_le
    rw [presses, List.length_cons, Nat.add_sub_cancel]
    exact fewer

/-- When no press is awaited, nothing is. -/
theorem awaited_of_no_press (rested : a.Rested) (none : a.awaitedPresses = []) :
    a.awaited = [] := by
  cases before : a.undecided? with
  | none => rw [awaited_of_free before, rested before, List.map_nil]
  | some c =>
    obtain ⟨hc, hu⟩ := of_undecided? before
    rw [awaitedPresses, awaited_of_undecided hc hu,
      List.filter_cons_of_pos (Record.isUndecided_iff.mp hu).1] at none
    cases none

/-- As many ticks after the terms of all awaited presses as there are such presses settle
everything. -/
theorem awaited_ticks (s : Sound a) (rested : a.Rested) (ts : List Time)
    (late : ∀ t ∈ ts, ∀ x ∈ a.awaitedPresses, t.isWithin x.time a.term = false)
    (enough : a.awaitedPresses.length ≤ ts.length) :
    (a.run km (ts.map .tick)).1.awaited = [] := by
  induction ts generalizing a with
  | nil => exact awaited_of_no_press rested (List.eq_nil_of_length_eq_zero (Nat.le_zero.mp enough))
  | cons t ts ih =>
    have fewer := length_awaitedPresses_tick km s rested (late t List.mem_cons_self)
    refine ih (a := (a.handle km (.tick t)).1) (sound_handle s rested _) (rested_handle a km _)
      ?_ ?_
    · intro u hu x hx
      rw [term_tick s t]
      refine late u (List.mem_cons_of_mem t hu) x ?_
      rw [awaitedPresses, List.mem_filter] at hx ⊢
      exact ⟨awaited_tick_subset s rested t hx.1, hx.2⟩
    · rw [List.length_cons] at enough
      omega

end Arbiter

end TapHold
