import TapHold.Proofs.Arbiter.Chain

/-!
# Room in the backlog

The backlog never holds more than it has room for (`fits_handle`). When a record finds it full,
everything is lost, and that is the last thing that comes of the event: attempts do not overflow,
and nothing is left to be drained (`handle_passes`, `overflow_notMem_handle`).
-/

set_option autoImplicit false

namespace TapHold

namespace Arbiter

variable {km : Keymap} {a b : Arbiter} {r : Record} {out : List Emission} {e : KeyEvent}

/-! ## Attempts do not overflow -/

theorem overflow_notMem_dispatch (a : Arbiter) (km : Keymap) (r : Record) (s : Bool) :
    Emission.overflow ∉ (a.dispatch km r s).emitted := by
  cases real : r.isTick with
  | true =>
    rw [dispatch_of_tick a km real]
    exact List.not_mem_nil
  | false =>
    rw [dispatch_of_real a km real, List.mem_singleton]
    exact Emission.noConfusion

theorem overflow_notMem_dispatchTap (a : Arbiter) (km : Keymap) (c : Record) :
    Emission.overflow ∉ (a.dispatchTap km c).emitted := overflow_notMem_dispatch a km _ false

theorem overflow_notMem_adopt (a : Arbiter) (km : Keymap) (c : Record) :
    Emission.overflow ∉ (a.adopt km c).emitted := by
  unfold adopt
  split
  · exact overflow_notMem_dispatchTap a km c
  · exact List.not_mem_nil

theorem overflow_notMem_attemptFree (a : Arbiter) (km : Keymap) (r : Record) :
    Emission.overflow ∉ (a.attemptFree km r).emitted := by
  unfold attemptFree
  split
  · exact overflow_notMem_adopt a km r
  · exact overflow_notMem_dispatch a km r false

theorem overflow_notMem_attemptReleased (a : Arbiter) (km : Keymap) (c r : Record) :
    Emission.overflow ∉ (a.attemptReleased km c r).emitted := by
  unfold attemptReleased
  split
  · exact overflow_notMem_attemptFree _ km r
  split
  · exact overflow_notMem_dispatch a km r false
  split
  · split
    · exact overflow_notMem_dispatch a km _ false
    · exact overflow_notMem_adopt a km r
  · split
    · exact overflow_notMem_adopt a km r
    · exact overflow_notMem_dispatch _ km r false

theorem overflow_notMem_attemptUndecided (a : Arbiter) (km : Keymap) (c r : Record) :
    Emission.overflow ∉ (a.attemptUndecided km c r).emitted := by
  unfold attemptUndecided
  split
  · exact overflow_notMem_dispatch a km c false
  split
  · exact List.not_mem_nil
  split
  · exact overflow_notMem_dispatchTap a km c
  split
  · exact List.not_mem_nil
  split
  · exact overflow_notMem_dispatch a km c false
  split
  · exact List.not_mem_nil
  · exact overflow_notMem_dispatch a km r false

theorem overflow_notMem_attemptTapped (a : Arbiter) (km : Keymap) (c r : Record) :
    Emission.overflow ∉ (a.attemptTapped km c r).emitted := by
  unfold attemptTapped
  split
  · exact overflow_notMem_dispatch a km _ false
  split
  · unfold displaceTap
    split
    · rw [List.mem_append, not_or]
      exact ⟨overflow_notMem_dispatch a km _ true, overflow_notMem_adopt _ km r⟩
    · exact overflow_notMem_adopt a km r
  · exact overflow_notMem_dispatch a km r false

theorem overflow_notMem_attempt (a : Arbiter) (km : Keymap) (r : Record) :
    Emission.overflow ∉ (a.attempt km r).emitted := by
  unfold attempt
  split
  · exact overflow_notMem_attemptFree a km r
  split
  · exact overflow_notMem_attemptReleased a km _ r
  split
  · exact overflow_notMem_attemptUndecided a km _ r
  · exact overflow_notMem_attemptTapped a km _ r

theorem overflow_notMem_advance? (h : a.advance? km = some (b, out)) : Emission.overflow ∉ out := by
  obtain ⟨r, -, -, rfl, -⟩ := advance?_cases h
  exact overflow_notMem_attempt a km r

theorem overflow_notMem_drain (a : Arbiter) (km : Keymap) :
    Emission.overflow ∉ (a.drain km).2 := by
  fun_induction drain a km with
  | case1 a stuck => exact List.not_mem_nil
  | case2 a b out advanced less rest ih =>
    rw [List.mem_append, not_or]
    exact ⟨overflow_notMem_advance? advanced, ih⟩

/-! ## An overflow comes last -/

/-- The event `e` passes, and then everything may be lost. -/
inductive Passes (km : Keymap) (e : KeyEvent) (a : Arbiter) : List Emission → Arbiter → Prop where
  /-- There is room. -/
  | kept {out : List Emission} {b : Arbiter} (calm : Emission.overflow ∉ out)
      (passage : Passage km e a out b) : Passes km e a out b
  /-- The event finds the backlog full. -/
  | lost {out : List Emission} {b : Arbiter} (calm : Emission.overflow ∉ out)
      (passage : Passage km e a out b) : Passes km e a (out ++ [.overflow]) b.forget

theorem accept_passes (rested : a.Rested) (real : e.isTick = false) :
    Passes km e a (a.accept km e).2 (a.accept km e).1 := by
  have calm := overflow_notMem_attempt a km (.ofEvent e)
  have passage : Passage km e a (a.attempt km (.ofEvent e)).emitted _ :=
    attempt_passage rested real
  rcases accept_of_real a km real with kept | lost
  · rw [kept]
    exact .kept calm passage
  · rw [lost]
    exact .lost calm passage

theorem drain_of_line (km : Keymap) (empty : a.line = []) : a.drain km = (a, []) := by
  have records : a.backlog.records = [] := empty
  exact drain_of_stuck (by simp only [advance?, records])

/-- Processing an event is a passage of the event, after which everything may be lost. -/
theorem handle_passes (rested : a.Rested) (real : e.isTick = false) :
    Passes km e a (a.handle km e).2 (a.handle km e).1 := by
  have accepted : Passes km e a (a.accept km e).2 (a.accept km e).1 := accept_passes rested real
  show Passes km e a ((a.accept km e).2 ++ ((a.accept km e).1.drain km).2)
    ((a.accept km e).1.drain km).1
  generalize (a.accept km e).1 = b at accepted ⊢
  generalize (a.accept km e).2 = out at accepted ⊢
  cases accepted with
  | kept calm passage =>
    refine .kept ?_ (passage.then (drain_moves b km))
    rw [List.mem_append, not_or]
    exact ⟨calm, overflow_notMem_drain b km⟩
  | @lost out b calm passage =>
    have empty : b.forget.line = [] := rfl
    rw [drain_of_line km empty, List.append_nil]
    exact .lost calm passage

/-- Time passes without an overflow. -/
theorem overflow_notMem_handle (tick : e.isTick = true)
    (real : ∀ c, a.candidate = some c → c.isTick = false) :
    Emission.overflow ∉ (a.handle km e).2 := by
  unfold handle
  rw [List.mem_append, not_or, accept_of_tick tick real]
  exact ⟨overflow_notMem_attempt a km _, overflow_notMem_drain _ km⟩

/-! ## The backlog holds what it has room for -/

theorem capacity_dispatch (a : Arbiter) (km : Keymap) (r : Record) (s : Bool) :
    (a.dispatch km r s).arbiter.backlog.capacity = a.backlog.capacity :=
  congrArg Backlog.capacity (backlog_dispatch a km r s)

theorem capacity_move (m : Move km a out b) : b.backlog.capacity = a.backlog.capacity := by
  cases m with
  | lapse | interrupt | start | overflow => rfl
  | hold | pass | overtake | again | release | displace => exact capacity_dispatch a km _ _
  | tap | startTap => exact capacity_dispatch a km _ _

theorem capacity_moves (m : Moves km a out b) : b.backlog.capacity = a.backlog.capacity :=
  m.keep (p := fun d => d.backlog.capacity = a.backlog.capacity)
    (fun m same => (capacity_move m).trans same) rfl

theorem capacity_passage (p : Passage km e a out b) : b.backlog.capacity = a.backlog.capacity := by
  obtain ⟨a₁, a₂, out₁, out₂, out₃, before, arrival, after, -⟩ := p
  have arrived : a₂.backlog.capacity = a₁.backlog.capacity := by
    cases arrival with
    | join => rfl
    | tap => exact capacity_dispatch a₁ km _ _
  rw [capacity_moves after, arrived, capacity_moves before]

/-- The backlog holds no more than it has room for. -/
def Fits (a : Arbiter) : Prop := a.line.length ≤ a.backlog.capacity

theorem fits_postpone (h : Fits a) : Fits (a.postpone r).1 := by
  unfold postpone Backlog.push?
  split
  · rename_i pushed
    split at pushed
    · exact Option.some.inj pushed ▸ h
    split at pushed
    · rename_i room
      obtain rfl := Option.some.inj pushed
      show (a.line ++ [r]).length ≤ a.backlog.capacity
      rw [List.length_append]
      exact room
    · cases pushed
  · exact Nat.zero_le _

theorem fits_accept (rested : a.Rested) (noTick : ∀ c, a.candidate = some c → c.isTick = false)
    (h : Fits a) : Fits (a.accept km e).1 := by
  have capacity : (a.attempt km (.ofEvent e)).arbiter.backlog.capacity = a.backlog.capacity := by
    cases tick : e.isTick with
    | true => exact capacity_moves (attempt_tick (r := .ofEvent e) tick noTick).2
    | false =>
      have passage : Passage km e a (a.attempt km (.ofEvent e)).emitted _ :=
        attempt_passage rested tick
      have joined := capacity_passage passage
      exact joined
  have tried : Fits (a.attempt km (.ofEvent e)).arbiter := by
    unfold Fits
    rw [capacity]
    exact Nat.le_trans (Nat.le_of_eq (size_attempt a km (.ofEvent e))) h
  unfold accept
  dsimp only
  split
  · exact tried
  · exact fits_postpone tried

theorem fits_advance? (h : Fits a) (advanced : a.advance? km = some (b, out)) : Fits b := by
  unfold Fits
  rw [capacity_moves (advance?_moves advanced)]
  refine Nat.le_trans ?_ h
  show b.backlog.size ≤ a.backlog.size
  obtain ⟨r, rest, hl, -, ⟨-, rfl⟩ | ⟨s, -, -, rfl⟩⟩ := advance?_cases advanced
  · show (a.attempt km r).arbiter.line.tail.length ≤ a.line.length
    rw [List.length_tail]
    exact Nat.le_trans (Nat.sub_le _ _) (Nat.le_of_eq (size_attempt a km r))
  · show (s :: rest).length ≤ a.line.length
    rw [hl]
    exact Nat.le_refl _

theorem fits_drain (h : Fits a) : Fits (a.drain km).1 := by
  fun_induction drain a km with
  | case1 a stuck => exact h
  | case2 a b out advanced less rest ih => exact ih (fits_advance? h advanced)

/-- Processing an event leaves no more in the backlog than it has room for. -/
theorem fits_handle (rested : a.Rested) (noTick : ∀ c, a.candidate = some c → c.isTick = false)
    (h : Fits a) : Fits (a.handle km e).1 := fits_drain (fits_accept rested noTick h)

end Arbiter

end TapHold
