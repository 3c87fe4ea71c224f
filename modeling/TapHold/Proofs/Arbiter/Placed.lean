import TapHold.Proofs.Arbiter.Turns

/-!
# Where the awaited events stand among the arrivals

Each awaited event is found among the events that have arrived, such that the ones awaited behind it
have arrived behind it (`Placed`). The order in which events are awaited is that of their arrival,
since only releases overtake, and those are no longer awaited then (`placed_move`).
-/

set_option autoImplicit false

namespace TapHold

/-- Each awaited event is an arrival. The events that are awaited behind it have arrived behind it,
and the events of its key that arrived before it are those that are done or awaited before it. -/
def Placed (arrived done awaited : List KeyEvent) : Prop :=
  ∀ (pre : List KeyEvent) (x : KeyEvent) (post : List KeyEvent), awaited = pre ++ x :: post →
    ∃ before after, arrived = before ++ x :: after ∧ post.Sublist after ∧
      before.filter (fun e => e.key = x.key) = (done ++ pre).filter fun e => e.key = x.key

variable {arrived done es pre post : List KeyEvent} {e x : KeyEvent}

/-- The first awaited events are done. -/
theorem Placed.dispatch (h : Placed arrived done (es ++ post)) : Placed arrived (done ++ es) post := by
  intro p x q split
  have whole : es ++ post = (es ++ p) ++ x :: q := by rw [split, List.append_assoc]
  obtain ⟨before, after, found, behind, order⟩ := h _ x q whole
  refine ⟨before, after, found, behind, ?_⟩
  rw [order, List.append_assoc]

/-- An event before which only events of other keys are awaited is done. -/
theorem Placed.overtake (h : Placed arrived done (pre ++ e :: post))
    (other : ∀ s ∈ pre, s.key ≠ e.key) : Placed arrived (done ++ [e]) (pre ++ post) := by
  intro p x q split
  -- the awaited event stands before the one that overtakes, or behind it
  rcases Account.split_append split with ⟨mid, rfl, rfl⟩ | ⟨mid, rfl, rfl⟩
  · have whole : (p ++ x :: mid) ++ e :: post = p ++ x :: (mid ++ e :: post) := by simp
    obtain ⟨before, after, found, behind, order⟩ := h p x _ whole
    refine ⟨before, after, found, ?_, ?_⟩
    · exact ((List.sublist_cons_self e post).append_left mid).trans behind
    · have foreign : e.key ≠ x.key := fun same => other x (by simp) same.symm
      rw [order]
      simp [foreign]
  · have whole : pre ++ e :: (mid ++ x :: q) = (pre ++ e :: mid) ++ x :: q := by simp
    obtain ⟨before, after, found, behind, order⟩ := h _ x q whole
    refine ⟨before, after, found, behind, ?_⟩
    rw [order, List.append_assoc, List.filter_append, List.filter_append (done),
      List.singleton_append, filter_overtake other x.key]

/-- An event arrives and is awaited behind all others. -/
theorem Placed.join (h : Placed arrived done es)
    (order : (done ++ es).filter (fun s => s.key = e.key) = arrived.filter fun s => s.key = e.key) :
    Placed (arrived ++ [e]) done (es ++ [e]) := by
  intro p x q split
  -- the awaited event is an old one, or the one that has just arrived
  rcases Account.split_append split with ⟨mid, rfl, rfl⟩ | ⟨mid, last, rfl⟩
  · obtain ⟨before, after, rfl, behind, same⟩ := h p x mid rfl
    exact ⟨before, after ++ [e], by simp, behind.append (List.Sublist.refl [e]), same⟩
  · have single : mid = [] ∧ x = e ∧ q = [] := by
      cases mid with
      | nil => simpa [eq_comm] using last
      | cons y mid => simp at last
    obtain ⟨rfl, rfl, rfl⟩ := single
    refine ⟨arrived, [], rfl, List.Sublist.refl [], ?_⟩
    rw [List.append_nil]
    exact order.symm

/-- Ticks in between do not matter. -/
theorem exists_split_of_realEvents {before after : List KeyEvent}
    (split : realEvents es = before ++ x :: after) (real : x.isTick = false) :
    ∃ before' after', es = before' ++ x :: after' ∧ (∀ y ∈ after, y ∈ after') ∧
      before'.filter (fun e => e.key = x.key) = before.filter fun e => e.key = x.key := by
  obtain ⟨first, rest, rfl, hfirst, hrest⟩ := List.filter_eq_append_iff.mp split
  obtain ⟨ticks, last, rfl, none, -, hlast⟩ := List.filter_eq_cons_iff.mp hrest
  refine ⟨first ++ ticks, last, by simp, ?_, ?_⟩
  · intro y hy
    rw [← hlast] at hy
    exact List.mem_of_mem_filter hy
  · -- neither the ticks in front of the event nor those between the others have its key
    have noTicks : ticks.filter (fun e => e.key = x.key) = [] := by
      refine List.filter_eq_nil_iff.mpr fun y hy same => ?_
      have tick : y.isTick = true := by simpa using none y hy
      simp only [decide_eq_true_eq] at same
      rw [KeyEvent.isTick, same] at tick
      cases real.symm.trans tick
    have noTick : ∀ y ∈ first, decide (y.key = x.key) = true → (!y.isTick) = true := by
      intro y _ same
      simp only [decide_eq_true_eq] at same
      have realY : y.isTick = false := by
        rw [KeyEvent.isTick, same]
        exact real
      rw [realY]
      rfl
    rw [List.filter_append, noTicks, List.append_nil, ← hfirst, List.filter_filter]
    refine List.filter_congr fun y hy => ?_
    cases same : decide (y.key = x.key) with
    | false => rfl
    | true => rw [noTick y hy same]; rfl

namespace Arbiter

variable {km : Keymap} {a b : Arbiter} {out out' : List Emission} {down : Position → Bool}

theorem placed_move (o : Orderly down a) (m : Move km a out' b) (kept : out' ≠ [.overflow])
    (h : Placed arrived (finalEvents out) a.awaited) :
    Placed arrived (finalEvents (out ++ out')) b.awaited := by
  rw [finalEvents_append]
  rcases finalFlow_move o m kept with flow | ⟨pre, e, post, split, one, -, other, left⟩
  · rw [flow] at h
    exact h.dispatch
  · rw [split] at h
    rw [one, left]
    exact h.overtake other

theorem placed_arrival (o : Orderly down a) (arrival : Arrival km e a out' b)
    (order : KeepsOrder e.key arrived out a) (h : Placed arrived (finalEvents out) a.awaited) :
    Placed (arrived ++ [e]) (finalEvents (out ++ out')) b.awaited := by
  rw [finalEvents_append]
  have longer := h.join order
  rw [finalFlow_arrival o arrival] at longer
  exact longer.dispatch

end Arbiter

end TapHold
