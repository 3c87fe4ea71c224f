import TapHold.Proofs.Event.Edges

/-!
# A ledger of arrivals

Every event gets the number of its arrival. `History` is what the arrivals themselves give: each
release ends the press before it. `Account` says how the entries are split into those that have been
dispatched, in the order of their dispatch, and those that are awaited: each arrival is entered
once, a key keeps its order, and only a release whose press was dispatched has overtaken anything.
Taking the first awaited entries out (`Account.dispatch`), taking out a release before which no edge
of its key is awaited (`Account.overtake`) and a new arrival (`Account.join`) keep this.
-/

set_option autoImplicit false

namespace TapHold

/-- An event with the number of its arrival. -/
abbrev Entry := KeyEvent × Nat

/-- The entry `p` is the press that the release `x` ends: the last edge of its key before it. -/
structure IsPressOf (entries : List Entry) (p x : Entry) : Prop where
  key : p.1.key = x.1.key
  down : p.1.pressed = true
  before : p.2 < x.2
  last : ∀ z ∈ entries, z.1.key = x.1.key → z.2 ≤ p.2 ∨ x.2 ≤ z.2

/-- What the arrivals of keys that go down and up in turn give. -/
structure History (down : Position → Bool) (arrived : List KeyEvent) : Prop where
  ended : ∀ x ∈ arrived.zipIdx, x.1.pressed = false →
    ∃ p ∈ arrived.zipIdx, IsPressOf arrived.zipIdx p x
  current : ∀ key, down key = true → ∃ p ∈ arrived.zipIdx, p.1.key = key ∧ p.1.pressed = true ∧
    ∀ z ∈ arrived.zipIdx, z.1.key = key → z.2 ≤ p.2

/-- How the arrivals are split into dispatched and awaited entries. -/
structure Account (arrived : List KeyEvent) (done waiting : List Entry) : Prop where
  complete : (done ++ waiting).Perm arrived.zipIdx
  sorted : waiting.Pairwise fun x y => x.2 < y.2
  keyOrder : (done ++ waiting).Pairwise fun x y => x.1.key = y.1.key → x.2 < y.2
  overtaking : ∀ (pre : List Entry) (x : Entry) (post : List Entry), done = pre ++ x :: post →
    ∀ y ∈ post ++ waiting, y.2 < x.2 →
      x.1.pressed = false ∧ ∃ p ∈ pre, IsPressOf arrived.zipIdx p x

variable {down : Position → Bool} {arrived : List KeyEvent} {e : KeyEvent}
  {done waiting : List Entry} {x : Entry}

theorem zipIdx_concat (arrived : List KeyEvent) (e : KeyEvent) :
    (arrived ++ [e]).zipIdx = arrived.zipIdx ++ [(e, arrived.length)] := by
  simp [List.zipIdx_append]

theorem number_lt (hx : x ∈ arrived.zipIdx) : x.2 < arrived.length :=
  List.snd_lt_of_mem_zipIdx hx

/-- A later arrival changes nothing about an earlier press. -/
theorem IsPressOf.join {p : Entry} (h : IsPressOf arrived.zipIdx p x)
    (hx : x ∈ arrived.zipIdx) : IsPressOf (arrived ++ [e]).zipIdx p x where
  key := h.key
  down := h.down
  before := h.before
  last := by
    intro z hz same
    rw [zipIdx_concat] at hz
    rcases List.mem_append.mp hz with earlier | new
    · exact h.last z earlier same
    · rw [List.mem_singleton.mp new]
      exact Or.inr (Nat.le_of_lt (number_lt hx))

/-! ## Arrivals -/

theorem history_nil : History allUp [] where
  ended := fun _ hx => by cases hx
  current := fun _ h => by cases h

/-- The next edge of a key arrives. -/
theorem History.join (h : History down arrived) (next : e.pressed = !down e.key) :
    History (e.after down) (arrived ++ [e]) where
  ended := by
    intro x hx up
    rw [zipIdx_concat] at hx
    rcases List.mem_append.mp hx with earlier | new
    · obtain ⟨p, hp, press⟩ := h.ended x earlier up
      refine ⟨p, ?_, press.join earlier⟩
      rw [zipIdx_concat]
      exact List.mem_append_left _ hp
    · -- the key was down, and its last edge was its press
      obtain rfl := List.mem_singleton.mp new
      have isUp : e.pressed = false := up
      have isDown : down e.key = true := by simpa [isUp] using next
      obtain ⟨p, hp, key, pressed, last⟩ := h.current e.key isDown
      refine ⟨p, ?_, key, pressed, number_lt hp, ?_⟩
      · rw [zipIdx_concat]
        exact List.mem_append_left _ hp
      · intro z hz same
        rw [zipIdx_concat] at hz
        rcases List.mem_append.mp hz with earlier | new
        · exact Or.inl (last z earlier same)
        · rw [List.mem_singleton.mp new]
          exact Or.inr (Nat.le_refl _)
  current := by
    intro key isDown
    rw [zipIdx_concat]
    by_cases same : key = e.key
    · subst same
      refine ⟨(e, arrived.length), by simp, rfl, by simpa [KeyEvent.after] using isDown, ?_⟩
      intro z hz _
      rcases List.mem_append.mp hz with earlier | new
      · exact Nat.le_of_lt (number_lt earlier)
      · rw [List.mem_singleton.mp new]
    · have was : down key = true := by simpa [KeyEvent.after, same] using isDown
      obtain ⟨p, hp, hkey, pressed, last⟩ := h.current key was
      refine ⟨p, List.mem_append_left _ hp, hkey, pressed, ?_⟩
      intro z hz other
      rcases List.mem_append.mp hz with earlier | new
      · exact last z earlier other
      · rw [List.mem_singleton.mp new] at other
        exact absurd other.symm same

namespace Account

theorem nil : Account [] [] [] where
  complete := List.Perm.refl _
  sorted := List.Pairwise.nil
  keyOrder := List.Pairwise.nil
  overtaking := by
    intro pre x post h
    simp at h

theorem mem_arrived (h : Account arrived done waiting) {y : Entry} (hy : y ∈ done ++ waiting) :
    y ∈ arrived.zipIdx := h.complete.mem_iff.mp hy

/-- Of two lists with one element in the middle of them, the element is in the first or in the
second. -/
theorem split_append {α : Type} {x : α} {pre post es fs : List α}
    (h : es ++ fs = pre ++ x :: post) :
    (∃ mid, es = pre ++ x :: mid ∧ post = mid ++ fs) ∨
      (∃ mid, fs = mid ++ x :: post ∧ pre = es ++ mid) := by
  rcases List.append_eq_append_iff.mp h with ⟨mid, hpre, hfs⟩ | ⟨mid, hes, hpost⟩
  · exact Or.inr ⟨mid, hfs, hpre⟩
  · cases mid with
    | nil =>
      rw [List.append_nil] at hes
      rw [List.nil_append] at hpost
      exact Or.inr ⟨[], hpost.symm, by rw [List.append_nil]; exact hes.symm⟩
    | cons z mid =>
      rw [List.cons_append, List.cons.injEq] at hpost
      obtain ⟨rfl, rfl⟩ := hpost
      exact Or.inl ⟨mid, hes, rfl⟩

/-- The first awaited entries are dispatched. -/
theorem dispatch {es rest : List Entry} (h : Account arrived done (es ++ rest)) :
    Account arrived (done ++ es) rest where
  complete := by
    rw [List.append_assoc]
    exact h.complete
  sorted := (List.pairwise_append.mp h.sorted).2.1
  keyOrder := by
    rw [List.append_assoc]
    exact h.keyOrder
  overtaking := by
    intro pre x post split y hy less
    rcases split_append split with ⟨mid, hdone, rfl⟩ | ⟨mid, hes, rfl⟩
    · rw [List.append_assoc] at hy
      exact h.overtaking pre x mid hdone y hy less
    · -- the awaited entries are in the order of their arrival
      have sorted := h.sorted
      rw [hes, List.append_assoc] at sorted
      have behind := (List.pairwise_append.mp sorted).2.1
      rw [List.cons_append, List.pairwise_cons] at behind
      exact absurd less (Nat.not_lt_of_lt (behind.1 y hy))

/-- An element may come before others to which it is related. -/
theorem pairwise_overtake {α : Type} {R : α → α → Prop} {done pre post : List α} {x : α}
    (h : (done ++ (pre ++ x :: post)).Pairwise R) (first : ∀ s ∈ pre, R x s) :
    (done ++ [x] ++ (pre ++ post)).Pairwise R := by
  obtain ⟨inDone, waiting, cross⟩ := List.pairwise_append.mp h
  obtain ⟨inPre, behind, across⟩ := List.pairwise_append.mp waiting
  obtain ⟨last, inPost⟩ := List.pairwise_cons.mp behind
  rw [List.append_assoc, List.singleton_append, List.pairwise_append, List.pairwise_cons,
    List.pairwise_append]
  refine ⟨inDone, ⟨fun z hz => ?_, inPre, inPost, fun y hy z hz => ?_⟩, fun y hy z hz => ?_⟩
  · rcases List.mem_append.mp hz with before | after
    · exact first z before
    · exact last z after
  · exact across y hy z (List.mem_cons_of_mem x hz)
  · exact cross y hy z (List.perm_middle.mem_iff.mpr hz)

/-- A release before which no edge of its key is awaited is dispatched. -/
theorem overtake {pre post : List Entry} (h : Account arrived done (pre ++ x :: post))
    (history : History down arrived) (up : x.1.pressed = false)
    (other : ∀ s ∈ pre, s.1.key ≠ x.1.key) : Account arrived (done ++ [x]) (pre ++ post) where
  complete := by
    have moved : (done ++ [x] ++ (pre ++ post)).Perm (done ++ (pre ++ x :: post)) := by
      rw [List.append_assoc, List.singleton_append]
      exact List.perm_middle.symm.append_left done
    exact moved.trans h.complete
  sorted := h.sorted.sublist ((List.sublist_cons_self x post).append_left pre)
  keyOrder := by
    refine pairwise_overtake h.keyOrder fun s hs same => ?_
    exact absurd same.symm (other s hs)
  overtaking := by
    intro first z last split y hy less
    rcases split_append split with ⟨mid, hdone, rfl⟩ | ⟨mid, hx, rfl⟩
    · refine h.overtaking first z mid hdone y ?_ less
      simp only [List.mem_append, List.mem_cons, List.not_mem_nil] at hy ⊢
      tauto
    · -- the release itself: its press arrived before it and is not awaited
      have single : mid = [] ∧ z = x ∧ last = [] := by
        cases mid with
        | nil => simpa [eq_comm] using hx
        | cons w mid => simp at hx
      obtain ⟨rfl, rfl, rfl⟩ := single
      rw [List.append_nil]
      refine ⟨up, ?_⟩
      have arrivedZ : z ∈ arrived.zipIdx := h.mem_arrived (by simp)
      obtain ⟨p, hp, press⟩ := history.ended z arrivedZ up
      refine ⟨p, ?_, press⟩
      have sorted := (List.pairwise_append.mp h.sorted).2.1
      rw [List.pairwise_cons] at sorted
      rcases List.mem_append.mp (h.complete.mem_iff.mpr hp) with dispatched | waits
      · exact dispatched
      rcases List.mem_append.mp waits with before | here
      · exact absurd press.key (other p before)
      rcases List.mem_cons.mp here with rfl | after
      · cases up.symm.trans press.down
      · exact absurd press.before (Nat.not_lt_of_lt (sorted.1 p after))

/-- A new arrival is awaited behind all others. -/
theorem join (h : Account arrived done waiting) (e : KeyEvent) :
    Account (arrived ++ [e]) done (waiting ++ [(e, arrived.length)]) where
  complete := by
    rw [zipIdx_concat, ← List.append_assoc]
    exact h.complete.append_right _
  sorted := by
    rw [List.pairwise_append]
    refine ⟨h.sorted, List.pairwise_singleton _ _, ?_⟩
    intro y hy z hz
    rw [List.mem_singleton.mp hz]
    exact number_lt (h.mem_arrived (List.mem_append_right _ hy))
  keyOrder := by
    rw [← List.append_assoc, List.pairwise_append]
    refine ⟨h.keyOrder, List.pairwise_singleton _ _, ?_⟩
    intro y hy z hz _
    rw [List.mem_singleton.mp hz]
    exact number_lt (h.mem_arrived hy)
  overtaking := by
    intro pre x post split y hy less
    have hx : x ∈ arrived.zipIdx := h.mem_arrived (by simp [split])
    rw [← List.append_assoc] at hy
    rcases List.mem_append.mp hy with old | new
    · obtain ⟨up, p, hp, press⟩ := h.overtaking pre x post split y old less
      exact ⟨up, p, hp, press.join hx⟩
    · rw [List.mem_singleton.mp new] at less
      exact absurd less (Nat.not_lt_of_lt (number_lt hx))

end Account

end TapHold
