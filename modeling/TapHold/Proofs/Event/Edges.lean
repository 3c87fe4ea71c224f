import Mathlib.Data.List.Chain
import TapHold.Event

/-!
# The edges of a key

A key goes down and up in turn. `edges` lists the edges of one key among the events still to come to
the interpreter, and after them the one edge that the key itself can have next; `Alternates` says
that no two edges of a key in a row are the same. Taking an event out keeps this as long as no event
of its key stands before it (`alternates_take`), and so does the next edge of a key when it is added
at the end (`alternates_join`).
-/

set_option autoImplicit false

namespace TapHold

/-- Which keys are down after an event. -/
def KeyEvent.after (e : KeyEvent) (down : Position → Bool) : Position → Bool :=
  fun key => if key = e.key then e.pressed else down key

/-- Which keys are down at the start: none. -/
def allUp : Position → Bool := fun _ => false

/-- The edges of a key among the events `es`, and then the next one that the key can have. -/
def edges (down : Position → Bool) (es : List KeyEvent) (key : Position) : List Bool :=
  (es.filter fun e => e.key = key).map KeyEvent.pressed ++ [!down key]

/-- Every key goes down and up in turn. -/
def Alternates (down : Position → Bool) (es : List KeyEvent) : Prop :=
  ∀ key, (edges down es key).IsChain (· ≠ ·)

variable {down : Position → Bool} {es pre post : List KeyEvent} {e : KeyEvent} {key : Position}

theorem edges_cons_of_eq (h : e.key = key) :
    edges down (e :: es) key = e.pressed :: edges down es key := by
  simp [edges, h]

theorem edges_cons_of_ne (h : e.key ≠ key) : edges down (e :: es) key = edges down es key := by
  simp [edges, h]

theorem edges_ne_nil (down : Position → Bool) (es : List KeyEvent) (key : Position) :
    edges down es key ≠ [] := by
  simp [edges]

/-- Edges of other keys do not matter. -/
theorem edges_append_of_ne (h : ∀ s ∈ pre, s.key ≠ key) :
    edges down (pre ++ post) key = edges down post key := by
  have none : pre.filter (fun s => s.key = key) = [] :=
    List.filter_eq_nil_iff.mpr fun s hs => by simpa using h s hs
  simp [edges, none]

theorem edges_middle_of_ne (h : e.key ≠ key) :
    edges down (pre ++ e :: post) key = edges down (pre ++ post) key := by
  simp [edges, h]

/-- An event before which only events of other keys stand may be taken to the front, where one key
is concerned. -/
theorem filter_overtake {pre post : List KeyEvent} (other : ∀ s ∈ pre, s.key ≠ e.key)
    (key : Position) : (e :: (pre ++ post)).filter (fun e => e.key = key) =
      (pre ++ e :: post).filter fun e => e.key = key := by
  by_cases isKey : e.key = key
  · have none : pre.filter (fun e => e.key = key) = [] :=
      List.filter_eq_nil_iff.mpr fun s hs => by simpa [isKey] using other s hs
    rw [List.filter_append, none, List.nil_append, List.filter_cons_of_pos (by simpa using isKey),
      List.filter_cons_of_pos (by simpa using isKey), List.filter_append, none, List.nil_append]
  · simp [isKey]

theorem alternates_nil (down : Position → Bool) : Alternates down [] :=
  fun key => List.isChain_singleton (!down key)

/-- An event may be taken out before which no event of its key stands. -/
theorem alternates_take (h : Alternates down (pre ++ e :: post))
    (first : ∀ s ∈ pre, s.key ≠ e.key) : Alternates down (pre ++ post) := by
  intro key
  have chain := h key
  by_cases same : e.key = key
  · subst same
    rw [edges_append_of_ne first] at chain ⊢
    rw [edges_cons_of_eq rfl] at chain
    exact chain.tail
  · rwa [edges_middle_of_ne same] at chain

theorem alternates_tail (h : Alternates down (e :: es)) : Alternates down es :=
  have first : Alternates down ([] ++ e :: es) := h
  alternates_take first (by simp)

theorem alternates_drop (h : Alternates down (pre ++ post)) : Alternates down post := by
  induction pre with
  | nil => exact h
  | cons s pre ih => exact ih (alternates_tail h)

/-- The next edge of a key that arrives comes after all others. -/
theorem edges_join (next : e.pressed = !down e.key) :
    edges (e.after down) (es ++ [e]) key =
      if e.key = key then edges down es key ++ [!e.pressed] else edges down es key := by
  by_cases same : e.key = key
  · subst same
    simp [edges, KeyEvent.after, next]
  · simp [edges, KeyEvent.after, same, Ne.symm same]

/-- The next edge of a key joins at the end. -/
theorem alternates_join (h : Alternates down es) (next : e.pressed = !down e.key) :
    Alternates (e.after down) (es ++ [e]) := by
  intro key
  have chain := h key
  rw [edges_join next]
  split
  · rename_i same
    subst same
    refine chain.append (List.isChain_singleton _) ?_
    simp [edges, ← next]
  · exact chain

theorem head?_edges_join (next : e.pressed = !down e.key) :
    (edges (e.after down) (es ++ [e]) key).head? = (edges down es key).head? := by
  rw [edges_join next]
  split
  · rw [List.head?_append_of_ne_nil _ (edges_ne_nil down es key)]
  · rfl

/-- After an edge of a key comes the opposite one. -/
theorem head?_edges (h : Alternates down (e :: es)) :
    (edges down es e.key).head? = some (!e.pressed) := by
  have chain := h e.key
  rw [edges_cons_of_eq rfl] at chain
  cases tail : edges down es e.key with
  | nil => exact absurd tail (edges_ne_nil down es e.key)
  | cons b bs =>
    rw [tail, List.isChain_cons_cons] at chain
    have opposite : b = !e.pressed := by
      cases hb : b <;> cases hp : e.pressed <;> simp_all
    simp [opposite]

/-- Where only edges like `e` stand before it, none of its key do. -/
theorem ne_key_of_alternates (h : Alternates down (pre ++ e :: post))
    (like : ∀ s ∈ pre, s.key = e.key → s.pressed = e.pressed) : ∀ s ∈ pre, s.key ≠ e.key := by
  have chain := h e.key
  have split : edges down (pre ++ e :: post) e.key =
      (pre.filter fun s => s.key = e.key).map KeyEvent.pressed ++
        e.pressed :: edges down post e.key := by
    simp [edges]
  rw [split, List.isChain_append] at chain
  have none : pre.filter (fun s => s.key = e.key) = [] := by
    by_contra some
    have hs := List.getLast?_eq_some_getLast some
    have member := List.getLast_mem some
    rw [List.mem_filter] at member
    refine chain.2.2 _ ?_ e.pressed rfl (like _ member.1 (by simpa using member.2))
    rw [List.getLast?_map, hs]
    rfl
  intro s hs same
  have member : s ∈ pre.filter fun s => s.key = e.key := List.mem_filter.mpr ⟨hs, by simpa using same⟩
  rw [none] at member
  exact List.not_mem_nil member

/-- The last edge of a key that is down is a press. -/
theorem exists_press_of_down (h : Alternates down es) (isDown : down key = true)
    (some : ∃ x ∈ es, x.key = key) : ∃ x ∈ es, x.key = key ∧ x.pressed = true := by
  have chain := h key
  unfold edges at chain
  rw [List.isChain_append] at chain
  have nonempty : es.filter (fun s => s.key = key) ≠ [] := by
    obtain ⟨x, hx, same⟩ := some
    exact List.ne_nil_of_mem (List.mem_filter.mpr ⟨hx, by simpa using same⟩)
  have member := List.getLast_mem nonempty
  rw [List.mem_filter] at member
  refine ⟨_, member.1, by simpa using member.2, ?_⟩
  have last : ((es.filter fun s => s.key = key).map KeyEvent.pressed).getLast? =
      Option.some ((es.filter fun s => s.key = key).getLast nonempty).pressed := by
    rw [List.getLast?_map, List.getLast?_eq_some_getLast nonempty]
    rfl
  have differs := chain.2.2 _ (Option.mem_def.mpr last) (!down key) rfl
  simpa [isDown] using differs

end TapHold
