import TapHold.Proofs.Arbiter.Scanned

/-!
# What a step means for the keys

A move and an arrival are seen from outside in the same way: at most one record is handed to the
interpreter, and what is due and awaited for each key is as before, but for the key of that record
(`Step`, `step_move`, `step_arrival`). A key is at rest when it is up and none of its edges is
awaited (`AtRest`).
-/

set_option autoImplicit false

namespace TapHold

namespace Arbiter

variable {km : Keymap} {a b : Arbiter} {c r : Record} {rest : List Record} {out : List Emission}
  {down down' : Position → Bool} {e : KeyEvent} {key : Position} {tapped : Bool}

/-- The key is up, and none of its edges is awaited. -/
def AtRest (down : Position → Bool) (a : Arbiter) (key : Position) : Prop :=
  edges down a.awaited key = [true]

/-- A press of the key is awaited. -/
def PressAwaited (a : Arbiter) (key : Position) : Prop :=
  ∃ x ∈ a.awaited, x.key = key ∧ x.pressed = true

/-- A press of the key is dispatched. -/
def Pressed (out : List Emission) (key : Position) : Prop :=
  ∃ d, out = [.dispatched d] ∧ d.given.event.key = key ∧ d.given.event.pressed = true

/-- The arbiter `a` becomes `b`, and at most one record is handed to the interpreter. -/
structure Step (km : Keymap) (down : Position → Bool) (a : Arbiter) (out : List Emission)
    (down' : Position → Bool) (b : Arbiter) : Prop where
  emits : Emits km a out b
  due : ∀ key tapped, Due down a key tapped → Due down' b key tapped ∨ Released out key tapped
  busy : ∀ key, ¬ AtRest down a key → ¬ AtRest down' b key ∨ ∃ tapped, Released out key tapped
  press : ∀ key, PressAwaited a key → PressAwaited b key ∨ Pressed out key
  pressed : ∀ key, Pressed out key → ¬ AtRest down' b key
  tapped : ∀ d, out = [.dispatched d] → d.given.event.pressed = true → 0 < d.settled.tap.count →
    Due down' b d.given.event.key true ∨
      (km.HasModsTapKey a.interpreter.settings d.given.event.key ∧
        a.interpreter.isModsTapKeyAt km d.given.event.key = false ∧
          PressAwaited b d.given.event.key)

/-! ## What is awaited -/

/-- What an emission dispatches of the awaited events. -/
theorem Emits.dispatched (h : Emits km a out b) :
    dispatchedEvents out = [] ∨
      ∃ d, out = [.dispatched d] ∧ dispatchedEvents out = [d.given.event] := by
  rcases h with ⟨rfl, -⟩ | ⟨r, synthetic, -, -, rfl, -⟩
  · exact Or.inl rfl
  · cases synthetic with
    | true => exact Or.inl rfl
    | false => exact Or.inr ⟨_, rfl, rfl⟩

/-- A press that is dispatched is an awaited event. -/
theorem Emits.one_of_pressed (h : Emits km a out b) {d : Dispatched} (hd : out = [.dispatched d])
    (pressed : d.given.event.pressed = true) : dispatchedEvents out = [d.given.event] := by
  rcases h with ⟨rfl, -⟩ | ⟨r, synthetic, -, up, rfl, -⟩
  · cases hd
  · obtain rfl := Emission.eq_of_dispatched hd
    cases synthetic with
    | true => cases (up rfl).symm.trans pressed
    | false => rfl

theorem not_atRest_of_head (head : (edges down a.awaited key).head? = some false) :
    ¬ AtRest down a key := by
  intro same
  rw [same] at head
  cases head

/-- After its press a key is not at rest. -/
theorem not_atRest_of_press (h : Alternates down a.awaited) (f : Flow km a out b.awaited)
    (one : dispatchedEvents out = [e]) (pressed : e.pressed = true) : ¬ AtRest down b e.key := by
  unfold AtRest
  generalize b.awaited = es at f
  cases f with
  | inOrder eq =>
    rw [eq, one, List.singleton_append] at h
    have head := head?_edges h
    intro same
    rw [same, pressed] at head
    cases head
  | overtake eq one' up _ =>
    obtain rfl := List.singleton_inj.mp (one.symm.trans one')
    cases up.symm.trans pressed
  | @twice _ _ rest eq one' =>
    obtain rfl := List.singleton_inj.mp (one.symm.trans one')
    rw [edges_cons_of_eq rfl]
    intro same
    exact edges_ne_nil down rest e.key (List.cons.inj same).2
  | lost => cases one

/-- A key whose press is awaited is not at rest. -/
theorem PressAwaited.not_atRest (h : PressAwaited a key) : ¬ AtRest down a key := by
  obtain ⟨x, hx, rfl, -⟩ := h
  intro rest
  have member : x.pressed ∈ (a.awaited.filter fun e => e.key = x.key).map KeyEvent.pressed :=
    List.mem_map_of_mem (List.mem_filter.mpr ⟨hx, decide_eq_true rfl⟩)
  have length := congrArg List.length rest
  rw [edges, List.length_append, List.length_singleton, List.length_singleton] at length
  rw [List.eq_nil_of_length_eq_zero (Nat.succ.inj length)] at member
  cases member

/-- A key that is up is at rest when nothing waits and no candidate is undecided. -/
theorem atRest_of_settled (up : down key = false) (empty : a.backlog.size = 0)
    (decided : ∀ c, a.candidate = some c → c.isUndecided = false) : AtRest down a key := by
  have line : a.line = [] := List.eq_nil_of_length_eq_zero empty
  have free : a.undecided? = none := Option.filter_eq_none_iff.mpr fun c hc => by simp [decided c hc]
  rw [AtRest, awaited_of_free free, line, edges, up]
  rfl

theorem pressAwaited_flow (emits : Emits km a out b) (f : Flow km a out b.awaited)
    (h : PressAwaited a key) : PressAwaited b key ∨ Pressed out key := by
  obtain ⟨x, hx, isKey, isPress⟩ := h
  have shown (here : x ∈ dispatchedEvents out) : Pressed out key := by
    rcases emits.dispatched with none | ⟨d, hd, one⟩
    · rw [none] at here
      cases here
    · rw [one] at here
      obtain rfl := List.mem_singleton.mp here
      exact ⟨d, hd, isKey, isPress⟩
  unfold PressAwaited
  generalize b.awaited = es at f ⊢
  cases f with
  | inOrder eq =>
    rw [eq] at hx
    rcases List.mem_append.mp hx with here | later
    · exact Or.inr (shown here)
    · exact Or.inl ⟨x, later, isKey, isPress⟩
  | overtake eq one up _ =>
    rw [eq] at hx
    rcases List.mem_append.mp hx with before | here
    · exact Or.inl ⟨x, List.mem_append_left _ before, isKey, isPress⟩
    rcases List.mem_cons.mp here with rfl | behind
    · cases up.symm.trans isPress
    · exact Or.inl ⟨x, List.mem_append_right _ behind, isKey, isPress⟩
  | twice eq =>
    exact Or.inl ⟨x, eq ▸ hx, isKey, isPress⟩
  | lost =>
    rcases emits with ⟨none, -⟩ | ⟨r, synthetic, -, -, one, -⟩
    · cases none
    · cases List.singleton_inj.mp one

/-! ## Moves -/

theorem step_move (o : Orderly down a) (ch : Chronological a) (m : Move km a out b)
    (kept : out ≠ [.overflow]) : Step km down a out down b where
  emits := emits_move o m kept
  due := fun key tapped due => due_move o m kept due
  busy := by
    intro key busy
    have emits := emits_move o m kept
    have flow := flow_move o m
    rcases emits.dispatched with none | ⟨d, hd, one⟩
    · left
      rw [AtRest, edges_flow flow kept (by simp [none])]
      exact busy
    by_cases same : d.given.event.key = key
    · cases pressed : d.given.event.pressed with
      | true => exact Or.inl (same ▸ not_atRest_of_press o.alternates flow one pressed)
      | false => exact Or.inr ⟨_, d, hd, same, pressed, rfl⟩
    · left
      rw [AtRest, edges_flow flow kept (by simpa [one] using same)]
      exact busy
  press := fun key => pressAwaited_flow (emits_move o m kept) (flow_move o m)
  pressed := by
    rintro key ⟨d, hd, rfl, pressed⟩
    exact not_atRest_of_press o.alternates (flow_move o m)
      ((emits_move o m kept).one_of_pressed hd pressed) pressed
  tapped := fun d hd pressed counted => Or.inl (due_of_tap o ch m hd pressed counted)

/-! ## Arrivals -/

/-- An arrival leaves no key at rest that was not. -/
theorem not_atRest_join {es : List KeyEvent} (next : e.pressed = !down e.key)
    (busy : edges down es key ≠ [true]) : edges (e.after down) (es ++ [e]) key ≠ [true] := by
  rw [edges_join next]
  split
  · intro same
    have length := congrArg List.length same
    rw [List.length_append, List.length_singleton, List.length_singleton] at length
    exact edges_ne_nil down es key (List.eq_nil_of_length_eq_zero (by omega))
  · exact busy

theorem step_arrival (o : Orderly down a) (ch : Chronological a) (scanned : Scanned km a)
    (arrival : Arrival km e a out b) (real : e.isTick = false) (next : e.pressed = !down e.key)
    (late : ∀ x ∈ a.heldEvents, e.time.isNotBefore x.time = true) :
    Step km down a out (e.after down) b := by
  have flow := flow_arrival o arrival
  have longer := alternates_join o.alternates next
  rw [flow] at longer
  have emits := emits_arrival o arrival
  -- what is dispatched is a press, and its release is the next edge of its key
  have after : ∀ d, out = [.dispatched d] → d.given.event.pressed = true →
      ¬ AtRest (e.after down) b d.given.event.key := by
    intro d hd pressed
    rw [emits.one_of_pressed hd pressed, List.singleton_append] at longer
    have head := head?_edges longer
    rw [pressed] at head
    exact not_atRest_of_head head
  refine ⟨emits, fun key tapped due => Or.inl (due_arrival o arrival next due), ?_, ?_, ?_,
    fun d hd _ counted => due_of_tap_arrival o ch scanned arrival real next late hd counted⟩
  · intro key busy
    have joined := not_atRest_join next busy
    rw [flow] at joined
    rcases emits.dispatched with none | ⟨d, hd, one⟩
    · rw [none, List.nil_append] at joined
      exact Or.inl joined
    by_cases same : d.given.event.key = key
    · cases pressed : d.given.event.pressed with
      | true => exact Or.inl (same ▸ after d hd pressed)
      | false => exact Or.inr ⟨_, d, hd, same, pressed, rfl⟩
    · rw [one, List.singleton_append, edges_cons_of_ne same] at joined
      exact Or.inl joined
  · rintro key ⟨x, hx, isKey, isPress⟩
    have here : x ∈ dispatchedEvents out ++ b.awaited := flow ▸ List.mem_append_left _ hx
    rcases List.mem_append.mp here with shown | later
    · right
      rcases emits.dispatched with none | ⟨d, hd, one⟩
      · rw [none] at shown
        cases shown
      · rw [one] at shown
        obtain rfl := List.mem_singleton.mp shown
        exact ⟨d, hd, isKey, isPress⟩
    · exact Or.inl ⟨x, later, isKey, isPress⟩
  · rintro key ⟨d, hd, rfl, pressed⟩
    exact after d hd pressed

end Arbiter

end TapHold
