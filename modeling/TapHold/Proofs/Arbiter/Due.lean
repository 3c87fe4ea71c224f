import TapHold.Proofs.Arbiter.Orderly

/-!
# Releases that are due

After a press has been dispatched, the release of its key is due: as the release of a tap or as the
release of a hold (`Due`). A release is due as that of a tap if it waits with a count, or if the key
is a candidate with more than one tap, which takes its release along wherever it waits; with one
tap, the release waits in line and has the count already. A release stays due until a release of the
key is dispatched, and then it is of the kind that was due (`due_move`, `due_arrival`).
-/

set_option autoImplicit false

namespace TapHold

namespace Arbiter

variable {km : Keymap} {a b : Arbiter} {c r : Record} {rest : List Record} {out : List Emission}
  {down : Position → Bool} {e : KeyEvent} {key : Position} {tapped : Bool}

/-- Whether the first record of a key in line has a count. -/
def promise (rs : List Record) (key : Position) : Bool :=
  (rs.find? fun r => r.event.key = key).any fun r => 0 < r.tap.count

theorem promise_cons_of_eq (rs : List Record) (same : r.event.key = key) :
    promise (r :: rs) key = decide (0 < r.tap.count) := by
  simp [promise, same]

theorem promise_cons_of_ne (rs : List Record) (other : r.event.key ≠ key) :
    promise (r :: rs) key = promise rs key := by
  simp [promise, other]

theorem promise_append_of_ne {pre post : List Record} (other : ∀ s ∈ pre, s.event.key ≠ key) :
    promise (pre ++ post) key = promise post key := by
  induction pre with
  | nil => rfl
  | cons s pre ih =>
    rw [List.cons_append, promise_cons_of_ne _ (other s List.mem_cons_self)]
    exact ih fun t ht => other t (List.mem_cons_of_mem s ht)

theorem promise_middle_of_ne (pre post : List Record) (other : r.event.key ≠ key) :
    promise (pre ++ r :: post) key = promise (pre ++ post) key := by
  simp [promise, List.find?_append, other]

/-- A record without a count at the end promises nothing. -/
theorem promise_join (rs : List Record) (zero : r.tap.count = 0) :
    promise (rs ++ [r]) key = promise rs key := by
  unfold promise
  rw [List.find?_append]
  cases rs.find? fun r => r.event.key = key with
  | some s => rfl
  | none => by_cases same : r.event.key = key <;> simp [same, zero]

/-- The tap of a record of another key does not matter. -/
theorem promise_modify_of_ne {p : Record → Bool} (t : Tap) (rs : List Record)
    (other : ∀ s, p s = true → s.event.key ≠ key) :
    promise (Backlog.modifyFirstIn p (fun s => { s with tap := t }) rs) key = promise rs key := by
  induction rs with
  | nil => rfl
  | cons s rs ih =>
    unfold Backlog.modifyFirstIn
    split
    · rename_i found
      rw [promise_cons_of_ne (r := { s with tap := t }) _ (other s found),
        promise_cons_of_ne _ (other s found)]
    · by_cases same : s.event.key = key
      · rw [promise_cons_of_eq _ same, promise_cons_of_eq _ same]
      · rw [promise_cons_of_ne _ same, promise_cons_of_ne _ same, ih]

/-- The key is a candidate that has been tapped more than `n` times and is still down. -/
def Tapping (a : Arbiter) (key : Position) (n : Nat) : Prop :=
  ∃ c, a.candidate = some c ∧ c.event.pressed = true ∧ c.event.key = key ∧ n < c.tap.count

/-- The release of a key is due, as the release of a tap or of a hold. -/
inductive Due (down : Position → Bool) (a : Arbiter) (key : Position) : Bool → Prop where
  /-- The key is a candidate that takes its release along. -/
  | repeated (next : (edges down a.awaited key).head? = some false) (h : Tapping a key 1) :
      Due down a key true
  /-- The release has its count, if it has one, in line. -/
  | inLine (next : (edges down a.awaited key).head? = some false)
      (counted : Tapping a key 0 → promise a.line key = true) :
      Due down a key (promise a.line key)

/-- A release of the key is dispatched, as the release of a tap or of a hold. -/
def Released (out : List Emission) (key : Position) (tapped : Bool) : Prop :=
  ∃ d, out = [.dispatched d] ∧ d.given.event.key = key ∧ d.given.event.pressed = false ∧
    decide (0 < d.given.tap.count) = tapped

theorem Due.next (due : Due down a key tapped) :
    (edges down a.awaited key).head? = some false := by
  cases due with
  | repeated next _ => exact next
  | inLine next _ => exact next

/-- The key of a due release is no undecided candidate. -/
theorem Due.tapped_of_tapping (due : Due down a key tapped) (h : Tapping a key 0) :
    tapped = true := by
  cases due with
  | repeated _ _ => rfl
  | inLine _ counted => exact counted h

/-- Where no candidate of the key has more than one tap, the line tells what is due. -/
theorem Due.eq_promise (due : Due down a key tapped) (h : ¬ Tapping a key 1) :
    tapped = promise a.line key := by
  cases due with
  | repeated _ tapping => exact absurd tapping h
  | inLine _ _ => rfl

/-- What concerns other keys only leaves a release due. -/
theorem Due.keep {down' : Position → Bool} (due : Due down a key tapped)
    (awaited : (edges down' b.awaited key).head? = (edges down a.awaited key).head?)
    (line : promise b.line key = promise a.line key)
    (repeated : Tapping a key 1 → Tapping b key 1) (tapping : Tapping b key 0 → Tapping a key 0) :
    Due down' b key tapped := by
  cases due with
  | repeated next h => exact .repeated (awaited.trans next) (repeated h)
  | inLine next counted =>
    rw [← line]
    refine .inLine (awaited.trans next) fun h => ?_
    rw [line]
    exact counted (tapping h)

theorem tapping_congr (h : b.candidate = a.candidate) (n : Nat) :
    Tapping b key n ↔ Tapping a key n := by
  unfold Tapping
  rw [h]

theorem not_tapping_of_none (hc : a.candidate = none) (n : Nat) : ¬ Tapping a key n := by
  rintro ⟨c, h, -⟩
  cases hc.symm.trans h

theorem not_tapping (hc : a.candidate = some c) {n : Nat}
    (h : c.event.pressed = false ∨ c.event.key ≠ key ∨ c.tap.count ≤ n) : ¬ Tapping a key n := by
  rintro ⟨d, hd, pressed, same, count⟩
  obtain rfl := Option.some.inj (hc.symm.trans hd)
  rcases h with up | other | few
  · cases up.symm.trans pressed
  · exact other same
  · exact Nat.not_lt_of_le few count

/-- Events of other keys that are dispatched leave the edges of a key alone. -/
theorem edges_flow {es : List KeyEvent} (f : Flow km a out es) (kept : out ≠ [.overflow])
    (other : ∀ x ∈ dispatchedEvents out, x.key ≠ key) :
    edges down es key = edges down a.awaited key := by
  cases f with
  | inOrder h => rw [h, edges_append_of_ne other]
  | overtake h one up _ =>
    rw [h, edges_middle_of_ne (other _ (by simp [one]))]
  | twice h => rw [h]
  | lost => exact absurd rfl kept

theorem head?_edges_flow {es : List KeyEvent} (f : Flow km a out es) (kept : out ≠ [.overflow])
    (other : ∀ x ∈ dispatchedEvents out, x.key ≠ key) :
    (edges down es key).head? = (edges down a.awaited key).head? :=
  congrArg List.head? (edges_flow f kept other)

/-- A key whose release is due is not pressed. -/
theorem Due.key_ne_of_press {es : List KeyEvent} {x : KeyEvent} (due : Due down a key tapped)
    (f : Flow km a out es) (one : dispatchedEvents out = [x]) (pressed : x.pressed = true) :
    x.key ≠ key := by
  intro same
  have next := due.next
  cases f with
  | inOrder h =>
    rw [h, one, List.singleton_append, edges_cons_of_eq same, pressed] at next
    cases next
  | overtake h one' up _ =>
    obtain rfl := List.singleton_inj.mp (one.symm.trans one')
    cases up.symm.trans pressed
  | twice h one' =>
    obtain rfl := List.singleton_inj.mp (one.symm.trans one')
    rw [h, edges_cons_of_eq same, pressed] at next
    cases next
  | lost => cases one

/-- The first record of the key in line is as is due, unless a candidate has more taps. -/
theorem Due.eq_of_line {pre post : List Record} (due : Due down a key tapped)
    (single : ¬ Tapping a key 1) (hl : a.line = pre ++ r :: post)
    (first : ∀ s ∈ pre, s.event.key ≠ key) (same : r.event.key = key) :
    decide (0 < r.tap.count) = tapped := by
  rw [due.eq_promise single, hl, promise_append_of_ne first, promise_cons_of_eq _ same]

/-- A release that takes part in the tap of the candidate is as is due. -/
theorem Due.eq_of_tap (due : Due down a key tapped) (hc : a.candidate = some c)
    (pressed : c.event.pressed = true) (pos : 0 < c.tap.count) (isKey : c.event.key = key) :
    decide (0 < c.tap.count) = tapped := by
  rw [due.tapped_of_tapping ⟨c, hc, pressed, isKey, pos⟩]
  exact decide_eq_true pos

theorem not_tapping_dispatchTap (other : c.event.key ≠ key) (rs : List Record) (n : Nat) :
    ¬ Tapping ((a.dispatchTap km c).arbiter.withLine rs) key n := by
  rintro ⟨d, hd, -, same, -⟩
  rw [event_of_candidate_dispatchTap hd] at same
  exact other same

/-- An undecided candidate has not been tapped yet. -/
theorem not_tapping_of_undecided (hc : a.candidate = some c) (hu : c.isUndecided = true) (n : Nat) :
    ¬ Tapping a key n := by
  apply not_tapping hc
  have zero : c.tap.count = 0 := (Record.isUndecided_iff.mp hu).2
  exact Or.inr (Or.inr (zero ▸ Nat.zero_le n))

theorem key_of_isTapRelease {s : Record} (own : a.isTapRelease c s = true) :
    s.event.key = c.event.key := by
  simp only [isTapRelease, Bool.and_eq_true, beq_iff_eq] at own
  exact own.1.1

/-! ## Moves that concern other keys -/

/-- A record that was handed over, with any tap, but not as one of the key, is of another key. -/
theorem key_ne_of_spared (real : r.isTick = false) {t : Tap} {s : Bool}
    (spared : dispatchesOf key (a.dispatch km { r with tap := t } s).emitted = []) :
    r.event.key ≠ key := by
  intro isKey
  rw [emitted_dispatch (r := { r with tap := t }) a km real, dispatchesOf_singleton_of_eq isKey]
    at spared
  cases spared

/-- The first press in line is not of a key whose next edge is a release. -/
theorem key_ne_of_start (next : (edges down a.awaited key).head? = some false)
    (free : a.undecided? = none) (hl : a.line = r :: rest) (pressed : r.event.pressed = true) :
    r.event.key ≠ key := by
  intro same
  rw [awaited_of_free free, hl, List.map_cons, edges_cons_of_eq same, pressed] at next
  cases next

/-- A move that hands over no record of a key leaves its first record in line alone. -/
theorem promise_move (o : Orderly down a) (m : Move km a out b) (kept : out ≠ [.overflow])
    (spared : dispatchesOf key out = [])
    (next : (edges down a.awaited key).head? = some false) :
    promise b.line key = promise a.line key := by
  cases m with
  | lapse t hc up late => rfl
  | interrupt hc waits => rfl
  | hold hc hu => rw [line_withCandidate, line_dispatch]
  | displace t hc pressed many => rw [line_withCandidate, line_dispatch]
  | @tap c r rest hc hu hl own =>
    have other : c.event.key ≠ key := key_ne_of_spared (o.real_candidate hc) spared
    -- the release that takes part in the tap is one of the candidate's key
    have notR : r.event.key ≠ key := (key_of_isTapRelease own).symm ▸ other
    rw [line_withLine, hl, promise_cons_of_ne _ notR]
    exact promise_cons_of_ne _ notR
  | @overtake c r pre post hc hu hl up other untyped =>
    have real : r.isTick = false := o.real_line (by simp [hl])
    rw [line_withLine, hl, promise_middle_of_ne _ _ (key_ne_of_spared real spared)]
  | @pass r rest free hl plain other =>
    have real : r.isTick = false := o.real_line (by simp [hl])
    rw [line_withLine, hl, promise_cons_of_ne _ (key_ne_of_spared real spared)]
  | start free hl pressed single alone =>
    rw [line_withLine, hl, promise_cons_of_ne _ (key_ne_of_start next free hl pressed)]
  | @startTap r rest free hl hu single own =>
    have real : r.isTick = false := o.real_line (by simp [hl])
    have other : r.event.key ≠ key := key_ne_of_spared real spared
    rw [line_withLine, hl, promise_cons_of_ne _ other]
    exact promise_modify_of_ne _ _ fun s found => (key_of_isTapRelease found).symm ▸ other
  | @again c r rest hc up pos calm hl pressed same =>
    have real : r.isTick = false := o.real_line (by simp [hl])
    rw [line_withLine, hl, promise_cons_of_ne _ (key_ne_of_spared real spared)]
  | @release c r rest keep hc pressed pos hl up same =>
    have real : r.isTick = false := o.real_line (by simp [hl])
    rw [line_withLine, hl, promise_cons_of_ne _ (key_ne_of_spared real spared)]
  | overflow => exact absurd rfl kept

/-- A candidate that takes its release along stays until a record of its key is handed over. -/
theorem tapping_move (o : Orderly down a) (m : Move km a out b) (kept : out ≠ [.overflow])
    (spared : dispatchesOf key out = []) (h : Tapping a key 1) : Tapping b key 1 := by
  cases m with
  | lapse t hc up late => exact absurd h (not_tapping hc (Or.inl up))
  | @interrupt c hc waits =>
    obtain ⟨d, hd, tapping⟩ := h
    obtain rfl := Option.some.inj (hc.symm.trans hd)
    exact ⟨c.interrupt, rfl, tapping⟩
  | hold hc hu => exact absurd h (not_tapping_of_undecided hc hu 1)
  | tap hc hu hl own => exact absurd h (not_tapping_of_undecided hc hu 1)
  | overtake hc hu hl up other untyped => exact absurd h (not_tapping_of_undecided hc hu 1)
  | @pass r rest free hl plain other =>
    exact (tapping_congr (candidate_dispatch a km r false) 1).mpr h
  | start free hl pressed single alone =>
    obtain ⟨c, hc, down, -, many⟩ := h
    exact absurd (single c hc down) (Nat.not_le_of_lt many)
  | startTap free hl hu single own =>
    obtain ⟨c, hc, down, -, many⟩ := h
    exact absurd (single c hc down) (Nat.not_le_of_lt many)
  | again hc up pos calm hl pressed same => exact absurd h (not_tapping hc (Or.inl up))
  | @release c r rest keep hc pressed pos hl up same =>
    have real : r.isTick = false := o.real_line (by simp [hl])
    have other : r.event.key ≠ key := key_ne_of_spared real spared
    exact absurd h (not_tapping hc (Or.inr (Or.inl (same ▸ other))))
  | @displace c t hc pressed many =>
    have other := key_ne_of_spared (o.real_made hc t) spared
    exact absurd h (not_tapping hc (Or.inr (Or.inl other)))
  | overflow => exact absurd rfl kept

/-- A move that hands over no record of a key whose release comes next makes no tap of it. -/
theorem tapping_of_move (o : Orderly down a) (m : Move km a out b)
    (spared : dispatchesOf key out = [])
    (next : (edges down a.awaited key).head? = some false) (h : Tapping b key 0) :
    Tapping a key 0 := by
  cases m with
  | lapse t hc up late => exact absurd h (not_tapping_of_none rfl 0)
  | hold hc hu => exact absurd h (not_tapping_of_none rfl 0)
  | displace t hc pressed many => exact absurd h (not_tapping_of_none rfl 0)
  | overflow => exact absurd h (not_tapping_of_none rfl 0)
  | @interrupt c hc waits =>
    obtain ⟨d, hd, tapping⟩ := h
    obtain rfl := Option.some.inj hd
    exact ⟨c, hc, tapping⟩
  | @tap c r rest hc hu hl own =>
    have other : c.event.key ≠ key := key_ne_of_spared (o.real_candidate hc) spared
    exact absurd h (not_tapping_dispatchTap other _ 0)
  | @overtake c r pre post hc hu hl up other untyped =>
    exact (tapping_congr (candidate_dispatch a km r false) 0).mp h
  | @pass r rest free hl plain other =>
    exact (tapping_congr (candidate_dispatch a km r false) 0).mp h
  | start free hl pressed single alone =>
    exact absurd h (not_tapping rfl (Or.inr (Or.inl (key_ne_of_start next free hl pressed))))
  | @startTap r rest free hl hu single own =>
    have real : r.isTick = false := o.real_line (by simp [hl])
    exact absurd h (not_tapping_dispatchTap (key_ne_of_spared real spared) _ 0)
  | @again c r rest hc up pos calm hl pressed same =>
    have real : r.isTick = false := o.real_line (by simp [hl])
    refine absurd h (not_tapping rfl (Or.inr (Or.inl ?_)))
    rw [event_dispatch]
    exact key_ne_of_spared real spared
  | @release c r rest keep hc pressed pos hl up same =>
    cases keep with
    | false => exact absurd h (not_tapping_of_none rfl 0)
    | true =>
      refine absurd h (not_tapping rfl (Or.inl ?_))
      rw [event_dispatch]
      exact up

/-! ## Moves that hand over a release -/

/-- A release that is handed over is of the kind that was due. -/
theorem released_move (o : Orderly down a) (m : Move km a out b) (due : Due down a key tapped)
    {d : Dispatched} (hd : out = [.dispatched d]) (up : d.given.event.pressed = false)
    (isKey : d.given.event.key = key) : Released out key tapped := by
  suffices kind : decide (0 < d.given.tap.count) = tapped from ⟨d, hd, isKey, up, kind⟩
  cases releases_of_move o m hd up with
  | @overtake c r pre post effect real hc hu hl other untyped =>
    have before := ne_key_of_untyped o.alternates hc hu hl other untyped
    have first : ∀ s ∈ pre, s.event.key ≠ key := fun s hs =>
      isKey ▸ before s.event (List.mem_cons_of_mem _ (List.mem_map_of_mem hs))
    exact due.eq_of_line (not_tapping_of_undecided hc hu 1) hl first isKey
  | @pass r rest effect real free hl other =>
    have single : ¬ Tapping a key 1 := by
      rintro ⟨c, hc, down, same, -⟩
      exact other c hc down (isKey.trans same.symm)
    have front : a.line = [] ++ r :: rest := hl
    exact due.eq_of_line single front (by simp) isKey
  | @release c r rest effect keep real hc pressed pos hl same =>
    exact due.eq_of_tap (c := c) hc pressed pos (same.symm.trans isKey)
  | @displace c effect t hc pressed pos => exact due.eq_of_tap (c := c) hc pressed pos isKey

/-- A release stays due through every move until a release of the key is dispatched, and that is of
the kind that was due. -/
theorem due_move (o : Orderly down a) (m : Move km a out b) (kept : out ≠ [.overflow])
    (due : Due down a key tapped) : Due down b key tapped ∨ Released out key tapped := by
  have flow := flow_move o m
  -- a move hands over one record at most: either none of the key, or the release that is due
  by_cases spared : dispatchesOf key out = []
  · left
    exact due.keep (head?_edges_flow flow kept (key_ne_of_dispatchesOf spared))
      (promise_move o m kept spared due.next) (tapping_move o m kept spared)
      (tapping_of_move o m spared due.next)
  · right
    obtain ⟨d, handed⟩ := List.exists_mem_of_ne_nil _ spared
    obtain ⟨emitted, isKey⟩ := mem_dispatchesOf_iff.mp handed
    rcases emits_move o m kept with ⟨none, -⟩ | ⟨r, made, real, release, one, -⟩
    · rw [none] at emitted
      cases emitted
    rw [one] at emitted
    obtain rfl := Emission.dispatched.inj (List.mem_singleton.mp emitted)
    refine released_move o m due one ?_ isKey
    cases pressed : r.event.pressed with
    | false => rfl
    | true =>
      -- the press of a key whose release is due is not among what is awaited first
      cases made with
      | true => cases pressed.symm.trans (release rfl)
      | false => exact absurd isKey (due.key_ne_of_press flow (one ▸ rfl) pressed)

/-! ## Arrivals -/

/-- The arrival of the next edge of a key leaves every release due. -/
theorem due_arrival (o : Orderly down a) (arrival : Arrival km e a out b)
    (next : e.pressed = !down e.key) (due : Due down a key tapped) :
    Due (e.after down) b key tapped := by
  have flow := flow_arrival o arrival
  cases arrival with
  | join loose alone =>
    rw [dispatchedEvents_nil, List.nil_append] at flow
    apply due.keep
    · rw [← flow, head?_edges_join next]
    · rw [line_withLine]
      exact promise_join a.line rfl
    · exact fun h => (tapping_congr rfl 1).mp h
    · exact fun h => (tapping_congr rfl 0).mp h
  | @tap c hc hu own =>
    have pressed : c.event.pressed = true := (Record.isUndecided_iff.mp hu).1
    rw [dispatchedEvents_dispatchTap a km (o.real_candidate hc), List.singleton_append] at flow
    have head := due.next
    have other : c.event.key ≠ key := by
      intro same
      rw [awaited_of_undecided hc hu, edges_cons_of_eq same, pressed] at head
      cases head
    have notE : e.key ≠ key := (key_of_isTapRelease own).symm ▸ other
    apply due.keep
    · rw [← head?_edges_join next, flow, edges_cons_of_ne other]
    · rw [line_withLine, promise_middle_of_ne _ _ notE, List.append_nil]
    · exact fun h => absurd h (not_tapping_of_undecided hc hu 1)
    · exact fun h => absurd h (not_tapping_dispatchTap other _ 0)

end Arbiter

end TapHold
