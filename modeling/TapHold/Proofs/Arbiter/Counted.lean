import TapHold.Proofs.Arbiter.Scanned

/-!
# Which waiting releases have a count

Where the layers do not change the kind of a key, only the first record of a key that waits can have
a count (`Counted`): the release of its last tap. The release of a hold waits without one, so it is
due as that of a hold once its press is dispatched (`due_of_hold`, `due_of_hold_arrival`).
-/

set_option autoImplicit false

namespace TapHold

namespace Arbiter

variable {km : Keymap} {a b : Arbiter} {c r : Record} {rest : List Record} {out : List Emission}
  {down : Position → Bool} {e : KeyEvent} {key : Position}

/-- Of the records of a key none has a count but the first. -/
def CountedFirst (rs : List Record) : Prop :=
  rs.Pairwise fun p s => p.event.key = s.event.key → s.tap.count = 0

/-- Of the waiting records of a key none has a count but the first. -/
def Counted (a : Arbiter) : Prop := CountedFirst (a.undecided?.toList ++ a.line)

theorem counted_of_free (free : a.undecided? = none) : Counted a ↔ CountedFirst a.line := by
  rw [Counted, free]
  rfl

theorem counted_of_undecided (hc : a.candidate = some c) (hu : c.isUndecided = true) :
    Counted a ↔ CountedFirst (c :: a.line) := by
  rw [Counted, undecided?_eq_some hc hu]
  rfl

theorem counted_withLine_of_free (free : a.undecided? = none) (rs : List Record) :
    Counted (a.withLine rs) ↔ CountedFirst rs := counted_of_free (a := a.withLine rs) free

theorem counted_withLine_of_undecided (hc : a.candidate = some c) (hu : c.isUndecided = true)
    (rs : List Record) : Counted (a.withLine rs) ↔ CountedFirst (c :: rs) :=
  counted_of_undecided (a := a.withLine rs) hc hu

/-- The tap of the first record does not matter, nor does its event but for its key. -/
theorem CountedFirst.first {s : Record} (h : CountedFirst (r :: rest))
    (same : s.event.key = r.event.key) : CountedFirst (s :: rest) := by
  unfold CountedFirst at h ⊢
  rw [List.pairwise_cons] at h ⊢
  exact ⟨fun t ht key => h.1 t ht (same.symm.trans key), h.2⟩

theorem CountedFirst.tail (h : CountedFirst (r :: rest)) : CountedFirst rest :=
  (List.pairwise_cons.mp h).2

/-- A record without a count comes last. -/
theorem CountedFirst.join {rs : List Record} {s : Record} (h : CountedFirst rs)
    (zero : (∃ t ∈ rs, t.event.key = s.event.key) → s.tap.count = 0) :
    CountedFirst (rs ++ [s]) := by
  unfold CountedFirst
  rw [List.pairwise_append]
  refine ⟨h, List.pairwise_singleton _ _, ?_⟩
  intro t ht u hu same
  rw [List.mem_singleton.mp hu] at same ⊢
  exact zero ⟨t, ht, same⟩

/-- The first record of a key behind a record of it promises nothing. -/
theorem CountedFirst.promise (h : CountedFirst (r :: rest)) :
    promise rest r.event.key = false := by
  rw [Arbiter.promise, Option.any_eq_false]
  intro s found
  have isKey : s.event.key = r.event.key := by simpa using List.find?_some found
  have zero := (List.pairwise_cons.mp h).1 s (List.mem_of_find?_eq_some found) isKey.symm
  simp [zero]

/-- A count may be given to the first record of a key. -/
theorem CountedFirst.modify {p : Record → Bool} (t : Tap) {rs : List Record}
    (isKey : ∀ s, p s = true → s.event.key = key)
    (first : ∀ s, (rs.find? fun r => r.event.key = key) = some s → p s = true)
    (h : CountedFirst rs) :
    CountedFirst (Backlog.modifyFirstIn p (fun s => { s with tap := t }) rs) := by
  induction rs with
  | nil => exact h
  | cons s rs ih =>
    unfold Backlog.modifyFirstIn
    split
    · exact h.first (s := { s with tap := t }) rfl
    · rename_i notOwn
      have other : s.event.key ≠ key := by
        intro same
        exact notOwn (first s (List.find?_cons_of_pos (by simpa using same)))
      have first' : ∀ u, (rs.find? fun r => r.event.key = key) = some u → p u = true := by
        intro u found
        apply first u
        rw [List.find?_cons_of_neg (by simpa using other)]
        exact found
      have behind := (List.pairwise_cons.mp h).1
      refine List.pairwise_cons.mpr ⟨?_, ih first' h.tail⟩
      intro u hu same
      rcases mem_modifyFirstIn hu with kept | ⟨v, -, found, rfl⟩
      · exact behind u kept same
      · exact absurd (same.trans (isKey v found)) other

/-! ## Moves and arrivals -/

theorem counted_of_sublist (free : b.undecided? = none) (line : b.line.Sublist a.line)
    (h : Counted a) : Counted b := by
  rw [counted_of_free free]
  exact List.Pairwise.sublist (line.trans (List.sublist_append_right _ _)) h

theorem counted_move (o : Orderly down a) (ch : Chronological a) (m : Move km a out b)
    (h : Counted a) : Counted b := by
  cases m with
  | lapse t hc up late => exact counted_of_sublist rfl (List.Sublist.refl a.line) h
  | @interrupt c hc waits =>
    have same : c.interrupt.isUndecided = c.isUndecided := rfl
    cases hu : c.isUndecided with
    | false =>
      exact counted_of_sublist (undecided?_of_decided rfl (same.trans hu)) (List.Sublist.refl a.line) h
    | true =>
      rw [counted_of_undecided rfl (same.trans hu)]
      rw [counted_of_undecided hc hu] at h
      exact h.first (s := c.interrupt) rfl
  | hold hc hu =>
    refine counted_of_sublist rfl ?_ h
    rw [line_withCandidate, line_dispatch]
  | @tap c r rest hc hu hl own =>
    rw [counted_of_undecided hc hu, hl] at h
    rw [counted_withLine_of_free (undecided?_dispatchTap a km c)]
    exact h.tail.first (s := { r with tap := _ }) rfl
  | @overtake c r pre post hc hu hl up other untyped =>
    rw [counted_of_undecided hc hu, hl] at h
    rw [counted_withLine_of_undecided ((candidate_dispatch a km r false).trans hc) hu]
    exact List.Pairwise.sublist (((List.sublist_cons_self r post).append_left pre).cons_cons c) h
  | @pass r rest free hl plain other =>
    refine counted_of_sublist ?_ (hl ▸ List.sublist_cons_self r rest) h
    rw [undecided?_withLine, undecided?_dispatch, free]
  | @start r rest free hl pressed single alone =>
    rw [counted_of_free free, hl] at h
    rw [counted_of_undecided rfl (o.undecided_front hl pressed)]
    exact h
  | @startTap r rest free hl hu single own =>
    rw [counted_of_free free, hl] at h
    rw [counted_withLine_of_free (undecided?_dispatchTap a km r)]
    have pressed : r.event.pressed = true := (Record.isUndecided_iff.mp hu).1
    obtain ⟨t, first, isOwn⟩ := exists_first_isTapRelease o ch free hl pressed own
    exact h.tail.modify _ (fun s => key_of_isTapRelease)
      fun s found => Option.some.inj (first.symm.trans found) ▸ isOwn
  | @again c r rest hc up pos calm hl pressed same =>
    have free : a.undecided? = none := undecided?_of_decided hc (Record.isUndecided_of_up up)
    rw [counted_of_free free, hl] at h
    cases hu : (a.dispatch km { r with tap := c.tap.next } false).record.isUndecided with
    | false =>
      rw [counted_of_free (undecided?_of_decided rfl hu)]
      exact h.tail
    | true =>
      rw [counted_of_undecided rfl hu]
      exact h.first (by rw [event_dispatch])
  | @release c r rest keep hc pressed pos hl up same =>
    have isUp : (a.dispatch km { r with tap := c.tap } false).record.event.pressed = false := by
      rw [event_dispatch]
      exact up
    exact counted_of_sublist (undecided?_of_kept_up _ keep isUp rest)
      (hl ▸ List.sublist_cons_self r rest) h
  | displace t hc pressed many =>
    refine counted_of_sublist rfl ?_ h
    rw [line_withCandidate, line_dispatch]
  | overflow => exact counted_of_sublist rfl (List.nil_sublist _) h

/-- Where the layers do not change the kind of a key with modifiers, an arriving release that makes
a tap of the candidate is the first edge of its key behind it. -/
theorem line_of_tap_arrival_everywhere
    (everywhere : km.ModsTapsEverywhere a.interpreter.settings)
    (o : Orderly down a) (ch : Chronological a) (scanned : Scanned km a)
    (next : e.pressed = !down e.key)
    (late : ∀ x ∈ a.heldEvents, e.time.isNotBefore x.time = true) (hc : a.candidate = some c)
    (hu : c.isUndecided = true) (own : a.isTapRelease c (.ofEvent e) = true)
    (counted : 0 < (a.dispatchTap km c).record.tap.count) :
    ∀ s ∈ a.line, s.event.key ≠ c.event.key := by
  rcases line_of_tap_arrival o ch scanned next late hc hu own counted with
    first | ⟨has, other, -⟩
  · exact first
  · have at' := (a.interpreter.isModsTapKeyAt_iff km c.event.key).mpr
      (everywhere c.event.key has a.interpreter.layers)
    cases other.symm.trans at'

theorem counted_arrival (everywhere : km.ModsTapsEverywhere a.interpreter.settings)
    (o : Orderly down a) (ch : Chronological a) (scanned : Scanned km a)
    (arrival : Arrival km e a out b) (next : e.pressed = !down e.key)
    (late : ∀ x ∈ a.heldEvents, e.time.isNotBefore x.time = true) (h : Counted a) : Counted b := by
  cases arrival with
  | join loose alone =>
    unfold Counted
    rw [undecided?_withLine, line_withLine, ← List.append_assoc]
    exact CountedFirst.join h fun _ => rfl
  | @tap c hc hu own =>
    rw [counted_of_undecided hc hu] at h
    rw [counted_withLine_of_free (undecided?_dispatchTap a km c)]
    refine h.tail.join fun waits => ?_
    by_contra counted
    obtain ⟨t, ht, same⟩ := waits
    exact line_of_tap_arrival_everywhere everywhere o ch scanned next late hc hu own
      (Nat.pos_of_ne_zero counted) t ht (same.trans (key_of_isTapRelease own))

/-! ## Presses that were held -/

/-- After a press the next edge of its key is its release. -/
theorem next_of_press (o : Orderly down a) (q : Quiet km a) (m : Move km a out b)
    (one : dispatchedEvents out = [e]) (pressed : e.pressed = true) :
    (edges down b.awaited e.key).head? = some false := by
  have flow := flow_move o m
  have alternates := o.alternates
  generalize b.awaited = es at flow ⊢
  cases flow with
  | inOrder h =>
    rw [h, one, List.singleton_append] at alternates
    rw [head?_edges alternates, pressed]
    rfl
  | overtake h one' up _ =>
    obtain rfl := List.singleton_inj.mp (one.symm.trans one')
    cases up.symm.trans pressed
  | twice h one' isPress hc pos same modsTap press =>
    obtain rfl := List.singleton_inj.mp (one.symm.trans one')
    rw [same, q.once hc pos (same ▸ modsTap) h isPress same] at press
    cases press
  | lost => cases one

/-- A release is due as that of a hold if no tap of it stands in line. -/
theorem due_of_no_promise (next : (edges down a.awaited key).head? = some false)
    (line : promise a.line key = false) (idle : ¬ Tapping a key 0) : Due down a key false := by
  rw [← line]
  exact .inLine next fun h => absurd h idle

/-- A tap that was overruled does not stay the candidate. -/
theorem not_tapping_of_overruled (zero : (a.dispatchTap km c).record.tap.count = 0)
    (rs : List Record) (n : Nat) : ¬ Tapping ((a.dispatchTap km c).arbiter.withLine rs) key n := by
  apply not_tapping_of_none
  rw [candidate_withLine, candidate_dispatchTap, if_pos zero]

/-- The key of a press in line is no candidate that is down. -/
theorem not_tapping_of_press (o : Orderly down a) (free : a.undecided? = none)
    (hl : a.line = r :: rest) (pressed : r.event.pressed = true) : ¬ Tapping a r.event.key 0 := by
  rintro ⟨c, hc, isPress, same, counted⟩
  have next := o.tapped c hc isPress counted
  rw [same, awaited_of_free free, hl, List.map_cons, edges_cons_of_eq rfl, pressed] at next
  cases next

/-- When the press of a hold has been dispatched, its release is due as that of a hold. -/
theorem due_of_hold (o : Orderly down a) (ch : Chronological a) (q : Quiet km a) (h : Counted a)
    (m : Move km a out b) {d : Dispatched} (hd : out = [.dispatched d])
    (pressed : d.given.event.pressed = true) (zero : d.settled.tap.count = 0) :
    Due down b d.given.event.key false := by
  have next (one : dispatchedEvents out = [d.given.event]) :
      (edges down b.awaited d.given.event.key).head? = some false := next_of_press o q m one pressed
  cases presses_of_move o m hd pressed with
  | hold effect real hc hu =>
    rw [counted_of_undecided hc hu] at h
    refine due_of_no_promise (next (by rw [hd]; rfl)) ?_ (not_tapping_of_none rfl 0)
    rw [line_withCandidate, line_dispatch]
    exact h.promise
  | @tap c r rest effect real hc hu hl own =>
    refine due_of_no_promise (next (by rw [hd]; rfl)) ?_ (not_tapping_of_overruled zero _ 0)
    exact (promise_cons_of_eq (r := ⟨r.event, (a.dispatchTap km c).record.tap⟩) rest
      (key_of_isTapRelease own)).trans (decide_eq_false (Nat.not_lt_of_le (Nat.le_of_eq zero)))
  | @pass r rest effect real free hl none =>
    rw [counted_of_free free, hl] at h
    refine due_of_no_promise (next (by rw [hd]; rfl)) h.promise ?_
    exact fun t => not_tapping_of_press o free hl pressed
      ((tapping_congr (candidate_dispatch a km r false) 0).mp t)
  | startTap effect real free hl own =>
    obtain ⟨t, first, isOwn⟩ := exists_first_isTapRelease o ch free hl pressed own
    refine due_of_no_promise (next (by rw [hd]; rfl)) ?_ (not_tapping_of_overruled zero _ 0)
    exact (promise_modify_first _ (fun s => key_of_isTapRelease) first isOwn).trans
      (decide_eq_false (Nat.not_lt_of_le (Nat.le_of_eq zero)))
  | @again c r rest effect real hc up pos calm hl same =>
    -- no tap is overruled in a quiet arbiter
    obtain ⟨modsTap, press⟩ := overruled_again real pos calm zero
    have free : a.undecided? = Option.none :=
      undecided?_of_decided hc (Record.isUndecided_of_up up)
    have awaited : a.awaited = r.event :: rest.map Record.event := by
      rw [awaited_of_free free, hl]
      rfl
    rw [same, q.once hc pos (same ▸ modsTap) awaited pressed same] at press
    cases press

/-- The same for a candidate whose tap an arriving release finds overruled. -/
theorem due_of_hold_arrival (o : Orderly down a) (h : Counted a) (arrival : Arrival km e a out b)
    (next : e.pressed = !down e.key) {d : Dispatched} (hd : out = [.dispatched d])
    (zero : d.settled.tap.count = 0) : Due (e.after down) b d.given.event.key false := by
  have flow := flow_arrival o arrival
  cases arrival with
  | join loose alone => cases hd
  | @tap c hc hu own =>
    have pressed : c.event.pressed = true := (Record.isUndecided_iff.mp hu).1
    have real : c.isTick = false := o.real_candidate hc
    rw [dispatchedEvents_dispatchTap a km real, List.singleton_append] at flow
    obtain ⟨effect, rfl⟩ := eq_of_dispatchTap real hd
    have longer := alternates_join o.alternates next
    rw [flow] at longer
    have after := head?_edges longer
    rw [pressed] at after
    rw [counted_of_undecided hc hu] at h
    refine due_of_no_promise after ?_ (not_tapping_of_overruled zero _ 0)
    rw [line_withLine]
    exact (promise_join (r := { Record.ofEvent e with tap := _ }) a.line zero).trans h.promise

end Arbiter

end TapHold
