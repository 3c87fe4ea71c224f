import TapHold.Proofs.Arbiter.Queue

/-!
# Order among the held events

A move takes events away from those that the arbiter holds (`heldEvents_move`) and gives a tap to
releases only (`fresh_move`). So it keeps `Orderly` (`orderly_move`), and so does the arrival of the
next edge of a key (`orderly_arrival`). Both hand at most one record to the interpreter, and nothing
else changes what it remembers (`Emits`). `Presses` lists how a move hands over a press, and
`Releases` how it hands over a release.
-/

set_option autoImplicit false

namespace TapHold

namespace Arbiter

variable {km : Keymap} {a b : Arbiter} {c r : Record} {rest : List Record} {out : List Emission}
  {down : Position → Bool} {e : KeyEvent}

/-! ## Moves -/

theorem heldEvents_sublist
    (candidate : (b.candidate.toList.map Record.event).Sublist (a.candidate.toList.map Record.event))
    (line : (b.line.map Record.event).Sublist (a.line.map Record.event)) :
    b.heldEvents.Sublist a.heldEvents := by
  unfold heldEvents
  rw [List.map_append, List.map_append]
  exact candidate.append line

/-- The first in line becomes the candidate, or goes away with the candidate before it. -/
theorem heldEvents_sublist_of_front (hl : a.line = r :: rest)
    (candidate : (b.candidate.toList.map Record.event).Sublist [r.event])
    (line : b.line.map Record.event = rest.map Record.event) :
    b.heldEvents.Sublist a.heldEvents := by
  unfold heldEvents
  rw [List.map_append, List.map_append, line, hl]
  refine List.Sublist.trans ?_ (List.sublist_append_right _ _)
  exact candidate.append (List.Sublist.refl _)

/-- A tap that stays the candidate keeps its event. -/
theorem event_of_candidate_dispatchTap {d : Record}
    (hd : (a.dispatchTap km c).arbiter.candidate = some d) : d.event = c.event := by
  rw [eq_of_candidate_dispatchTap hd]
  exact event_dispatchTap a km c

theorem candidate_dispatchTap_sublist (a : Arbiter) (km : Keymap) (c : Record) :
    ((a.dispatchTap km c).arbiter.candidate.toList.map Record.event).Sublist [c.event] := by
  cases hd : (a.dispatchTap km c).arbiter.candidate with
  | none => exact List.nil_sublist _
  | some d =>
    rw [← event_of_candidate_dispatchTap hd]
    exact List.Sublist.refl _

/-- A move holds back no event that was not held back before it, and keeps their order. -/
theorem heldEvents_move (m : Move km a out b) : b.heldEvents.Sublist a.heldEvents := by
  cases m with
  | lapse t hc up late =>
    apply heldEvents_sublist
    · exact List.nil_sublist _
    · exact List.Sublist.refl _
  | interrupt hc waits =>
    apply heldEvents_sublist
    · rw [hc]
      exact List.Sublist.refl _
    · exact List.Sublist.refl _
  | hold hc hu =>
    apply heldEvents_sublist
    · exact List.nil_sublist _
    · rw [line_withCandidate, line_dispatch]
  | @tap c r rest hc hu hl own =>
    apply heldEvents_sublist
    · rw [hc]
      exact candidate_dispatchTap_sublist a km c
    · rw [hl]
      exact List.Sublist.refl _
  | @overtake c r pre post hc hu hl up other untyped =>
    apply heldEvents_sublist
    · rw [candidate_withLine, candidate_dispatch]
    · rw [line_withLine, hl]
      exact ((List.sublist_cons_self r post).append_left pre).map Record.event
  | @pass r rest free hl plain other =>
    apply heldEvents_sublist
    · rw [candidate_withLine, candidate_dispatch]
    · rw [line_withLine, hl]
      exact List.sublist_cons_self _ _
  | @start r rest free hl pressed single alone =>
    exact heldEvents_sublist_of_front hl (List.Sublist.refl _) rfl
  | @startTap r rest free hl hu single own =>
    apply heldEvents_sublist_of_front hl
    · exact candidate_dispatchTap_sublist a km r
    · exact map_event_modifyFirstIn _ _ rest
  | @again c r rest hc up pos calm hl pressed same =>
    apply heldEvents_sublist_of_front hl
    · simp
    · rfl
  | @release c r rest keep hc pressed pos hl up same =>
    apply heldEvents_sublist_of_front hl
    · cases keep <;> simp
    · rfl
  | displace t hc pressed many =>
    apply heldEvents_sublist
    · exact List.nil_sublist _
    · rw [line_withCandidate, line_dispatch]
  | overflow =>
    apply heldEvents_sublist
    · exact List.nil_sublist _
    · exact List.nil_sublist _

/-- A record that is changed by `modifyFirstIn` satisfies the predicate. -/
theorem mem_modifyFirstIn {p : Record → Bool} {f : Record → Record} {s : Record}
    {rs : List Record} (h : s ∈ Backlog.modifyFirstIn p f rs) :
    s ∈ rs ∨ ∃ t ∈ rs, p t = true ∧ s = f t := by
  induction rs with
  | nil => exact Or.inl h
  | cons r rest ih =>
    unfold Backlog.modifyFirstIn at h
    split at h
    · rename_i found
      rcases List.mem_cons.mp h with same | behind
      · exact Or.inr ⟨r, List.mem_cons_self, found, same⟩
      · exact Or.inl (List.mem_cons_of_mem r behind)
    · rcases List.mem_cons.mp h with same | behind
      · exact Or.inl (same ▸ List.mem_cons_self)
      · rcases ih behind with kept | ⟨t, ht, found, changed⟩
        · exact Or.inl (List.mem_cons_of_mem r kept)
        · exact Or.inr ⟨t, List.mem_cons_of_mem r ht, found, changed⟩

theorem up_of_isTapRelease {a : Arbiter} {c r : Record} (own : a.isTapRelease c r = true) :
    r.event.pressed = false := by
  simp only [isTapRelease, Bool.and_eq_true, Bool.not_eq_true'] at own
  exact own.1.2

/-- A move keeps the records in line as they are, but for the release that makes a tap. -/
theorem line_move (m : Move km a out b) :
    ∀ s ∈ b.line, s ∈ a.line ∨ ∃ c, c.event ∈ a.heldEvents ∧ c.isUndecided = true ∧
      a.isTapRelease c s = true ∧ out = (a.dispatchTap km c).emitted ∧
        s.tap = (a.dispatchTap km c).record.tap := by
  cases m with
  | @tap c r rest hc hu hl own =>
    intro s hs
    rcases List.mem_cons.mp hs with rfl | behind
    · exact Or.inr ⟨c, candidate_mem_heldEvents hc, hu, own, rfl, rfl⟩
    · exact Or.inl (hl ▸ List.mem_cons_of_mem r behind)
  | @overtake c r pre post hc hu hl up other untyped =>
    have shorter : (pre ++ post).Sublist a.line := hl ▸ (List.sublist_cons_self r post).append_left pre
    exact fun s hs => Or.inl (shorter.subset hs)
  | @startTap r rest free hl hu single own =>
    intro s hs
    rcases mem_modifyFirstIn hs with kept | ⟨t, -, found, rfl⟩
    · exact Or.inl (hl ▸ List.mem_cons_of_mem r kept)
    · exact Or.inr ⟨r, line_mem_heldEvents (by simp [hl]), hu, found, rfl, rfl⟩
  | @pass r rest free hl plain other => exact fun s hs => Or.inl (hl ▸ List.mem_cons_of_mem r hs)
  | @start r rest free hl pressed single alone =>
    exact fun s hs => Or.inl (hl ▸ List.mem_cons_of_mem r hs)
  | @again c r rest hc up pos calm hl pressed same =>
    exact fun s hs => Or.inl (hl ▸ List.mem_cons_of_mem r hs)
  | @release c r rest keep hc pressed pos hl up same =>
    exact fun s hs => Or.inl (hl ▸ List.mem_cons_of_mem r hs)
  | lapse t hc up late => exact fun s hs => Or.inl hs
  | interrupt hc waits => exact fun s hs => Or.inl hs
  | hold hc hu =>
    intro s hs
    rw [line_withCandidate, line_dispatch] at hs
    exact Or.inl hs
  | displace t hc pressed many =>
    intro s hs
    rw [line_withCandidate, line_dispatch] at hs
    exact Or.inl hs
  | overflow => exact fun s hs => by cases hs

/-- A move gives a tap to waiting releases only. -/
theorem fresh_move (m : Move km a out b) : ∀ s ∈ b.line, s ∈ a.line ∨ s.event.pressed = false := by
  intro s hs
  rcases line_move m s hs with kept | ⟨c, -, -, own, -⟩
  · exact Or.inl kept
  · exact Or.inr (up_of_isTapRelease own)

/-- The events that are awaited still alternate after some of them have been dispatched. -/
theorem alternates_flow {es : List KeyEvent} (h : Alternates down a.awaited)
    (f : Flow km a out es) : Alternates down es := by
  cases f with
  | inOrder eq =>
    rw [eq] at h
    exact alternates_drop h
  | overtake eq one up other =>
    rw [eq] at h
    exact alternates_take h other
  | twice eq one pressed hc pos same modsTap press =>
    rw [← eq]
    exact h
  | lost => exact alternates_nil down

/-- A press that was awaited first leaves its release as the next edge of its key. -/
theorem head?_edges_of_press (h : Alternates down a.awaited) (eq : a.awaited = e :: b.awaited)
    (pressed : e.pressed = true) : (edges down b.awaited e.key).head? = some false := by
  rw [eq] at h
  rw [head?_edges h, pressed]
  rfl

theorem tapped_move (o : Orderly down a) (m : Move km a out b) :
    ∀ d, b.candidate = some d → d.event.pressed = true → 0 < d.tap.count →
      (edges down b.awaited d.event.key).head? = some false := by
  intro d hd pressed counted
  cases m with
  | lapse t hc up late => cases hd
  | @interrupt c hc waits =>
    obtain rfl := Option.some.inj hd
    rcases waits with up | zero
    · cases up.symm.trans pressed
    · exact absurd zero (Nat.ne_of_gt counted)
  | hold hc hu => cases hd
  | @tap c r rest hc hu hl own =>
    have event := event_of_candidate_dispatchTap hd
    refine head?_edges_of_press o.alternates ?_ pressed
    rw [awaited_of_undecided hc hu, awaited_withLine_of_free (undecided?_dispatchTap a km c), hl,
      event]
    rfl
  | @overtake c r pre post hc hu hl up other untyped =>
    rw [candidate_withLine, candidate_dispatch, hc] at hd
    obtain rfl := Option.some.inj hd
    simp [Record.isUndecided, Nat.ne_of_gt counted] at hu
  | @pass r rest free hl plain other =>
    rw [candidate_withLine, candidate_dispatch] at hd
    have behind := o.tapped d hd pressed counted
    have eq : a.awaited = r.event :: rest.map Record.event := by
      rw [awaited_of_free free, hl]
      rfl
    rw [awaited_withLine_of_free ((undecided?_dispatch a km r false).trans free)]
    rw [eq] at behind
    -- the first in line is no edge of the tap: a press would break the turns, a release is excluded
    by_cases same : r.event.key = d.event.key
    · rw [edges_cons_of_eq same] at behind
      exact absurd same (other d hd pressed (Option.some.inj behind))
    · rwa [edges_cons_of_ne same] at behind
  | @start r rest free hl isPress single alone =>
    obtain rfl := Option.some.inj hd
    exact absurd (o.fresh r (by simp [hl]) isPress) (Nat.ne_of_gt counted)
  | @startTap r rest free hl hu single own =>
    have event := event_of_candidate_dispatchTap hd
    refine head?_edges_of_press o.alternates ?_ pressed
    rw [awaited_of_free free, awaited_withLine_of_free (undecided?_dispatchTap a km r), hl,
      map_event_modifyFirstIn, event]
    rfl
  | @again c r rest hc up pos calm hl isPress same =>
    obtain rfl := Option.some.inj hd
    refine head?_edges_of_press o.alternates ?_ pressed
    have decided := undecided?_of_decided (a := (a.dispatch km { r with tap := c.tap.next }
      false).arbiter.withCandidate (some (a.dispatch km { r with tap := c.tap.next } false).record))
      rfl (Record.isUndecided_of_pos counted)
    rw [awaited_of_free (undecided?_of_decided hc (Record.isUndecided_of_up up)),
      awaited_withLine_of_free decided, hl, event_dispatch]
    rfl
  | @release c r rest keep hc isPress pos hl up same =>
    cases keep with
    | false => cases hd
    | true =>
      obtain rfl := Option.some.inj hd
      rw [event_dispatch] at pressed
      cases up.symm.trans pressed
  | displace t hc isPress many => cases hd
  | overflow => cases hd

/-- A move keeps the order among the held events. -/
theorem orderly_move (m : Move km a out b) (o : Orderly down a) : Orderly down b where
  real := fun e he => o.real e ((heldEvents_move m).subset he)
  fresh := by
    intro s hs pressed
    rcases fresh_move m s hs with kept | up
    · exact o.fresh s kept pressed
    · cases up.symm.trans pressed
  alternates := alternates_flow o.alternates (flow_move o m)
  tapped := tapped_move o m

/-! ## Arrivals -/

/-- An event that arrives is the last of the held events. -/
theorem heldEvents_arrival (arrival : Arrival km e a out b) :
    b.heldEvents.Sublist (a.heldEvents ++ [e]) := by
  cases arrival with
  | join loose alone =>
    have joined : (a.withLine (a.line ++ [.ofEvent e])).heldEvents = a.heldEvents ++ [e] := by
      simp [heldEvents]
    rw [joined]
  | @tap c hc hu own =>
    have joined : a.heldEvents ++ [e] = [c.event] ++ (a.line.map Record.event ++ [e]) := by
      simp [heldEvents, hc]
    rw [joined]
    unfold heldEvents
    rw [candidate_withLine, line_withLine, List.map_append, List.map_append]
    exact (candidate_dispatchTap_sublist a km c).append (List.Sublist.refl _)

/-- What an arriving event adds to the awaited events, and what it dispatches of them. -/
theorem flow_arrival (o : Orderly down a) (arrival : Arrival km e a out b) :
    a.awaited ++ [e] = dispatchedEvents out ++ b.awaited := by
  cases arrival with
  | join loose alone =>
    simp [awaited, undecided?_withLine]
  | @tap c hc hu own =>
    rw [dispatchedEvents_dispatchTap a km (o.real_candidate hc), awaited_of_undecided hc hu,
      awaited_withLine_of_free (undecided?_dispatchTap a km c), List.map_append]
    rfl

/-- The arrival of the next edge of a key keeps the order among the held events. -/
theorem orderly_arrival (arrival : Arrival km e a out b) (real : e.isTick = false)
    (next : e.pressed = !down e.key) (o : Orderly down a) : Orderly (e.after down) b where
  real := by
    intro s hs
    rcases List.mem_append.mp ((heldEvents_arrival arrival).subset hs) with held | last
    · exact o.real s held
    · rw [List.mem_singleton.mp last]
      exact real
  fresh := by
    intro s hs pressed
    cases arrival with
    | join loose alone =>
      rcases List.mem_append.mp hs with waits | last
      · exact o.fresh s waits pressed
      · rw [List.mem_singleton.mp last]
        rfl
    | tap hc hu own =>
      rcases List.mem_append.mp hs with waits | last
      · exact o.fresh s waits pressed
      · rw [List.mem_singleton.mp last] at pressed
        cases (up_of_isTapRelease own).symm.trans pressed
  alternates := by
    have longer := alternates_join o.alternates next
    rw [flow_arrival o arrival] at longer
    exact alternates_drop longer
  tapped := by
    intro d hd pressed counted
    cases arrival with
    | join loose alone =>
      have eq : (a.withLine (a.line ++ [.ofEvent e])).awaited = a.awaited ++ [e] := by
        simp [awaited, undecided?_withLine]
      rw [eq, head?_edges_join next]
      exact o.tapped d hd pressed counted
    | @tap c hc hu own =>
      have alternates := o.alternates
      have event := event_of_candidate_dispatchTap hd
      rw [awaited_of_undecided hc hu, ← event] at alternates
      rw [awaited_withLine_of_free (undecided?_dispatchTap a km c), List.map_append]
      show (edges _ (_ ++ [e]) _).head? = _
      rw [head?_edges_join next, head?_edges alternates, pressed]
      rfl

/-! ## Emissions -/

/-- At most one record is handed to the interpreter, and if the arbiter made it itself, it is a
release. -/
def Emits (km : Keymap) (a : Arbiter) (out : List Emission) (b : Arbiter) : Prop :=
  (out = [] ∧ b.interpreter = a.interpreter) ∨
    ∃ (r : Record) (synthetic : Bool), r.isTick = false ∧
      (synthetic = true → r.event.pressed = false) ∧
      out = [.dispatched ⟨r, (a.outcome km r).record, (a.outcome km r).effect, synthetic⟩] ∧
      b.interpreter = (a.outcome km r).interpreter

theorem interpreter_dispatch (a : Arbiter) (km : Keymap) (real : r.isTick = false) (s : Bool) :
    (a.dispatch km r s).arbiter.interpreter = (a.outcome km r).interpreter := by
  rw [dispatch_of_real a km real]

theorem emits_dispatch (real : r.isTick = false)
    (same : b.interpreter = (a.dispatch km r false).arbiter.interpreter) :
    Emits km a (a.dispatch km r false).emitted b :=
  Or.inr ⟨r, false, real, nofun, emitted_dispatch a km real false,
    same.trans (interpreter_dispatch a km real false)⟩

theorem emits_move (o : Orderly down a) (m : Move km a out b) (kept : out ≠ [.overflow]) :
    Emits km a out b := by
  cases m with
  | lapse t hc up late => exact Or.inl ⟨rfl, rfl⟩
  | interrupt hc waits => exact Or.inl ⟨rfl, rfl⟩
  | hold hc hu => exact emits_dispatch (o.real_candidate hc) rfl
  | @tap c r rest hc hu hl own =>
    have real : c.isTick = false := o.real_candidate hc
    exact emits_dispatch (r := c.withCount 1) real rfl
  | @overtake c r pre post hc hu hl up other untyped =>
    exact emits_dispatch (o.real_line (by simp [hl])) rfl
  | @pass r rest free hl plain other => exact emits_dispatch (o.real_line (by simp [hl])) rfl
  | start free hl pressed single alone => exact Or.inl ⟨rfl, rfl⟩
  | @startTap r rest free hl hu single own =>
    have real : r.isTick = false := o.real_line (by simp [hl])
    exact emits_dispatch (r := r.withCount 1) real rfl
  | @again c r rest hc up pos calm hl pressed same =>
    have real : r.isTick = false := o.real_line (by simp [hl])
    exact emits_dispatch (r := { r with tap := c.tap.next }) real rfl
  | @release c r rest keep hc pressed pos hl up same =>
    have real : r.isTick = false := o.real_line (by simp [hl])
    exact emits_dispatch (r := { r with tap := c.tap }) real rfl
  | @displace c t hc pressed many =>
    have real := o.real_made hc t
    exact Or.inr ⟨_, true, real, fun _ => rfl, emitted_dispatch a km real true,
      interpreter_dispatch a km real true⟩
  | overflow => exact absurd rfl kept

theorem emits_arrival (o : Orderly down a) (arrival : Arrival km e a out b) : Emits km a out b := by
  cases arrival with
  | join loose alone => exact Or.inl ⟨rfl, rfl⟩
  | @tap c hc hu own =>
    have real : c.isTick = false := o.real_candidate hc
    exact emits_dispatch (r := c.withCount 1) real rfl

/-! ## Presses -/

/-- How a move hands over the press `d`. -/
inductive Presses (km : Keymap) (a : Arbiter) : Dispatched → Arbiter → Prop where
  /-- The undecided candidate is a hold. -/
  | hold {c : Record} (effect : Effect) (real : c.isTick = false) (hc : a.candidate = some c)
      (hu : c.isUndecided = true) :
      Presses km a ⟨c, (a.dispatch km c false).record, effect, false⟩
        ((a.dispatch km c false).arbiter.withCandidate none)
  /-- The undecided candidate is a tap. -/
  | tap {c r : Record} {rest : List Record} (effect : Effect) (real : c.isTick = false)
      (hc : a.candidate = some c) (hu : c.isUndecided = true) (hl : a.line = r :: rest)
      (own : a.isTapRelease c r = true) :
      Presses km a ⟨c.withCount 1, (a.dispatchTap km c).record, effect, false⟩
        ((a.dispatchTap km c).arbiter.withLine
          ({ r with tap := (a.dispatchTap km c).record.tap } :: rest))
  /-- No candidate is concerned with it. -/
  | pass {r : Record} {rest : List Record} (effect : Effect) (real : r.isTick = false)
      (free : a.undecided? = none) (hl : a.line = r :: rest) (zero : r.tap.count = 0) :
      Presses km a ⟨r, (a.dispatch km r false).record, effect, false⟩
        ((a.dispatch km r false).arbiter.withLine rest)
  /-- It is a tap, because its release waits. -/
  | startTap {r : Record} {rest : List Record} (effect : Effect) (real : r.isTick = false)
      (free : a.undecided? = none) (hl : a.line = r :: rest)
      (own : rest.any (a.isTapRelease r) = true) :
      Presses km a ⟨r.withCount 1, (a.dispatchTap km r).record, effect, false⟩
        ((a.dispatchTap km r).arbiter.withLine (Backlog.modifyFirstIn (a.isTapRelease r)
          (fun s => { s with tap := (a.dispatchTap km r).record.tap }) rest))
  /-- It is one more tap. -/
  | again {c r : Record} {rest : List Record} (effect : Effect) (real : r.isTick = false)
      (hc : a.candidate = some c) (up : c.event.pressed = false) (pos : 0 < c.tap.count)
      (calm : c.tap.interrupted = false) (hl : a.line = r :: rest)
      (same : r.event.key = c.event.key)
      (inTerm : r.event.time.isWithin c.event.time a.term = true) :
      Presses km a ⟨{ r with tap := c.tap.next },
          (a.dispatch km { r with tap := c.tap.next } false).record, effect, false⟩
        (((a.dispatch km { r with tap := c.tap.next } false).arbiter.withCandidate
          (some (a.dispatch km { r with tap := c.tap.next } false).record)).withLine rest)

theorem presses_of_move (o : Orderly down a) (m : Move km a out b) {d : Dispatched}
    (hd : out = [.dispatched d]) (pressed : d.given.event.pressed = true) : Presses km a d b := by
  cases m with
  | lapse t hc up late => cases hd
  | interrupt hc waits => cases hd
  | start free hl isPress single alone => cases hd
  | overflow => cases hd
  | @hold c hc hu =>
    have real : c.isTick = false := o.real_candidate hc
    obtain ⟨effect, rfl⟩ := eq_of_dispatch real hd
    exact .hold effect real hc hu
  | @tap c r rest hc hu hl own =>
    have real : c.isTick = false := o.real_candidate hc
    obtain ⟨effect, rfl⟩ := eq_of_dispatchTap real hd
    exact .tap effect real hc hu hl own
  | @overtake c r pre post hc hu hl up other untyped =>
    obtain ⟨effect, rfl⟩ := eq_of_dispatch (o.real_line (by simp [hl])) hd
    cases up.symm.trans pressed
  | @pass r rest free hl plain other =>
    have waits : r ∈ a.line := by simp [hl]
    obtain ⟨effect, rfl⟩ := eq_of_dispatch (o.real_line waits) hd
    exact .pass effect (o.real_line waits) free hl (o.fresh r waits pressed)
  | @startTap r rest free hl hu single own =>
    have real : r.isTick = false := o.real_line (by simp [hl])
    obtain ⟨effect, rfl⟩ := eq_of_dispatchTap real hd
    exact .startTap effect real free hl own
  | @again c r rest hc up pos calm hl isPress same inTerm =>
    have real : r.isTick = false := o.real_line (by simp [hl])
    obtain ⟨effect, rfl⟩ := eq_of_dispatch (r := { r with tap := c.tap.next }) real hd
    exact .again effect real hc up pos calm hl same inTerm
  | @release c r rest keep hc isPress pos hl up same =>
    have real : r.isTick = false := o.real_line (by simp [hl])
    obtain ⟨effect, rfl⟩ := eq_of_dispatch (r := { r with tap := c.tap }) real hd
    cases up.symm.trans pressed
  | @displace c t hc isPress many =>
    obtain ⟨effect, rfl⟩ := eq_of_dispatch (o.real_made hc t) hd
    cases pressed

/-! ## Releases -/

/-- How a move hands over the release `d`. -/
inductive Releases (km : Keymap) (a : Arbiter) : Dispatched → Arbiter → Prop where
  /-- Its key was pressed before the undecided candidate. -/
  | overtake {c r : Record} {pre post : List Record} (effect : Effect) (real : r.isTick = false)
      (hc : a.candidate = some c) (hu : c.isUndecided = true) (hl : a.line = pre ++ r :: post)
      (other : r.event.key ≠ c.event.key) (untyped : a.backlog.hasOpposite r.event = false) :
      Releases km a ⟨r, (a.dispatch km r false).record, effect, false⟩
        ((a.dispatch km r false).arbiter.withLine (pre ++ post))
  /-- No candidate is concerned with it. -/
  | pass {r : Record} {rest : List Record} (effect : Effect) (real : r.isTick = false)
      (free : a.undecided? = none) (hl : a.line = r :: rest)
      (other : ∀ c, a.candidate = some c → c.event.pressed = true → r.event.key ≠ c.event.key) :
      Releases km a ⟨r, (a.dispatch km r false).record, effect, false⟩
        ((a.dispatch km r false).arbiter.withLine rest)
  /-- It ends a tap. -/
  | release {c r : Record} {rest : List Record} (effect : Effect) (keep : Bool)
      (real : r.isTick = false) (hc : a.candidate = some c) (pressed : c.event.pressed = true)
      (pos : 0 < c.tap.count) (hl : a.line = r :: rest) (same : r.event.key = c.event.key) :
      Releases km a
        ⟨{ r with tap := c.tap }, (a.dispatch km { r with tap := c.tap } false).record, effect, false⟩
        (((a.dispatch km { r with tap := c.tap } false).arbiter.withCandidate
          (if keep then some (a.dispatch km { r with tap := c.tap } false).record else none)).withLine
            rest)
  /-- It is made for a tap that another tap key ends. -/
  | displace {c : Record} (effect : Effect) (t : Time) (hc : a.candidate = some c)
      (pressed : c.event.pressed = true) (pos : 0 < c.tap.count) :
      Releases km a
        ⟨⟨⟨c.event.key, false, t⟩, c.tap⟩,
          (a.dispatch km ⟨⟨c.event.key, false, t⟩, c.tap⟩ true).record, effect, true⟩
        ((a.dispatch km ⟨⟨c.event.key, false, t⟩, c.tap⟩ true).arbiter.withCandidate none)

theorem releases_of_move (o : Orderly down a) (m : Move km a out b) {d : Dispatched}
    (hd : out = [.dispatched d]) (up : d.given.event.pressed = false) : Releases km a d b := by
  cases m with
  | lapse t hc isUp late => cases hd
  | interrupt hc waits => cases hd
  | start free hl pressed single alone => cases hd
  | overflow => cases hd
  | hold hc hu =>
    obtain ⟨effect, rfl⟩ := eq_of_dispatch (o.real_candidate hc) hd
    cases up.symm.trans (Record.isUndecided_iff.mp hu).1
  | tap hc hu hl own =>
    obtain ⟨effect, rfl⟩ := eq_of_dispatchTap (o.real_candidate hc) hd
    cases up.symm.trans (Record.isUndecided_iff.mp hu).1
  | @overtake c r pre post hc hu hl isUp other untyped =>
    have real : r.isTick = false := o.real_line (by simp [hl])
    obtain ⟨effect, rfl⟩ := eq_of_dispatch real hd
    exact .overtake effect real hc hu hl other untyped
  | @pass r rest free hl plain other =>
    have real : r.isTick = false := o.real_line (by simp [hl])
    obtain ⟨effect, rfl⟩ := eq_of_dispatch real hd
    exact .pass effect real free hl fun c hc pressed => other c hc pressed up
  | startTap free hl hu single own =>
    obtain ⟨effect, rfl⟩ := eq_of_dispatchTap (o.real_line (by simp [hl])) hd
    cases up.symm.trans (Record.isUndecided_iff.mp hu).1
  | @again c r rest hc isUp pos calm hl pressed same =>
    have real : r.isTick = false := o.real_line (by simp [hl])
    obtain ⟨effect, rfl⟩ := eq_of_dispatch (r := { r with tap := c.tap.next }) real hd
    cases up.symm.trans pressed
  | @release c r rest keep hc pressed pos hl isUp same =>
    have real : r.isTick = false := o.real_line (by simp [hl])
    obtain ⟨effect, rfl⟩ := eq_of_dispatch (r := { r with tap := c.tap }) real hd
    exact .release effect keep real hc pressed pos hl same
  | @displace c t hc pressed many =>
    obtain ⟨effect, rfl⟩ := eq_of_dispatch (o.real_made hc t) hd
    exact .displace effect t hc pressed (Nat.lt_of_succ_lt many)

/-! ## The start -/

/-- At the start nothing is held. -/
theorem orderly_of_nothing (hc : a.candidate = none) (hl : a.line = []) : Orderly down a where
  real := by
    intro e he
    simp [heldEvents, hc, hl] at he
  fresh := by
    intro r hr
    simp [hl] at hr
  alternates := by
    rw [awaited_of_free (undecided?_of_none hc), hl]
    exact alternates_nil down
  tapped := fun c h => by cases hc.symm.trans h

end Arbiter

end TapHold
