import TapHold.Proofs.Arbiter.Sound

/-!
# What makes a press a tap

A press is handed over as a first tap only when its release has come within the term, and that is
the next event of its key (`HasRelease`). It is handed over as a further tap only after the
candidate, which is the release of the tap before it. What led to a candidate that is a tap can be
read off what was emitted (`Led`): its press was the last record of its key, or its press and then
its release within the term, and no press was handed over since unless the candidate tells that it
was interrupted. Every small step keeps this (`led_move`, `led_arrival`), so that every press that a
step hands over as a tap has its cause (`tapCause_of_move`, `tapCause_of_arrival`).
-/

set_option autoImplicit false

namespace TapHold

/-- The record is a press of the key that was handed over as a tap with the given count, and stayed
one. -/
structure Dispatched.IsTap (p : Dispatched) (key : Position) (n : Nat) : Prop where
  isKey : p.given.event.key = key
  pressed : p.given.event.pressed = true
  given : p.given.tap.count = n
  settled : p.settled.tap.count = n

/-- No press is handed over. -/
def NoPress (out : List Emission) : Prop :=
  ∀ d, .dispatched d ∈ out → d.given.event.pressed = false

/-- The last record of the key of `e` is the press `e`, a tap with the given count. -/
def EndsWithTap (e : KeyEvent) (n : Nat) (out : List Emission) : Prop :=
  ∃ before p after, out = before ++ .dispatched p :: after ∧ p.given.event = e ∧ p.IsTap e.key n ∧
    dispatchesOf e.key after = []

/-- The last records of the key of `e` before `after` are the press of a tap with the given count
and its own release `e`, which came within the term of the press. -/
def EndsWithRelease (term : Word) (e : KeyEvent) (n : Nat) (out after : List Emission) : Prop :=
  ∃ before p between r, out = before ++ .dispatched p :: (between ++ .dispatched r :: after) ∧
    p.IsTap e.key n ∧ dispatchesOf e.key between = [] ∧ r.given.event = e ∧ r.synthetic = false ∧
      e.time.isWithin p.given.event.time term = true

variable {out out' after : List Emission} {e : KeyEvent} {n : Nat} {term : Word} {p r : Dispatched}

theorem EndsWithTap.append (h : EndsWithTap e n out) (none : dispatchesOf e.key out' = []) :
    EndsWithTap e n (out ++ out') := by
  obtain ⟨before, p, after, rfl, event, tap, quiet⟩ := h
  refine ⟨before, p, after ++ out', by simp, event, tap, ?_⟩
  rw [dispatchesOf_append, quiet, none, List.nil_append]

theorem EndsWithRelease.append (h : EndsWithRelease term e n out after) (out' : List Emission) :
    EndsWithRelease term e n (out ++ out') (after ++ out') := by
  obtain ⟨before, p, between, r, rfl, facts⟩ := h
  exact ⟨before, p, between, r, by simp, facts⟩

theorem endsWithTap_concat (out : List Emission) (tap : p.IsTap e.key n)
    (event : p.given.event = e) : EndsWithTap e n (out ++ [.dispatched p]) :=
  ⟨out, p, [], rfl, event, tap, rfl⟩

/-- The release of a tap is handed over. -/
theorem EndsWithTap.release {up : KeyEvent} (h : EndsWithTap e n out) (same : up.key = e.key)
    (event : r.given.event = up) (own : r.synthetic = false)
    (inTerm : up.time.isWithin e.time term = true) :
    EndsWithRelease term up n (out ++ [.dispatched r]) [] := by
  obtain ⟨before, p, after, rfl, rfl, tap, quiet⟩ := h
  refine ⟨before, p, after, r, by simp, same ▸ tap, ?_, event, own, inTerm⟩
  rw [same]
  exact quiet

theorem NoPress.append (h : NoPress out) (h' : NoPress out') : NoPress (out ++ out') := by
  intro d hd
  rcases List.mem_append.mp hd with first | last
  · exact h d first
  · exact h' d last

namespace Arbiter

variable {km : Keymap} {a b : Arbiter} {c r : Record} {rest : List Record} {d : Dispatched}
  {down : Position → Bool} {arrived : List KeyEvent}

/-! ## What led to the candidate -/

/-- What was emitted before the candidate `c`, if it is a tap. -/
structure Led (term : Word) (out : List Emission) (c : Record) : Prop where
  tapped : c.event.pressed = true → 0 < c.tap.count → EndsWithTap c.event c.tap.count out
  released : c.event.pressed = false → ∃ after,
    EndsWithRelease term c.event c.tap.count out after ∧ (c.tap.interrupted = false → NoPress after)

/-- What led to the candidate, if there is one. -/
def LedTo (out : List Emission) (a : Arbiter) : Prop :=
  ∀ c, a.candidate = some c → Led a.term out c

/-- A tap that stays a tap is settled as it was given. -/
theorem record_dispatch_of_pos (real : r.isTick = false) (s : Bool)
    (pos : 0 < (a.dispatch km r s).record.tap.count) : (a.dispatch km r s).record = r := by
  have settled := record_dispatch a km real s
  split at settled
  · rw [settled] at pos
    exact absurd pos (Nat.lt_irrefl 0)
  · exact settled

/-- A press that has just been handed over as a tap, and stayed one, led to its candidate. -/
theorem led_of_press (real : r.isTick = false) (pressed : r.event.pressed = true)
    (out : List Emission) :
    Led term (out ++ (a.dispatch km r false).emitted) (a.dispatch km r false).record where
  tapped := by
    intro _ pos
    have settled := record_dispatch_of_pos real false pos
    have same := record_dispatch_eq a km real false
    rw [emitted_dispatch a km real, ← same, settled]
    exact endsWithTap_concat out ⟨rfl, pressed, rfl, rfl⟩ rfl
  released := by
    intro up
    rw [event_dispatch] at up
    cases up.symm.trans pressed

theorem led_of_dispatchTap (real : c.isTick = false) (pressed : c.event.pressed = true)
    (out : List Emission) {x : Record} (hx : (a.dispatchTap km c).arbiter.candidate = some x) :
    Led term (out ++ (a.dispatchTap km c).emitted) x := by
  rw [eq_of_candidate_dispatchTap hx]
  exact led_of_press (r := c.withCount 1) real pressed out

theorem led_move (o : Orderly down a) (m : Move km a out' b) (h : LedTo out a) :
    LedTo (out ++ out') b := by
  intro x hx
  have term : b.term = a.term := congrArg Settings.term (settings_move m)
  rw [term]
  cases m with
  | lapse t hc up late => cases hx
  | hold hc hu => cases hx
  | displace t hc pressed many => cases hx
  | overflow => cases hx
  | @interrupt c hc waits =>
    obtain rfl := Option.some.inj hx
    rw [List.append_nil]
    refine ⟨fun pressed pos => ?_, fun up => ?_⟩
    · rcases waits with up | zero
      · cases up.symm.trans pressed
      · exact absurd zero (Nat.ne_of_gt pos)
    · obtain ⟨after, release, -⟩ := (h c hc).released up
      exact ⟨after, release, fun calm => by cases calm⟩
  | @tap c r rest hc hu hl own =>
    exact led_of_dispatchTap (o.real_candidate hc) (Record.isUndecided_iff.mp hu).1 out hx
  | @overtake c r pre post hc hu hl up other untyped =>
    rw [candidate_withLine, candidate_dispatch, hc] at hx
    obtain rfl := Option.some.inj hx
    obtain ⟨pressed, zero⟩ := Record.isUndecided_iff.mp hu
    exact ⟨fun _ pos => absurd zero (Nat.ne_of_gt pos), fun up => by cases up.symm.trans pressed⟩
  | @pass r rest free hl plain other heard =>
    rw [candidate_withLine, candidate_dispatch] at hx
    have real : r.isTick = false := o.real_line (by simp [hl])
    refine ⟨fun pressed pos => ?_, fun up => ?_⟩
    · refine ((h x hx).tapped pressed pos).append ?_
      rw [emitted_dispatch a km real]
      exact dispatchesOf_singleton_of_ne (key_ne_of_pass o hx pressed pos hl other)
    · obtain ⟨after, release, calm⟩ := (h x hx).released up
      refine ⟨_, release.append _, fun uninterrupted => (calm uninterrupted).append ?_⟩
      -- a press would have interrupted the candidate
      intro d hd
      rw [(given_of_mem hd).2.1, ← Bool.not_eq_true]
      intro pressed
      cases (heard x hx up pressed).symm.trans uninterrupted
  | @start r rest free hl pressed single alone =>
    obtain rfl := Option.some.inj hx
    have zero := o.fresh r (by simp [hl]) pressed
    exact ⟨fun _ pos => absurd zero (Nat.ne_of_gt pos), fun up => by cases up.symm.trans pressed⟩
  | @startTap r rest free hl hu single own =>
    have real : r.isTick = false := o.real_line (by simp [hl])
    exact led_of_dispatchTap real (Record.isUndecided_iff.mp hu).1 out hx
  | @again c r rest hc up pos calm hl pressed same =>
    have real : r.isTick = false := o.real_line (by simp [hl])
    obtain rfl := Option.some.inj hx
    exact led_of_press (r := { r with tap := c.tap.next }) real pressed out
  | @release c r rest keep hc pressed pos hl up same inTerm =>
    cases keep with
    | false => cases hx
    | true =>
      obtain rfl := Option.some.inj hx
      have real : r.isTick = false := o.real_line (by simp [hl])
      have settled := record_dispatch_of_up (r := { r with tap := c.tap }) a km up false
      rw [settled, emitted_dispatch (r := { r with tap := c.tap }) a km real]
      refine ⟨fun isPress => ?_, fun _ => ⟨[], ?_, fun _ d hd => ?_⟩⟩
      · cases up.symm.trans isPress
      · exact ((h c hc).tapped pressed pos).release same rfl rfl (inTerm rfl)
      · cases hd

theorem led_arrival (o : Orderly down a) (arrival : Arrival km e a out' b) (h : LedTo out a) :
    LedTo (out ++ out') b := by
  intro x hx
  have term : b.term = a.term := congrArg Settings.term (settings_arrival arrival)
  rw [term]
  cases arrival with
  | join loose alone =>
    rw [List.append_nil]
    exact h x hx
  | @tap c hc hu own =>
    exact led_of_dispatchTap (o.real_candidate hc) (Record.isUndecided_iff.mp hu).1 out hx

/-! ## What makes a press a tap -/

/-- The first record of a key in line is the first event of the key in line. -/
theorem filter_of_find? {key : Position} {rs : List Record} {t : Record}
    (found : (rs.find? fun s => s.event.key = key) = some t) :
    ∃ later, (rs.map Record.event).filter (fun e => e.key = key) = t.event :: later := by
  have first : ((rs.map Record.event).filter fun e => e.key = key).head? = some t.event := by
    rw [List.head?_filter, List.find?_map]
    exact congrArg (Option.map Record.event) found
  exact List.head?_eq_some_iff.mp first

/-- The release that makes a tap of a press at `e`, the next event of its key. -/
def HasRelease (term : Word) (e : KeyEvent) (es : List KeyEvent) : Prop :=
  ∃ q later, es.filter (fun s => s.key = e.key) = e :: q :: later ∧ q.pressed = false ∧
    q.time.isWithin e.time term = true

/-- The release of a press waits behind it. -/
theorem hasRelease_of_find? {rs : List Record} {t : Record}
    (found : (rs.find? fun s => s.event.key = c.event.key) = some t)
    (own : a.isTapRelease c t = true) :
    HasRelease a.term c.event (c.event :: rs.map Record.event) := by
  obtain ⟨later, first⟩ := filter_of_find? found
  simp only [isTapRelease, Bool.and_eq_true, Bool.not_eq_true'] at own
  refine ⟨t.event, later, ?_, own.1.2, own.2⟩
  rw [List.filter_cons_of_pos (by simp), first]

/-- What makes the press `d` a tap, by what came and was emitted before it. A first tap has its own
release within the term. A further tap comes within the term of the release of the tap before it,
and no press has been handed over since that release. -/
structure TapCause (term : Word) (arrived : List KeyEvent) (out : List Emission) (d : Dispatched) :
    Prop where
  first : d.given.tap.count = 1 → ∃ q later,
    arrived.filter (fun s => s.key = d.given.event.key) =
      (finalEvents out).filter (fun s => s.key = d.given.event.key) ++ d.given.event :: q :: later ∧
    q.pressed = false ∧ q.time.isWithin d.given.event.time term = true
  further : 2 ≤ d.given.tap.count → d.given.tap.count ≤ 15 ∧ ∃ n up after,
    (n + 1 = d.given.tap.count ∨ n = 15 ∧ d.given.tap.count = 15) ∧
    EndsWithRelease term up n out after ∧ up.key = d.given.event.key ∧ up.pressed = false ∧
    d.given.event.time.isWithin up.time term = true ∧ NoPress after

/-- What is awaited comes after what was dispatched. -/
theorem tapCause_of_release {es : List KeyEvent}
    (order : (finalEvents out ++ es).filter (fun s => s.key = d.given.event.key) =
      arrived.filter fun s => s.key = d.given.event.key)
    (one : d.given.tap.count = 1) (release : HasRelease term d.given.event es) :
    TapCause term arrived out d where
  first := by
    intro _
    obtain ⟨q, later, split, up, inTerm⟩ := release
    refine ⟨q, later, ?_, up, inTerm⟩
    rw [← order, List.filter_append, split]
  further := by
    intro many
    rw [one] at many
    exact absurd many (by decide)

/-- A press that is no tap needs no cause. -/
theorem tapCause_of_zero (zero : d.given.tap.count = 0) : TapCause term arrived out d where
  first := fun one => by rw [zero] at one; cases one
  further := fun many => by rw [zero] at many; cases many

theorem TapCause.more (h : TapCause term arrived out d) (es : List KeyEvent) :
    TapCause term (arrived ++ es) out d where
  first := by
    intro one
    obtain ⟨q, later, split, facts⟩ := h.first one
    refine ⟨q, later ++ es.filter (fun s => s.key = d.given.event.key), ?_, facts⟩
    rw [List.filter_append, split, List.append_assoc]
    rfl
  further := h.further

/-- A press that a move hands over as a tap has its cause. -/
theorem tapCause_of_move (s : Sound a) (o : Orderly down a) (ch : Chronological a)
    (order : ∀ key, KeepsOrder key arrived out a) (led : LedTo out a)
    (m : Move km a [.dispatched d] b) (pressed : d.given.event.pressed = true) :
    TapCause a.term arrived out d := by
  cases presses_of_move o m rfl pressed with
  | hold effect real hc hu => exact tapCause_of_zero (Record.isUndecided_iff.mp hu).2
  | pass effect real free hl zero => exact tapCause_of_zero zero
  | @tap c r rest effect real hc hu hl own =>
    have found : (r :: rest).find? (fun s => s.event.key = c.event.key) = some r :=
      List.find?_cons_of_pos (by simpa using key_of_isTapRelease own)
    refine tapCause_of_release (order _) rfl ?_
    rw [awaited_of_undecided hc hu, hl]
    exact hasRelease_of_find? found own
  | @startTap r rest effect real free hl own =>
    obtain ⟨t, found, isOwn⟩ := exists_first_isTapRelease o ch free hl pressed own
    refine tapCause_of_release (order _) rfl ?_
    rw [awaited_of_free free, hl]
    exact hasRelease_of_find? found isOwn
  | @again c r rest effect real hc up pos calm hl same inTerm =>
    obtain ⟨after, release, quiet⟩ := (led c hc).released up
    have counted : c.tap.count ≤ 15 := (s.counted c hc).1
    have next : c.tap.next.count = if c.tap.count < 15 then c.tap.count + 1 else c.tap.count := rfl
    refine ⟨fun one => ?_, fun _ => ⟨?_, c.tap.count, c.event, after, ?_, release, same.symm, up,
      inTerm, quiet calm⟩⟩
    · exact absurd one (Nat.ne_of_gt (one_lt_count_next pos))
    · exact count_next_le c.tap counted
    · show c.tap.count + 1 = c.tap.next.count ∨ c.tap.count = 15 ∧ c.tap.next.count = 15
      rw [next]
      split <;> omega

/-- A press that an arriving release makes a tap has its cause. -/
theorem tapCause_of_arrival (o : Orderly down a) (ch : Chronological a)
    (order : ∀ key, KeepsOrder key arrived out a) (arrival : Arrival km e a [.dispatched d] b)
    (next : e.pressed = !down e.key)
    (late : ∀ x ∈ a.heldEvents, e.time.isNotBefore x.time = true) :
    TapCause a.term (arrived ++ [e]) out d := by
  have longer (key : Position) :
      (finalEvents out ++ (a.awaited ++ [e])).filter (fun s => s.key = key) =
        (arrived ++ [e]).filter fun s => s.key = key := by
    rw [← List.append_assoc, List.filter_append, order, ← List.filter_append]
  generalize emitted : [Emission.dispatched d] = out' at arrival
  cases arrival with
  | join => cases emitted
  | @tap c hc hu own =>
    obtain ⟨effect, rfl⟩ := eq_of_dispatchTap (o.real_candidate hc) emitted.symm
    obtain ⟨t, found, isOwn⟩ := find?_of_tap_arrival o ch next late hc hu own
    refine tapCause_of_release (longer _) rfl ?_
    rw [awaited_of_undecided hc hu]
    have release := hasRelease_of_find? found isOwn
    rwa [List.map_append] at release

end Arbiter

end TapHold
