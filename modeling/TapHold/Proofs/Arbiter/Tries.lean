import TapHold.Proofs.Arbiter.Run

/-!
# The attempts of a run

Whatever an arbiter dispatches, it dispatches while it tries a record: an event that arrives, or the
first in line (`Tries`, `exists_tries`). What can come of an attempt is listed once: for a record
that meets an undecided candidate by `Meets`, and for any other by `Settled`, as far as taps are
concerned that turn out to be holds.
-/

set_option autoImplicit false

namespace TapHold

namespace Arbiter

variable {km : Keymap} {first a b : Arbiter} {c r : Record} {rest : List Record}
  {out out' : List Emission} {d : Dispatched} {received es : List KeyEvent} {x : Emission}

/-! ## From attempt to attempt -/

/-- The arbiter tries the first in line, again and again. -/
inductive Advances (km : Keymap) : Arbiter → List Emission → Arbiter → Prop where
  | refl (a : Arbiter) : Advances km a [] a
  | step {a b c : Arbiter} {out out' : List Emission} (advanced : a.advance? km = some (b, out))
      (rest : Advances km b out' c) : Advances km a (out ++ out') c

/-- After the events `received` the arbiter, which began as `first` and has emitted `out` so far,
tries a record. -/
inductive Tries (km : Keymap) (first : Arbiter) :
    List KeyEvent → List Emission → Arbiter → Record → Prop where
  /-- The last event arrives. -/
  | arriving (es : List KeyEvent) (e : KeyEvent) :
      Tries km first (es ++ [e]) (first.run km es).2 (first.run km es).1 (.ofEvent e)
  /-- The first in line is tried after the last event has arrived. -/
  | waiting (es : List KeyEvent) (e : KeyEvent) {a : Arbiter} {out : List Emission} {r : Record}
      {rest : List Record} (advances : Advances km ((first.run km es).1.accept km e).1 out a)
      (hl : a.line = r :: rest) :
      Tries km first (es ++ [e])
        ((first.run km es).2 ++ (((first.run km es).1.accept km e).2 ++ out)) a r

/-- What is emitted on an advance is emitted by an attempt at the first in line. -/
theorem attempt_of_advance? (h : a.advance? km = some (b, out)) :
    ∃ r rest, a.line = r :: rest ∧ out = (a.attempt km r).emitted := by
  obtain ⟨r, rest, hl, emitted, -⟩ := advance?_cases h
  exact ⟨r, rest, hl, emitted⟩

/-- What is emitted while the line is drained is emitted by an attempt at the first in line. -/
theorem exists_attempt_of_drain (hx : x ∈ (a.drain km).2) :
    ∃ b out r rest, Advances km a out b ∧ b.line = r :: rest ∧ x ∈ (b.attempt km r).emitted := by
  fun_induction drain a km with
  | case1 a stuck => cases hx
  | case2 a b out advanced less rest ih =>
    rcases List.mem_append.mp hx with here | later
    · obtain ⟨r, rs, hl, rfl⟩ := attempt_of_advance? advanced
      exact ⟨a, [], r, rs, .refl a, hl, here⟩
    · obtain ⟨b', out', r, rs, advances, hl, emitted⟩ := ih later
      exact ⟨b', out ++ out', r, rs, .step advanced advances, hl, emitted⟩

/-- Draining the line is to advance until nothing more comes of it. -/
theorem advances_drain (a : Arbiter) (km : Keymap) : Advances km a (a.drain km).2 (a.drain km).1 := by
  fun_induction drain a km with
  | case1 a stuck => exact .refl a
  | case2 a b out advanced less rest ih => exact .step advanced ih

/-- Only an overflow is emitted between attempts. -/
theorem emitted_accept (e : KeyEvent) (hd : Emission.dispatched d ∈ (a.accept km e).2) :
    Emission.dispatched d ∈ (a.attempt km (.ofEvent e)).emitted := by
  unfold accept at hd
  dsimp only at hd
  split at hd
  · exact hd
  rename_i s _
  rcases List.mem_append.mp hd with tried | kept
  · exact tried
  · unfold postpone at kept
    split at kept
    · cases kept
    · cases List.mem_singleton.mp kept

/-- Every record that a run hands over is handed over in an attempt. -/
theorem exists_tries (hd : Emission.dispatched d ∈ (first.run km es).2) :
    ∃ received out a r, received <+: es ∧ Tries km first received out a r ∧
      Emission.dispatched d ∈ (a.attempt km r).emitted := by
  -- by induction on the last event: earlier events, its acceptance, or the draining after it
  induction es using List.reverseRecOn with
  | nil => cases hd
  | append_singleton es e ih =>
    rw [run_concat] at hd
    rcases List.mem_append.mp hd with earlier | now
    · obtain ⟨received, out, a, r, start, tries, emitted⟩ := ih earlier
      exact ⟨received, out, a, r, start.trans (List.prefix_append _ _), tries, emitted⟩
    rcases List.mem_append.mp now with accepted | drained
    · exact ⟨_, _, _, _, List.prefix_rfl, .arriving es e, emitted_accept e accepted⟩
    · obtain ⟨b, out, r, rest, advances, hl, emitted⟩ := exists_attempt_of_drain drained
      exact ⟨_, _, _, _, List.prefix_rfl, .waiting es e advances hl, emitted⟩

/-- What an advance emits, the draining emits. -/
theorem Advances.emitted_drain (h : Advances km a out b) :
    (a.drain km).2 = out ++ (b.drain km).2 := by
  induction h with
  | refl => rfl
  | step advanced _ ih => rw [drain_of_advance? advanced, ih, List.append_assoc]

/-- What was emitted before an attempt is emitted in the run. -/
theorem Tries.emitted_run (h : Tries km first received out a r) (start : received <+: es) :
    out ⊆ (first.run km es).2 := by
  obtain ⟨later, rfl⟩ := start
  cases h with
  | arriving es e =>
    rw [run_append, run_concat]
    intro x hx
    exact List.mem_append_left _ (List.mem_append_left _ hx)
  | waiting es e advances hl =>
    rw [run_append, run_concat]
    have drained : ((first.run km es).1.handle km e).2 = ((first.run km es).1.accept km e).2 ++
        (((first.run km es).1.accept km e).1.drain km).2 := rfl
    rw [drained, advances.emitted_drain]
    intro x hx
    refine List.mem_append_left _ ?_
    simp only [List.mem_append] at hx ⊢
    tauto

/-! ## Attempts that meet an undecided candidate -/

/-- What comes of a record `r` that meets the undecided candidate `c`. -/
inductive Meets (km : Keymap) (a : Arbiter) (c r : Record) : Attempt → Prop where
  /-- The term has passed. -/
  | late (late : r.event.time.isWithin c.event.time a.term = false) :
      Meets km a c r (a.settleHold km c r)
  /-- A press interrupts. -/
  | press (inTerm : r.event.time.isWithin c.event.time a.term = true)
      (down : r.event.pressed = true) :
      Meets km a c r ⟨a.withCandidate (some c.interrupt), some r, []⟩
  /-- The release of the candidate. -/
  | own (inTerm : r.event.time.isWithin c.event.time a.term = true)
      (up : r.event.pressed = false) (same : r.event.key = c.event.key) :
      Meets km a c r (a.settleTap km c r)
  /-- Another key was typed. -/
  | typed (up : r.event.pressed = false) (other : r.event.key ≠ c.event.key)
      (opposite : a.backlog.hasOpposite r.event = true) : Meets km a c r (a.settleHold km c r)
  /-- A tick, or the release of a modifier, changes nothing. -/
  | still (up : r.event.pressed = false) (other : r.event.key ≠ c.event.key) :
      Meets km a c r ⟨a, some r, []⟩
  /-- The release of a key that was pressed before. -/
  | pass (up : r.event.pressed = false) (other : r.event.key ≠ c.event.key) :
      Meets km a c r (a.pass km r)

theorem meets_attemptUndecided (km : Keymap) (a : Arbiter) (c r : Record) :
    Meets km a c r (a.attemptUndecided km c r) := by
  unfold attemptUndecided
  split
  · rename_i late
    exact .late (by simpa using late)
  rename_i inTerm
  have within : r.event.time.isWithin c.event.time a.term = true := by simpa using inTerm
  split
  · rename_i down
    exact .press within down
  rename_i notDown
  have up : r.event.pressed = false := by simpa using notDown
  split
  · rename_i same
    exact .own within up same
  rename_i other
  split
  · exact .still up other
  split
  · rename_i opposite
    exact .typed up other opposite
  split
  · exact .still up other
  · exact .pass up other

/-- Only a record that meets an undecided candidate has to wait. -/
theorem meets_of_waiting {s : Record} (waits : (a.attempt km r).waiting = some s) :
    ∃ c, a.candidate = some c ∧ c.isUndecided = true ∧ Meets km a c r (a.attempt km r) := by
  cases free : a.undecided? with
  | none => cases (waiting_of_free km r free).symm.trans waits
  | some c =>
    obtain ⟨hc, hu⟩ := of_undecided? free
    refine ⟨c, hc, hu, ?_⟩
    rw [attempt_undecided hc hu]
    exact meets_attemptUndecided km a c r

/-! ## Taps that turn out to be holds -/

/-- What is handed over is the record as it was given and as it was settled. -/
theorem given_of_mem {s : Bool} (hd : Emission.dispatched d ∈ (a.dispatch km r s).emitted) :
    r.isTick = false ∧ d.given = r ∧ d.settled = (a.dispatch km r s).record := by
  cases real : r.isTick with
  | true =>
    rw [dispatch_of_tick a km real] at hd
    cases hd
  | false =>
    rw [emitted_dispatch a km real, List.mem_singleton] at hd
    obtain rfl := Emission.dispatched.inj hd
    exact ⟨rfl, rfl, (record_dispatch_eq a km real s).symm⟩

/-- The tap was overruled: the press of another key waits. -/
def Overruled (km : Keymap) (a : Arbiter) (key : Position) : Prop :=
  km.HasModsTapKey a.interpreter.settings key ∧ a.backlog.hasOtherPress key = true

/-- A tap that turns out to be a hold was interrupted or overruled. -/
theorem overruled_of_mem {s : Bool} (hd : Emission.dispatched d ∈ (a.dispatch km r s).emitted)
    (pos : 0 < d.given.tap.count) (zero : d.settled.tap.count = 0) :
    km.HasModsTapKey a.interpreter.settings r.event.key ∧
      (r.tap.interrupted = true ∨ a.backlog.hasOtherPress r.event.key = true) := by
  obtain ⟨real, given, settled⟩ := given_of_mem hd
  rw [given] at pos
  rw [settled] at zero
  obtain ⟨modsTap, -, reason⟩ := overruled_of_count real s pos zero
  obtain ⟨mods, code, found⟩ := (a.interpreter.isModsTapKeyAt_iff km r.event.key).mp modsTap
  exact ⟨⟨_, mods, code, found⟩, reason⟩

theorem interrupted_dispatch (a : Arbiter) (km : Keymap) (r : Record) (s : Bool) :
    (a.dispatch km r s).record.tap.interrupted = r.tap.interrupted := by
  cases real : r.isTick with
  | true => rw [dispatch_of_tick a km real]
  | false =>
    rw [record_dispatch a km real]
    split <;> rfl

/-- What comes of a record `r` that meets no undecided candidate: a new candidate is not interrupted
yet, and a tap that turns out to be a hold is one of `r` and was overruled. -/
structure Settled (km : Keymap) (a : Arbiter) (r : Record) (t : Attempt) : Prop where
  fresh : ∀ c, t.arbiter.undecided? = some c → c.tap.interrupted = false
  overruled : ∀ d, Emission.dispatched d ∈ t.emitted → d.given.event.pressed = true →
    0 < d.given.tap.count → d.settled.tap.count = 0 →
      d.given.event = r.event ∧ Overruled km a r.event.key

/-- The candidate does not matter to what is overruled. -/
theorem Settled.withCandidate {x : Option Record} {t : Attempt}
    (h : Settled km (a.withCandidate x) r t) : Settled km a r t := ⟨h.fresh, h.overruled⟩

/-- A press about which nothing is known yet, or a release. -/
def IsFresh (r : Record) : Prop := r.event.pressed = true → r.tap = .undecided

theorem settled_pass (free : a.undecided? = none) (fresh : IsFresh r) :
    Settled km a r (a.pass km r) where
  fresh := by
    intro c hc
    have same : (a.pass km r).arbiter.undecided? = a.undecided? := by
      unfold undecided?
      exact congrArg _ (candidate_dispatch a km r false)
    cases free.symm.trans (same ▸ hc)
  overruled := by
    intro d hd pressed pos
    obtain ⟨-, given, -⟩ := given_of_mem hd
    rw [given] at pressed pos
    rw [fresh pressed] at pos
    exact absurd pos (Nat.lt_irrefl 0)

theorem settled_adopt (fresh : r.tap = .undecided) : Settled km a r (a.adopt km r) := by
  unfold adopt
  split
  · refine ⟨fun c hc => ?_, fun d hd _ pos zero => ?_⟩
    · cases (undecided?_dispatchTap a km r).symm.trans hc
    · obtain ⟨-, given, -⟩ := given_of_mem (r := r.withCount 1) hd
      obtain ⟨has, reason⟩ := overruled_of_mem (r := r.withCount 1) hd pos zero
      have calm : (r.withCount 1).tap.interrupted = false := by
        rw [Record.withCount, fresh]
        rfl
      have event : d.given.event = (r.withCount 1).event := congrArg Record.event given
      exact ⟨event, has, reason.resolve_left (by simp [calm])⟩
  · refine ⟨fun c hc => ?_, fun d hd => by cases hd⟩
    obtain rfl := Option.some.inj (of_undecided? hc).1
    rw [fresh]
    rfl

theorem settled_attemptFree (free : a.undecided? = none) (fresh : IsFresh r) :
    Settled km a r (a.attemptFree km r) := by
  unfold attemptFree
  split
  · rename_i tapKey
    rw [Bool.and_eq_true] at tapKey
    exact settled_adopt (fresh tapKey.1)
  · exact settled_pass free fresh

theorem settled_attemptReleased (hc : a.candidate = some c) (up : c.event.pressed = false)
    (fresh : IsFresh r) : Settled km a r (a.attemptReleased km c r) := by
  have free : a.undecided? = none := undecided?_of_decided hc (Record.isUndecided_of_up up)
  unfold attemptReleased
  split
  · exact (settled_attemptFree (a := a.withCandidate none) rfl fresh).withCandidate
  split
  · exact settled_pass free fresh
  rename_i notUp
  have down : r.event.pressed = true := by simpa using notUp
  split
  · split
    · rename_i calm
      simp only [Bool.and_eq_true, Bool.not_eq_true', decide_eq_true_eq] at calm
      have next : Record.tap { r with tap := c.tap.next } = c.tap.next := rfl
      refine ⟨fun x hx => ?_, fun d hd _ pos zero => ?_⟩
      · obtain rfl := Option.some.inj (of_undecided? hx).1
        rw [interrupted_dispatch, next]
        exact calm.1
      · obtain ⟨-, given, -⟩ := given_of_mem hd
        obtain ⟨has, reason⟩ := overruled_of_mem hd pos zero
        have event : d.given.event = Record.event { r with tap := c.tap.next } :=
          congrArg Record.event given
        exact ⟨event, has, reason.resolve_left (by simp [Tap.next, calm.1])⟩
    · exact settled_adopt (fresh down)
  · split
    · exact settled_adopt (fresh down)
    · have interrupted : (a.withCandidate (some c.interrupt)).undecided? = none :=
        undecided?_of_decided rfl (Record.isUndecided_of_up up)
      exact (settled_pass interrupted fresh).withCandidate

theorem settled_attemptTapped (free : a.undecided? = none) (fresh : IsFresh r) :
    Settled km a r (a.attemptTapped km c r) := by
  unfold attemptTapped
  split
  · rename_i own
    simp only [Bool.and_eq_true, decide_eq_true_eq, Bool.not_eq_true'] at own
    refine ⟨fun x hx => ?_, fun d hd pressed => ?_⟩
    · obtain ⟨hx, undecided⟩ := of_undecided? hx
      unfold releaseTap at hx
      dsimp only at hx
      split at hx
      · obtain rfl := Option.some.inj hx
        rw [Record.isUndecided, event_dispatch] at undecided
        simp [own.2] at undecided
      · cases hx
    · obtain ⟨-, given, -⟩ := given_of_mem hd
      rw [given] at pressed
      cases own.2.symm.trans pressed
  split
  · rename_i tapKey
    rw [Bool.and_eq_true] at tapKey
    unfold displaceTap
    split
    · -- the release that is made for the tap is no press
      have adopted : Settled km _ r _ := settled_adopt
        (a := (a.dispatch km ⟨⟨c.event.key, false, r.event.time⟩, c.tap⟩ true).arbiter)
        (fresh tapKey.1)
      refine ⟨adopted.fresh, fun d hd pressed pos zero => ?_⟩
      rcases List.mem_append.mp hd with made | later
      · obtain ⟨-, given, -⟩ := given_of_mem made
        rw [given] at pressed
        cases pressed
      · obtain ⟨event, has, press⟩ := adopted.overruled d later pressed pos zero
        rw [settings_dispatch] at has
        rw [backlog_dispatch] at press
        exact ⟨event, has, press⟩
    · exact settled_adopt (fresh tapKey.1)
  · exact settled_pass free fresh

theorem settled_attempt (free : a.undecided? = none) (fresh : IsFresh r) :
    Settled km a r (a.attempt km r) := by
  unfold attempt
  cases hc : a.candidate with
  | none => exact settled_attemptFree free fresh
  | some c =>
    rcases decided_cases hc free with up | ⟨down, pos⟩
    · simp only [up, Bool.not_false, if_true]
      exact settled_attemptReleased hc up fresh
    · simp only [down, Bool.not_true, Bool.false_eq_true, if_false, Nat.ne_of_gt pos]
      exact settled_attemptTapped free fresh

end Arbiter

end TapHold
