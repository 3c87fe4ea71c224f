import TapHold.Arbiter.Basic

/-!
# One attempt at a record

An attempt either consumes a record or leaves it to wait, and may settle the candidate in passing.
What happens depends on the candidate:

* none: a press of a tap key becomes the candidate, all else is dispatched;
* a released tap: the next press may continue it;
* an undecided press: it becomes a hold when its term has passed or another key has been typed, and
  a tap when it is released; other records wait, but for releases of keys pressed before it;
* a tap that is still down: records pass, until it is released or another tap key goes down.

An attempt keeps the number of waiting records (`size_attempt`). A record that has to wait leaves
the candidate alone or brings it closer to its decision (`rank_attempt_lt`), so no record is tried
for ever.
-/

set_option autoImplicit false

namespace TapHold

/-- The result of an attempt at a record. -/
structure Attempt where
  arbiter : Arbiter
  /-- The record, if it was not consumed. -/
  waiting : Option Record
  emitted : List Emission

namespace Arbiter

/-- Dispatches a record, which is thereby consumed. -/
def pass (a : Arbiter) (km : Keymap) (r : Record) : Attempt :=
  let handed := a.dispatch km r false
  ⟨handed.arbiter, none, handed.emitted⟩

/-- Makes a record the candidate, which is thereby consumed. If the release that makes it a tap
already waits in the backlog, the tap is dispatched at once and the release takes part in it. -/
def adopt (a : Arbiter) (km : Keymap) (c : Record) : Attempt :=
  if c.isUndecided && a.backlog.records.any (a.isTapRelease c) then
    let tap := a.dispatchTap km c
    let backlog := tap.arbiter.backlog.modifyFirst (a.isTapRelease c)
      fun r => { r with tap := tap.record.tap }
    ⟨{ tap.arbiter with backlog }, none, tap.emitted⟩
  else ⟨{ a with candidate := some c }, none, []⟩

/-- With no candidate. -/
def attemptFree (a : Arbiter) (km : Keymap) (r : Record) : Attempt :=
  if r.event.pressed && a.isTapHoldKey km r.event.key then a.adopt km r else a.pass km r

/-- With a candidate `c` that was tapped and released. Within the term of its release, the same key
counts one more tap, another tap key takes its place, and any other press interrupts it. -/
def attemptReleased (a : Arbiter) (km : Keymap) (c r : Record) : Attempt :=
  if !r.event.time.isWithin c.event.time a.term then
    { a with candidate := none }.attemptFree km r
  else if !r.event.pressed then a.pass km r
  else if r.event.key = c.event.key then
    if !c.tap.interrupted && decide (0 < c.tap.count) then
      let again := a.dispatch km { r with tap := c.tap.next } false
      ⟨{ again.arbiter with candidate := some again.record }, none, again.emitted⟩
    else a.adopt km r
  else if a.isTapHoldKey km r.event.key then a.adopt km r
  else { a with candidate := some c.interrupt }.pass km r

/-- Dispatches the undecided candidate `c` as a hold; the record has to be tried again. -/
def settleHold (a : Arbiter) (km : Keymap) (c r : Record) : Attempt :=
  let hold := a.dispatch km c false
  ⟨{ hold.arbiter with candidate := none }, some r, hold.emitted⟩

/-- Dispatches the undecided candidate `c` as a tap; its release takes part in the tap and has to be
tried again. -/
def settleTap (a : Arbiter) (km : Keymap) (c r : Record) : Attempt :=
  let tap := a.dispatchTap km c
  ⟨tap.arbiter, some { r with tap := tap.record.tap }, tap.emitted⟩

/-- With a candidate `c` that is neither a tap nor a hold yet. -/
def attemptUndecided (a : Arbiter) (km : Keymap) (c r : Record) : Attempt :=
  if !r.event.time.isWithin c.event.time a.term then a.settleHold km c r
  else if r.event.pressed then ⟨{ a with candidate := some c.interrupt }, some r, []⟩
  else if r.event.key = c.event.key then a.settleTap km c r
  else if r.isTick then ⟨a, some r, []⟩
  -- a key whose press waits has now been typed: the candidate is held over it
  else if a.backlog.hasOpposite r.event then a.settleHold km c r
  -- a modifier stays down for the tap that may still come of the candidate
  else if a.interpreter.holdsModifier km r then ⟨a, some r, []⟩
  else a.pass km r

/-- The release of the candidate `c`, which is a tap. It stays the candidate for a further tap if it
comes within the term. -/
def releaseTap (a : Arbiter) (km : Keymap) (c r : Record) : Attempt :=
  let release := a.dispatch km { r with tap := c.tap } false
  let candidate :=
    if r.event.time.isWithin c.event.time a.term then some release.record else none
  ⟨{ release.arbiter with candidate }, none, release.emitted⟩

/-- Another tap key takes the place of the candidate `c`, which is a tap and still down. From the
second tap on, the candidate is ended by a release made for it. -/
def displaceTap (a : Arbiter) (km : Keymap) (c r : Record) : Attempt :=
  if 1 < c.tap.count then
    let release := a.dispatch km ⟨⟨c.event.key, false, r.event.time⟩, c.tap⟩ true
    let adopted := release.arbiter.adopt km r
    { adopted with emitted := release.emitted ++ adopted.emitted }
  else a.adopt km r

/-- With a candidate `c` that is a tap and still down. -/
def attemptTapped (a : Arbiter) (km : Keymap) (c r : Record) : Attempt :=
  if decide (r.event.key = c.event.key) && !r.event.pressed then a.releaseTap km c r
  else if r.event.pressed && a.isTapHoldKey km r.event.key then a.displaceTap km c r
  else a.pass km r

/-- Tries a record against the candidate. -/
def attempt (a : Arbiter) (km : Keymap) (r : Record) : Attempt :=
  match a.candidate with
  | none => a.attemptFree km r
  | some c =>
    if !c.event.pressed then a.attemptReleased km c r
    else if c.tap.count = 0 then a.attemptUndecided km c r
    else a.attemptTapped km c r

/-- How far a candidate is from its decision. -/
def rank : Option Record → Nat
  | none => 0
  | some c => if c.isUndecided then (if c.tap.interrupted then 1 else 2) else 0

theorem rank_le_two (c : Option Record) : rank c ≤ 2 := by
  unfold rank
  split
  · omega
  · split
    · split <;> omega
    · omega

/-! ## The backlog keeps its size -/

@[simp] theorem backlog_dispatch (a : Arbiter) (km : Keymap) (r : Record) (s : Bool) :
    (a.dispatch km r s).arbiter.backlog = a.backlog := by
  unfold dispatch
  split <;> rfl

@[simp] theorem backlog_dispatchTap (a : Arbiter) (km : Keymap) (c : Record) :
    (a.dispatchTap km c).arbiter.backlog = a.backlog := backlog_dispatch a km _ false

@[simp] theorem size_pass (a : Arbiter) (km : Keymap) (r : Record) :
    (a.pass km r).arbiter.backlog.size = a.backlog.size := by
  simp [pass]

@[simp] theorem size_adopt (a : Arbiter) (km : Keymap) (r : Record) :
    (a.adopt km r).arbiter.backlog.size = a.backlog.size := by
  unfold adopt
  split <;> simp

@[simp] theorem size_attemptFree (a : Arbiter) (km : Keymap) (r : Record) :
    (a.attemptFree km r).arbiter.backlog.size = a.backlog.size := by
  unfold attemptFree
  split <;> simp

theorem size_attemptReleased (a : Arbiter) (km : Keymap) (c r : Record) :
    (a.attemptReleased km c r).arbiter.backlog.size = a.backlog.size := by
  unfold attemptReleased
  repeat' split
  all_goals simp

theorem size_attemptUndecided (a : Arbiter) (km : Keymap) (c r : Record) :
    (a.attemptUndecided km c r).arbiter.backlog.size = a.backlog.size := by
  unfold attemptUndecided
  repeat' split
  all_goals simp [settleHold, settleTap]

theorem size_attemptTapped (a : Arbiter) (km : Keymap) (c r : Record) :
    (a.attemptTapped km c r).arbiter.backlog.size = a.backlog.size := by
  unfold attemptTapped displaceTap
  repeat' split
  all_goals simp [releaseTap]

/-- An attempt keeps the number of waiting records. -/
theorem size_attempt (a : Arbiter) (km : Keymap) (r : Record) :
    (a.attempt km r).arbiter.backlog.size = a.backlog.size := by
  unfold attempt
  repeat' split
  all_goals simp only [size_attemptFree, size_attemptReleased, size_attemptUndecided,
    size_attemptTapped]

/-! ## Records that wait -/

theorem waiting_pass (a : Arbiter) (km : Keymap) (r : Record) : (a.pass km r).waiting = none := rfl

theorem waiting_adopt (a : Arbiter) (km : Keymap) (r : Record) :
    (a.adopt km r).waiting = none := by
  unfold adopt
  split <;> rfl

theorem waiting_attemptFree (a : Arbiter) (km : Keymap) (r : Record) :
    (a.attemptFree km r).waiting = none := by
  unfold attemptFree
  split
  · exact waiting_adopt a km r
  · rfl

theorem waiting_attemptReleased (a : Arbiter) (km : Keymap) (c r : Record) :
    (a.attemptReleased km c r).waiting = none := by
  unfold attemptReleased
  repeat' split
  all_goals simp only [waiting_attemptFree, waiting_adopt, waiting_pass]

theorem waiting_attemptTapped (a : Arbiter) (km : Keymap) (c r : Record) :
    (a.attemptTapped km c r).waiting = none := by
  unfold attemptTapped releaseTap displaceTap
  repeat' split
  all_goals simp only [waiting_adopt, waiting_pass]

/-- The candidate after a tap was dispatched is decided. -/
theorem rank_dispatchTap (a : Arbiter) (km : Keymap) (c : Record) :
    rank (a.dispatchTap km c).arbiter.candidate = 0 := by
  simp only [dispatchTap]
  split
  · rfl
  · simp [rank, Record.isUndecided, *]

/-- Only a record that meets an undecided candidate has to wait, and it leaves that candidate alone
or brings it closer to its decision. -/
theorem rank_attemptUndecided_lt {a : Arbiter} {c : Record} (km : Keymap) (r : Record)
    (hc : a.candidate = some c) (hu : c.isUndecided = true)
    (hw : (a.attemptUndecided km c r).waiting ≠ none)
    (hn : (a.attemptUndecided km c r).arbiter.candidate ≠ a.candidate) :
    rank (a.attemptUndecided km c r).arbiter.candidate < rank a.candidate := by
  have pos : 0 < rank a.candidate := by
    rw [hc, rank, if_pos hu]
    split <;> omega
  revert hw hn
  unfold attemptUndecided
  -- the term has passed: no candidate is left
  split
  · exact fun _ _ => pos
  -- a press: an interrupted candidate stays as it is
  split
  · intro _ hn
    rw [hc] at hn ⊢
    have fresh : c.tap.interrupted = false := by
      rcases c with ⟨e, ⟨n, _ | _⟩⟩
      · rfl
      · exact absurd rfl hn
    have hu' : c.interrupt.isUndecided = true := hu
    have interrupted : c.interrupt.tap.interrupted = true := rfl
    simp [rank, hu, hu', fresh, interrupted]
  -- its own release
  split
  · intro _ _
    rw [settleTap, rank_dispatchTap]
    exact pos
  -- a tick, a typed key, a modifier that stays down, and any other release
  split
  · exact fun _ hn => absurd rfl hn
  split
  · exact fun _ _ => pos
  split
  · exact fun _ hn => absurd rfl hn
  · exact fun hw _ => absurd rfl hw

/-- A record that has to wait leaves the candidate alone or brings it closer to its decision. -/
theorem rank_attempt_lt (a : Arbiter) (km : Keymap) (r : Record)
    (hw : (a.attempt km r).waiting ≠ none)
    (hn : (a.attempt km r).arbiter.candidate ≠ a.candidate) :
    rank (a.attempt km r).arbiter.candidate < rank a.candidate := by
  rcases hc : a.candidate with _ | c
  · simp only [attempt, hc] at hw
    exact absurd (waiting_attemptFree a km r) hw
  simp only [attempt, hc] at hw hn ⊢
  split at hw
  · exact absurd (waiting_attemptReleased a km c r) hw
  rename_i hp
  split at hw
  · rename_i h0
    have hu : c.isUndecided = true := by
      simp only [Bool.not_eq_true', Bool.not_eq_false] at hp
      simp [Record.isUndecided, hp, h0]
    rw [if_neg hp, if_pos h0, ← hc] at hn ⊢
    exact rank_attemptUndecided_lt km r hc hu hw hn
  · exact absurd (waiting_attemptTapped a km c r) hw

end Arbiter

end TapHold
