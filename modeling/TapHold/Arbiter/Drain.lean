import TapHold.Arbiter.Attempt

/-!
# Processing key events

An event is tried at once and waits in the backlog if it has to. Then the backlog is drained: its
oldest record is tried until it is consumed or has to wait for an event yet to come. Each advance
lowers the work that is left (`work_lt_of_advance?`), so draining ends.
-/

set_option autoImplicit false

namespace TapHold

namespace Arbiter

/-- One successful attempt at the oldest waiting record, with what it emits: the record is consumed
and leaves the backlog, or it changes the candidate and stays in front. There is none when no record
waits, or when the oldest cannot change anything yet. -/
def advance? (a : Arbiter) (km : Keymap) : Option (Arbiter × List Emission) :=
  match a.backlog.records with
  | [] => none
  | r :: _ =>
    let tried := a.attempt km r
    match tried.waiting with
    | none =>
      some ({ tried.arbiter with backlog := tried.arbiter.backlog.dropFront }, tried.emitted)
    | some front =>
      if tried.arbiter.candidate = a.candidate then none
      else
        some ({ tried.arbiter with backlog := tried.arbiter.backlog.setFront front },
          tried.emitted)

/-- The work that is left: at most two failed attempts for the candidate, and a few steps for every
waiting record. -/
def work (a : Arbiter) : Nat := 3 * a.backlog.size + rank a.candidate

theorem work_lt_of_advance? {a b : Arbiter} {km : Keymap} {out : List Emission}
    (h : a.advance? km = some (b, out)) : b.work < a.work := by
  unfold advance? at h
  split at h
  · exact nomatch h
  rename_i r rest hr
  have size := size_attempt a km r
  have pos : 0 < a.backlog.size := by simp [Backlog.size, hr]
  simp only at h
  split at h
  · obtain ⟨rfl, -⟩ := Prod.mk.inj (Option.some.inj h)
    have two := rank_le_two (a.attempt km r).arbiter.candidate
    simp only [work, Backlog.size_dropFront, size]
    omega
  · rename_i front hw
    split at h
    · exact nomatch h
    · rename_i changed
      obtain ⟨rfl, -⟩ := Prod.mk.inj (Option.some.inj h)
      have lower := rank_attempt_lt a km r (fun none => nomatch hw.symm.trans none) changed
      simp only [work, Backlog.size_setFront, size]
      omega

/-- The state after draining the backlog, and what was emitted. -/
def drain (a : Arbiter) (km : Keymap) : Arbiter × List Emission :=
  match h : a.advance? km with
  | none => (a, [])
  | some (b, out) =>
    have := work_lt_of_advance? h
    let rest := b.drain km
    (rest.1, out ++ rest.2)
termination_by a.work

/-- Draining ends where no advance is left. -/
theorem drain_of_stuck {a : Arbiter} {km : Keymap} (h : a.advance? km = none) :
    a.drain km = (a, []) := by
  rw [drain]
  split
  · rfl
  · rename_i advanced
    cases h.symm.trans advanced

/-- Draining goes on after an advance. -/
theorem drain_of_advance? {a b : Arbiter} {km : Keymap} {out : List Emission}
    (h : a.advance? km = some (b, out)) :
    a.drain km = ((b.drain km).1, out ++ (b.drain km).2) := by
  rw [drain]
  split
  · rename_i stuck
    cases h.symm.trans stuck
  · rename_i advanced
    obtain ⟨rfl, rfl⟩ := Prod.mk.inj (Option.some.inj (h.symm.trans advanced))
    rfl

/-- Puts a record that has to wait at the end of the backlog. A full backlog overflows: the record
is lost with all others, and everything is let go. -/
def postpone (a : Arbiter) (r : Record) : Arbiter × List Emission :=
  match a.backlog.push? r with
  | some backlog => ({ a with backlog }, [])
  | none => (a.forget, [.overflow])

/-- Tries an event, which is consumed or put into the backlog. -/
def accept (a : Arbiter) (km : Keymap) (e : KeyEvent) : Arbiter × List Emission :=
  let tried := a.attempt km (.ofEvent e)
  match tried.waiting with
  | none => (tried.arbiter, tried.emitted)
  | some r =>
    let kept := tried.arbiter.postpone r
    (kept.1, tried.emitted ++ kept.2)

/-- Processes one event, and every waiting record that it settles. -/
def handle (a : Arbiter) (km : Keymap) (e : KeyEvent) : Arbiter × List Emission :=
  let accepted := a.accept km e
  let drained := accepted.1.drain km
  (drained.1, accepted.2 ++ drained.2)

/-- Processes a list of events. -/
def run (a : Arbiter) (km : Keymap) : List KeyEvent → Arbiter × List Emission
  | [] => (a, [])
  | e :: es =>
    let first := a.handle km e
    let rest := first.1.run km es
    (rest.1, first.2 ++ rest.2)

end Arbiter

end TapHold
