import TapHold.Proofs.Arbiter.Scanned
import TapHold.Proofs.Arbiter.Tries

/-!
# Candidates that were interrupted

A press interrupts the undecided candidate and then waits, so it is in line as long as the candidate
is undecided. The candidate's own next press interrupts as well, but it comes behind the candidate's
release, and a release that waits is too late to make a tap, or was overruled by a press that waits.
This is `Explained`; it is kept when an event is accepted (`explained_accept`) and when the first in
line is tried (`explained_advance?`).
-/

set_option autoImplicit false

namespace TapHold

namespace Arbiter

variable {km : Keymap} {a b : Arbiter} {c r : Record} {rest : List Record} {out : List Emission}
  {down : Position → Bool} {e : KeyEvent}

/-- If the undecided candidate was interrupted, the press of another key is in line. Or its own
release is, but too late to make a tap of it: then its own next press may have interrupted it. -/
def Explained (a : Arbiter) : Prop :=
  ∀ c, a.undecided? = some c → c.tap.interrupted = true →
    a.backlog.hasOtherPress c.event.key = true ∨
      ∃ u, (a.line.find? fun s => s.event.key = c.event.key) = some u ∧ a.isTapRelease c u = false

theorem explained_of_free (free : a.undecided? = none) : Explained a :=
  fun _ hc => by cases free.symm.trans hc

/-- A candidate that was not interrupted yet needs no explanation. -/
theorem explained_of_calm (calm : ∀ c, a.undecided? = some c → c.tap.interrupted = false) :
    Explained a :=
  fun c hc interrupted => by cases (calm c hc).symm.trans interrupted

/-- More records behind the others change nothing. -/
theorem Explained.join (h : Explained a) (s : Record) : Explained (a.withLine (a.line ++ [s])) := by
  intro c hc interrupted
  rcases h c hc interrupted with press | ⟨u, found, late⟩
  · left
    rw [hasOtherPress_withLine, List.any_append]
    have before : a.line.any (fun r => r.event.pressed && r.event.key != c.event.key) = true := press
    rw [before, Bool.true_or]
  · refine Or.inr ⟨u, ?_, late⟩
    rw [line_withLine, List.find?_append, found, Option.some_or]

/-- Handing a record over changes nothing. -/
theorem Explained.dispatch (h : Explained a) (km : Keymap) (r : Record) :
    Explained (a.dispatch km r false).arbiter := by
  intro c hc interrupted
  have same : (a.dispatch km r false).arbiter.undecided? = a.undecided? := by
    unfold undecided?
    rw [candidate_dispatch]
  rw [line_dispatch, backlog_dispatch]
  rcases h c (same ▸ hc) interrupted with press | ⟨u, found, late⟩
  · exact Or.inl press
  · exact Or.inr ⟨u, found, (isTapRelease_congr (settings_dispatch a km r false) c u).trans late⟩

/-- Without the release of another key in front nothing changes either. -/
theorem Explained.tail (h : Explained a) (hc : a.candidate = some c) (hl : a.line = r :: rest)
    (up : r.event.pressed = false) (other : r.event.key ≠ c.event.key) :
    Explained (a.withLine rest) := by
  intro d hd interrupted
  obtain rfl := Option.some.inj (hc.symm.trans (of_undecided? hd).1)
  rcases h c hd interrupted with press | ⟨u, found, late⟩
  · left
    have whole : (r :: rest).any (fun s => s.event.pressed && s.event.key != c.event.key) = true :=
      hl ▸ press
    rw [List.any_cons, up, Bool.false_and, Bool.false_or] at whole
    exact whole
  · rw [hl, List.find?_cons_of_neg (by simpa using other)] at found
    exact Or.inr ⟨u, found, late⟩

/-- The press of another key that interrupts is in line. -/
theorem explained_of_press {s : Record} (hs : s ∈ a.line) (down : s.event.pressed = true)
    (hc : a.candidate = some c) (other : s.event.key ≠ c.event.key) : Explained a := by
  intro d hd _
  obtain rfl := Option.some.inj (hc.symm.trans (of_undecided? hd).1)
  exact Or.inl (List.any_eq_true.mpr ⟨s, hs, by simp [down, other]⟩)

/-- If the key of the undecided candidate is up, its release waits, and it is the first edge of the
key in line. -/
theorem exists_own_release (o : Orderly down a) (hc : a.candidate = some c)
    (hu : c.isUndecided = true) (up : down c.event.key = false) :
    ∃ u, (a.line.find? fun s => s.event.key = c.event.key) = some u := by
  cases found : a.line.find? fun s => s.event.key = c.event.key with
  | some u => exact ⟨u, rfl⟩
  | none =>
    -- otherwise the press of a key that is up would be its last edge
    have alternates := o.alternates
    rw [awaited_of_undecided hc hu] at alternates
    have next := head?_edges alternates
    have foreign : ∀ s ∈ a.line.map Record.event ++ [], s.key ≠ c.event.key := by
      intro s hs
      rw [List.append_nil] at hs
      obtain ⟨t, ht, rfl⟩ := List.mem_map.mp hs
      simpa using List.find?_eq_none.mp found t ht
    rw [← List.append_nil (a.line.map Record.event), edges_append_of_ne
      (fun s hs => foreign s (List.mem_append_left _ hs)), (Record.isUndecided_iff.mp hu).1] at next
    simp [edges, up] at next

/-- An undecided candidate whose own next press comes was not interrupted by it alone. -/
theorem explained_of_own_press (o : Orderly down a) (scanned : Scanned km a) (h : Explained a)
    (hc : a.candidate = some c) (hu : c.isUndecided = true) (up : down c.event.key = false)
    (s : Record) : Explained ((a.withCandidate (some c.interrupt)).withLine (a.line ++ [s])) := by
  have calm : Explained (a.withCandidate (some c.interrupt)) := by
    intro d hd _
    obtain rfl := Option.some.inj (of_undecided? hd).1
    have undecided := undecided?_eq_some hc hu
    obtain ⟨u, found⟩ := exists_own_release o hc hu up
    cases own : a.isTapRelease c u with
    | false => exact Or.inr ⟨u, found, own⟩
    | true =>
      -- a release that could make a tap of it waits only if the tap was overruled
      rcases (scanned c undecided u (List.mem_of_find?_eq_some found) own).2 with before | press
      · rcases h c undecided before with press | ⟨u', found', late⟩
        · exact Or.inl press
        · obtain rfl := Option.some.inj (found.symm.trans found')
          cases own.symm.trans late
      · exact Or.inl press
  exact calm.join s

/-- A record is put into the line, or everything is lost. -/
theorem explained_postpone {s : Record} (h : Explained (a.withLine (a.line ++ [s])))
    (real : s.isTick = false) : Explained (a.postpone s).1 := by
  rcases postpone_real a real with kept | lost
  · rw [kept]
    exact h
  · rw [lost]
    exact explained_of_free rfl

theorem explained_accept (o : Orderly down a) (scanned : Scanned km a) (h : Explained a)
    (next : e.isTick = false → e.pressed = !down e.key)
    (ticks : e.isTick = true → e.pressed = false) :
    Explained (a.accept km e).1 := by
  -- where no candidate is left there is nothing to explain, whatever becomes of the record
  have settled {b : Arbiter} (none : b.undecided? = none) (s : Record) :
      Explained (b.postpone s).1 := by
    cases tick : s.isTick with
    | true =>
      rw [postpone_tick b tick]
      exact explained_of_free none
    | false => exact explained_postpone (explained_of_free none) tick
  unfold accept
  dsimp only
  cases free : a.undecided? with
  | none =>
    have settled : Settled km a (.ofEvent e) _ := settled_attempt free fun _ => rfl
    rw [waiting_of_free km _ free]
    exact explained_of_calm settled.fresh
  | some c =>
    obtain ⟨hc, hu⟩ := of_undecided? free
    rw [attempt_undecided hc hu]
    have meets := meets_attemptUndecided km a c (.ofEvent e)
    generalize a.attemptUndecided km c (.ofEvent e) = t at meets ⊢
    cases meets with
    | late late | typed up other opposite => exact settled rfl _
    | own inTerm up same => exact settled (undecided?_dispatchTap a km c) _
    | still up other =>
      cases tick : e.isTick with
      | true =>
        have same : a.postpone (.ofEvent e) = (a, []) := postpone_tick a tick
        show Explained (a.postpone (.ofEvent e)).1
        rw [same]
        exact h
      | false => exact explained_postpone (h.join _) tick
    -- a key that was pressed before is released: no press leaves the line
    | pass up other => exact h.dispatch km _
    | press inTerm down =>
      have real : e.isTick = false := by
        rw [← Bool.not_eq_true]
        intro tick
        cases (ticks tick).symm.trans down
      -- the press that interrupts waits, and explains it unless it is one of the candidate's key
      refine explained_postpone ?_ real
      by_cases same : e.key = c.event.key
      · have up := next real
        rw [same, show e.pressed = true from down] at up
        exact explained_of_own_press o scanned h hc hu (by simpa using up.symm) _
      · exact explained_of_press (s := .ofEvent e) (by simp) down rfl same

/-- The first in line is tried. -/
theorem explained_advance? (o : Orderly down a) (fresh : ∀ r ∈ a.line, IsFresh r) (h : Explained a)
    (advanced : a.advance? km = some (b, out)) : Explained b := by
  obtain ⟨r, rest, hl, -, result⟩ := advance?_cases advanced
  cases free : a.undecided? with
  | none =>
    have settled : Settled km a r _ := settled_attempt free (fresh r (by simp [hl]))
    rcases result with ⟨-, rfl⟩ | ⟨s, waits, -⟩
    · exact explained_of_calm settled.fresh
    · cases (waiting_of_free km r free).symm.trans waits
  | some c =>
    obtain ⟨hc, hu⟩ := of_undecided? free
    rw [attempt_undecided hc hu] at result
    have meets := meets_attemptUndecided km a c r
    generalize a.attemptUndecided km c r = t at meets result
    cases meets with
    | late late | typed up other opposite =>
      -- the candidate is a hold, and none is left
      rcases result with ⟨-, rfl⟩ | ⟨s, -, -, rfl⟩
      · exact explained_of_free rfl
      · exact explained_of_free rfl
    | own inTerm up same =>
      -- the candidate is a tap, so it is decided
      rcases result with ⟨-, rfl⟩ | ⟨s, -, -, rfl⟩
      · exact explained_of_free (undecided?_dispatchTap a km c)
      · exact explained_of_free (undecided?_dispatchTap a km c)
    | still up other =>
      rcases result with ⟨consumed, -⟩ | ⟨s, -, changed, -⟩
      · cases consumed
      · exact absurd rfl changed
    | pass up other =>
      rcases result with ⟨-, rfl⟩ | ⟨s, waits, -⟩
      · have line : (a.dispatch km r false).arbiter.line = r :: rest :=
          (line_dispatch a km r false).trans hl
        have candidate : (a.dispatch km r false).arbiter.candidate = some c :=
          (candidate_dispatch a km r false).trans hc
        have tail := (h.dispatch km r).tail candidate line up other
        show Explained
          ((a.dispatch km r false).arbiter.withLine (a.dispatch km r false).arbiter.line.tail)
        rw [line]
        exact tail
      · cases waits
    | press inTerm down =>
      rcases result with ⟨consumed, -⟩ | ⟨s, waits, -, rfl⟩
      · cases consumed
      obtain rfl := Option.some.inj waits
      -- the press in front is no press of the candidate's key, whose release comes first
      have other : r.event.key ≠ c.event.key := by
        intro same
        have alternates := o.alternates
        rw [awaited_of_undecided hc hu, hl, List.map_cons] at alternates
        have release := head?_edges alternates
        rw [edges_cons_of_eq same, down, (Record.isUndecided_iff.mp hu).1] at release
        cases release
      have front : (a.withCandidate (some c.interrupt)).withLine (r :: rest) =
          a.withCandidate (some c.interrupt) := by
        rw [← hl]
        rfl
      rw [front]
      have waits : r ∈ a.line := by simp [hl]
      exact explained_of_press (s := r) waits down rfl other

end Arbiter

end TapHold
