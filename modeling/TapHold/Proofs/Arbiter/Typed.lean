import TapHold.Proofs.Arbiter.Due
import TapHold.Proofs.Arbiter.Run

/-!
# Keys that are typed under an undecided candidate

A key whose press waits and whose release comes settles the candidate. So nothing but what was in
line when the candidate was started can be typed behind it while it stays undecided: as long as it
is neither dispatched nor lost (`Settles`), no press and release of another key are in line that
were not there before (`Remains`). A candidate that is started while nothing waits has no typed key
behind it at all (`exists_start_of_undecided`). A candidate that is started out of the line can have
one: its press and its release are both in line already, and neither settles it
(`isTyped_of_nested_run`).
-/

set_option autoImplicit false

namespace TapHold

/-- The press `e` is dispatched, or everything is lost. -/
def Settles (e : KeyEvent) (out : List Emission) : Prop :=
  Emission.overflow ∈ out ∨ ∃ d, Emission.dispatched d ∈ out ∧ d.given.event = e

theorem Settles.append_left {e : KeyEvent} {out : List Emission} (h : Settles e out)
    (out' : List Emission) : Settles e (out ++ out') := by
  rcases h with lost | ⟨d, hd, same⟩
  · exact Or.inl (List.mem_append_left _ lost)
  · exact Or.inr ⟨d, List.mem_append_left _ hd, same⟩

theorem Settles.append_right {e : KeyEvent} {out' : List Emission} (h : Settles e out')
    (out : List Emission) : Settles e (out ++ out') := by
  rcases h with lost | ⟨d, hd, same⟩
  · exact Or.inl (List.mem_append_right _ lost)
  · exact Or.inr ⟨d, List.mem_append_right _ hd, same⟩

namespace Arbiter

variable {km : Keymap} {settings : Settings} {a b : Arbiter} {c p r : Record} {rs : List Record}
  {out out' : List Emission} {e x : KeyEvent} {key : Position}

/-- Another key than `key` is pressed by `p` and, behind it, released by `r`. -/
structure IsTyped (key : Position) (rs : List Record) (p r : Record) : Prop where
  inLine : [p, r].Sublist rs
  same : p.event.key = r.event.key
  other : p.event.key ≠ key
  down : p.event.pressed = true
  up : r.event.pressed = false

/-- The press `e` is still undecided, and no key is typed that was not. -/
structure Remains (e : KeyEvent) (a b : Arbiter) : Prop where
  undecided : ∃ c, b.undecided? = some c ∧ c.event = e
  typed : ∀ p r, IsTyped e.key b.line p r → IsTyped e.key a.line p r

theorem IsTyped.of_sublist {rs' : List Record} (h : IsTyped key rs p r) (sub : rs.Sublist rs') :
    IsTyped key rs' p r :=
  { h with inLine := h.inLine.trans sub }

theorem Remains.refl (h : a.undecided? = some c) : Remains c.event a a :=
  ⟨⟨c, h, rfl⟩, fun _ _ typed => typed⟩

/-- The undecided press `e` is settled, or it remains undecided. -/
def Bides (e : KeyEvent) (a : Arbiter) (out : List Emission) (b : Arbiter) : Prop :=
  Settles e out ∨ Remains e a b

theorem Bides.then {d : Arbiter} (h : Bides e a out b)
    (next : ∀ c, b.undecided? = some c → c.event = e → Bides e b out' d) :
    Bides e a (out ++ out') d := by
  rcases h with settled | first
  · exact Or.inl (settled.append_left out')
  obtain ⟨c, undecided, same⟩ := first.undecided
  rcases next c undecided same with settled | second
  · exact Or.inl (settled.append_right out)
  · exact Or.inr ⟨second.undecided, fun p r typed => first.typed p r (second.typed p r typed)⟩

/-! ## One step -/

theorem settles_dispatch (real : r.isTick = false) (s : Bool) :
    Settles r.event (a.dispatch km r s).emitted := by
  rw [emitted_dispatch a km real]
  exact Or.inr ⟨_, List.mem_singleton_self _, rfl⟩

/-- A move settles the undecided candidate or leaves it undecided; then it takes at most one record
out of the line. -/
theorem remains_move (m : Move km a out b) (h : a.undecided? = some c) (real : c.isTick = false) :
    Bides c.event a out b := by
  obtain ⟨hc, hu⟩ := of_undecided? h
  have only {d : Record} (hd : a.candidate = some d) : d = c := Option.some.inj (hd.symm.trans hc)
  cases m with
  | @lapse d t hd up late =>
    obtain rfl := only hd
    cases hu.symm.trans (Record.isUndecided_of_up up)
  | @interrupt d hd waits =>
    obtain rfl := only hd
    exact Or.inr ⟨⟨d.interrupt, undecided?_eq_some rfl hu, rfl⟩, fun p r typed => typed⟩
  | @hold d hd hu =>
    obtain rfl := only hd
    exact Or.inl (settles_dispatch real false)
  | @tap d r rest hd hu hl own =>
    obtain rfl := only hd
    exact Or.inl (settles_dispatch (r := d.withCount 1) real false)
  | @overtake d r pre post hd hu hl up other untyped =>
    obtain rfl := only hd
    refine Or.inr ⟨⟨d, ?_, rfl⟩, fun p s typed => typed.of_sublist ?_⟩
    · exact undecided?_eq_some ((candidate_dispatch a km r false).trans hd) hu
    · rw [line_withLine, hl]
      exact (List.sublist_cons_self r post).append_left pre
  | pass free hl plain other => cases free.symm.trans h
  | start free hl pressed single alone => cases free.symm.trans h
  | startTap free hl hu single own => cases free.symm.trans h
  | @again d r rest hd up pos calm hl pressed same =>
    obtain rfl := only hd
    cases hu.symm.trans (Record.isUndecided_of_up up)
  | @release d r rest keep hd pressed pos hl up same =>
    obtain rfl := only hd
    cases hu.symm.trans (Record.isUndecided_of_pos pos)
  | @displace d t hd pressed many =>
    obtain rfl := only hd
    cases hu.symm.trans (Record.isUndecided_of_pos (Nat.lt_of_succ_lt many))
  | overflow => exact Or.inl (Or.inl (List.mem_singleton_self _))

/-- A record that joins the line is no release of a key whose press is there. -/
theorem isTyped_join {s : Record}
    (untyped : s.event.pressed = false → a.backlog.hasOpposite s.event = false)
    (typed : IsTyped key (a.line ++ [s]) p r) : IsTyped key a.line p r := by
  refine { typed with inLine := ?_ }
  obtain ⟨front, back, split, hfront, hback⟩ := List.sublist_append_iff.mp typed.inLine
  cases back with
  | nil =>
    rw [List.append_nil] at split
    rw [split]
    exact hfront
  | cons y ys =>
    -- the release is the new record, and its press is in line
    have last : y = s ∧ ys = [] := by
      have few := hback.length_le
      have none : ys = [] :=
        List.eq_nil_of_length_eq_zero (Nat.le_zero.mp (Nat.le_of_succ_le_succ few))
      subst none
      exact ⟨List.singleton_sublist.mp hback |> List.mem_singleton.mp, rfl⟩
    obtain ⟨rfl, rfl⟩ := last
    have ends : front = [p] ∧ r = y := by
      have cut : [p] ++ [r] = front ++ [y] := split
      obtain ⟨first, second⟩ := List.append_inj' cut rfl
      exact ⟨first.symm, List.singleton_inj.mp second⟩
    obtain ⟨rfl, rfl⟩ := ends
    have waits : p ∈ a.line := List.singleton_sublist.mp hfront
    have none := List.any_eq_false.mp (untyped typed.up) p waits
    simp [typed.same, typed.down, typed.up] at none

theorem remains_arrival (arrival : Arrival km x a out b) (h : a.undecided? = some c)
    (real : c.isTick = false) : Bides c.event a out b := by
  cases arrival with
  | join loose alone untyped =>
    exact Or.inr ⟨⟨c, h, rfl⟩, fun p r typed =>
      isTyped_join (s := .ofEvent x) (fun up => untyped c h up) typed⟩
  | @tap d hd hu own =>
    obtain rfl := Option.some.inj (hd.symm.trans (of_undecided? h).1)
    exact Or.inl (settles_dispatch (r := d.withCount 1) real false)

/-! ## Runs -/

theorem remains_moves (m : Moves km a out b) (h : a.undecided? = some c) (real : c.isTick = false) :
    Bides c.event a out b := by
  induction m generalizing c with
  | refl a => exact Or.inr (.refl h)
  | step m _ ih =>
    refine (remains_move m h real).then fun d undecided same => ?_
    have real' : d.isTick = false := (congrArg KeyEvent.isTick same).trans real
    exact same ▸ ih undecided real'

/-- An event settles the undecided candidate or leaves it undecided; then it types no key. -/
theorem remains_handle (rested : a.Rested) (x : KeyEvent) (h : a.undecided? = some c)
    (real : c.isTick = false) : Bides c.event a (a.handle km x).2 (a.handle km x).1 := by
  have realOf {d : Record} (same : d.event = c.event) : d.isTick = false :=
    (congrArg KeyEvent.isTick same).trans real
  cases tick : x.isTick with
  | true =>
    refine remains_moves (handle_tick_moves tick fun d hd => ?_) h real
    obtain rfl := Option.some.inj (hd.symm.trans (of_undecided? h).1)
    exact real
  | false =>
    have passage : Passage km x a (a.handle km x).2 (a.handle km x).1 := handle_passage rested tick
    obtain ⟨a₁, a₂, out₁, out₂, out₃, first, arrival, last, split⟩ := passage
    rw [split]
    refine (remains_moves first h real).then fun d₁ undecided₁ same₁ => ?_
    refine Bides.then (same₁ ▸ remains_arrival arrival undecided₁ (realOf same₁))
      fun d₂ undecided₂ same₂ => ?_
    exact same₂ ▸ remains_moves last undecided₂ (realOf same₂)

/-- No tick is held. -/
def RealHeld (a : Arbiter) : Prop := ∀ e ∈ a.heldEvents, e.isTick = false

theorem realHeld_moves (m : Moves km a out b) (h : RealHeld a) : RealHeld b :=
  m.keep (fun move held e he => held e ((heldEvents_move move).subset he)) h

theorem realHeld_handle (rested : a.Rested) (h : RealHeld a) (x : KeyEvent) :
    RealHeld (a.handle km x).1 := by
  cases tick : x.isTick with
  | true =>
    exact realHeld_moves (handle_tick_moves tick fun c hc => h _ (candidate_mem_heldEvents hc)) h
  | false =>
    have passage : Passage km x a (a.handle km x).2 (a.handle km x).1 := handle_passage rested tick
    obtain ⟨a₁, a₂, out₁, out₂, out₃, first, arrival, last, -⟩ := passage
    refine realHeld_moves last fun e he => ?_
    rcases List.mem_append.mp ((heldEvents_arrival arrival).subset he) with held | new
    · exact realHeld_moves first h e held
    · rw [List.mem_singleton.mp new]
      exact tick

theorem realHeld_run (rested : a.Rested) (h : RealHeld a) (es : List KeyEvent) :
    RealHeld (a.run km es).1 := by
  induction es generalizing a with
  | nil => exact h
  | cons e es ih => exact ih (rested_handle a km e) (realHeld_handle rested h e)

/-- Nothing waits behind an event that comes while no candidate is undecided. -/
theorem line_handle_of_free (rested : a.Rested) (free : a.undecided? = none) (x : KeyEvent) :
    (a.handle km x).1.line = [] := by
  have empty : (a.attempt km (.ofEvent x)).arbiter.line = [] := by
    have size := size_attempt a km (.ofEvent x)
    rw [Backlog.size, Backlog.size, show a.backlog.records = [] from rested free] at size
    exact List.eq_nil_of_length_eq_zero size
  have accepted : (a.accept km x).1 = (a.attempt km (.ofEvent x)).arbiter := by
    simp only [accept, waiting_of_free km _ free]
  have records : (a.accept km x).1.backlog.records = [] := accepted ▸ empty
  have stuck : (a.accept km x).1.advance? km = none := by
    simp only [advance?, records]
  show ((a.accept km x).1.drain km).1.line = []
  rw [drain_of_stuck stuck]
  exact records

/-- The press `c` became undecided when `e` came after `pre`: what was undecided before has been
settled then. It has not been settled since, while `mid` came. -/
structure IsStart (km : Keymap) (first : Arbiter) (c : KeyEvent) (pre : List KeyEvent) (e : KeyEvent)
    (mid : List KeyEvent) : Prop where
  settled : ∀ d, (first.run km pre).1.undecided? = some d →
    Settles d.event ((first.run km pre).1.handle km e).2
  undecided : ∃ d, (first.run km (pre ++ [e])).1.undecided? = some d ∧ d.event = c
  unsettled : ¬ Settles c ((first.run km (pre ++ [e])).1.run km mid).2

/-- A candidate that is undecided after an event, and was not so before. -/
theorem isStart_of_new {first : Arbiter} {es : List KeyEvent}
    (undecided : (first.run km (es ++ [x])).1.undecided? = some c)
    (settled : ∀ d, (first.run km es).1.undecided? = some d →
      Settles d.event ((first.run km es).1.handle km x).2) :
    IsStart km first c.event es x [] where
  settled := settled
  undecided := ⟨c, undecided, rfl⟩
  unsettled := by
    rintro (lost | ⟨d, hd, -⟩)
    · cases lost
    · cases hd

/-- An undecided candidate that no event has settled since has the same start. -/
theorem IsStart.concat {first : Arbiter} {pre mid : List KeyEvent} (h : IsStart km first x pre e mid)
    (y : KeyEvent) (unsettled : ¬ Settles x ((first.run km (pre ++ e :: mid)).1.handle km y).2) :
    IsStart km first x pre e (mid ++ [y]) where
  settled := h.settled
  undecided := h.undecided
  unsettled := by
    have split : pre ++ e :: mid = (pre ++ [e]) ++ mid := by simp
    rw [split, run_append] at unsettled
    rw [run_concat]
    rintro (lost | ⟨d, hd, same⟩)
    · rcases List.mem_append.mp lost with early | late
      · exact h.unsettled (Or.inl early)
      · exact unsettled (Or.inl late)
    · rcases List.mem_append.mp hd with early | late
      · exact h.unsettled (Or.inr ⟨d, early, same⟩)
      · exact unsettled (Or.inr ⟨d, late, same⟩)

theorem exists_isStart {first : Arbiter} (rested : first.Rested) (free : first.undecided? = none)
    (real : RealHeld first) (es : List KeyEvent)
    (undecided : (first.run km es).1.undecided? = some c) :
    ∃ pre e mid, es = pre ++ e :: mid ∧ IsStart km first c.event pre e mid ∧
      (∀ p r, IsTyped c.event.key (first.run km es).1.line p r →
        IsTyped c.event.key (first.run km (pre ++ [e])).1.line p r) ∧
      ((first.run km pre).1.undecided? = none → (first.run km (pre ++ [e])).1.line = []) := by
  -- by induction on the last event: the candidate is a new one unless it was there before and has
  -- not been settled since
  induction es using List.reverseRecOn generalizing c with
  | nil => cases free.symm.trans undecided
  | append_singleton es x ih =>
    have rested' : (first.run km es).1.Rested := rested_run rested es
    cases before : (first.run km es).1.undecided? with
    | none =>
      refine ⟨es, x, [], rfl, isStart_of_new undecided fun d hd => ?_, fun p r typed => typed,
        fun _ => ?_⟩
      · cases before.symm.trans hd
      · rw [run_concat]
        exact line_handle_of_free rested' before x
    | some d =>
      have realD : d.isTick = false :=
        realHeld_run rested real es _ (candidate_mem_heldEvents (of_undecided? before).1)
      by_cases settled : Settles d.event ((first.run km es).1.handle km x).2
      · refine ⟨es, x, [], rfl, isStart_of_new undecided fun y hy => ?_, fun p r typed => typed,
          fun none => ?_⟩
        · obtain rfl := Option.some.inj (before.symm.trans hy)
          exact settled
        · cases before.symm.trans none
      -- the candidate before is still the candidate
      obtain ⟨⟨y, hy, same⟩, typed⟩ := (remains_handle rested' x before realD).resolve_left settled
      rw [run_concat] at undecided ⊢
      obtain rfl := Option.some.inj (hy.symm.trans undecided)
      obtain ⟨pre, e, mid, rfl, start, earlier, alone⟩ := ih before
      rw [same]
      exact ⟨pre, e, mid ++ [x], by simp, start.concat x settled,
        fun p r late => earlier p r (typed p r late), alone⟩

/-- Without extensions: whenever a candidate is undecided, every other key of which a press and a
later release are in line was typed before the candidate was started, and if the candidate was
started while none was undecided, there is no such key. -/
theorem exists_start_of_undecided (km : Keymap) (settings : Settings) (layer : LayerNumber)
    (capacity : Nat) (es : List KeyEvent)
    (undecided : ((start settings layer capacity).run km es).1.undecided? = some c) :
    let first := start settings layer capacity
    let last := (first.run km es).1
    (∃ pre e mid, es = pre ++ e :: mid ∧ IsStart km first c.event pre e mid ∧
      (∀ p r, IsTyped c.event.key last.line p r →
        IsTyped c.event.key (first.run km (pre ++ [e])).1.line p r) ∧
      ((first.run km pre).1.undecided? = none → ∀ p r, ¬ IsTyped c.event.key last.line p r)) ∧
    ∀ (η : Type) [Host η] (host : η),
      es.foldl (fun kb e => kb.process km e)
          (Keyboard.start settings layer capacity host NoHooks.none) =
        ⟨last, (Outlet.mk host NoHooks.none []).emitAll (first.run km es).2⟩ := by
  intro first last
  refine ⟨?_, fun η _ host => Keyboard.foldl_process _ km es rfl⟩
  have rested : first.Rested := fun _ => rfl
  have real : RealHeld first := fun _ h => by cases h
  obtain ⟨pre, e, mid, split, start, typed, alone⟩ := exists_isStart rested rfl real es undecided
  refine ⟨pre, e, mid, split, start, typed, fun free p r late => ?_⟩
  have inLine := (typed p r late).inLine
  rw [alone free] at inLine
  cases inLine

/-- A layer key is held down, and a key is pressed under it: both wait, and nothing is typed. -/
theorem exists_start_of_layered_run :
    let km := Keymap.ofKeys fun key => if key = ⟨0, 0⟩ then 0x812c else 0x0004
    let es : List KeyEvent := [⟨⟨0, 0⟩, true, ⟨10⟩⟩, ⟨⟨0, 1⟩, true, ⟨20⟩⟩]
    let first := start .standard 0 8
    let c : Record := ⟨⟨⟨0, 0⟩, true, ⟨10⟩⟩, ⟨0, true⟩⟩
    (first.run km es).1.undecided? = some c ∧
      ∃ pre e mid, es = pre ++ e :: mid ∧ IsStart km first c.event pre e mid := by
  intro km es first c
  have undecided : (first.run km es).1.undecided? = some c := by decide +kernel
  obtain ⟨⟨pre, e, mid, split, start, -⟩, -⟩ :=
    exists_start_of_undecided km .standard 0 8 es undecided
  exact ⟨undecided, pre, e, mid, split, start⟩

/-- Two layer keys are held down, and a key is typed under them. The first is a hold now, and the
second is undecided still, although the press and the release of the other key wait behind it. -/
theorem isTyped_of_nested_run :
    let km := Keymap.ofKeys fun key =>
      if key = ⟨0, 0⟩ then 0x812c else if key = ⟨0, 1⟩ then 0x822c else 0x0004
    let es : List KeyEvent :=
      [⟨⟨0, 0⟩, true, ⟨0⟩⟩, ⟨⟨0, 1⟩, true, ⟨10⟩⟩, ⟨⟨0, 2⟩, true, ⟨20⟩⟩, ⟨⟨0, 2⟩, false, ⟨30⟩⟩]
    let last := ((start .standard 0 8).run km es).1
    inTurn allUp es = true ∧ timely km (start .standard 0 8) es = true ∧
      last.undecided?.map Record.event = some ⟨⟨0, 1⟩, true, ⟨10⟩⟩ ∧
      IsTyped ⟨0, 1⟩ last.line (.ofEvent ⟨⟨0, 2⟩, true, ⟨20⟩⟩) (.ofEvent ⟨⟨0, 2⟩, false, ⟨30⟩⟩) := by
  intro km es last
  refine ⟨by decide +kernel, by decide +kernel, by decide +kernel, ?_⟩
  exact ⟨by decide +kernel, rfl, by decide, rfl, rfl⟩

end Arbiter

end TapHold
