import TapHold.Proofs.Arbiter.Dispatch

/-!
# Processing an event is a chain of moves

The attempts at a record are told as moves, first for a record that meets no undecided candidate
(`attempt_free`), then for one that does. `handle_passage` and `handle_tick_moves` put them together
with the draining of the backlog.
-/

set_option autoImplicit false

namespace TapHold

namespace Arbiter

/-- No record waits unless the candidate is undecided. -/
def Rested (a : Arbiter) : Prop := a.undecided? = none → a.line = []

/-- The arbiter without its first waiting record. -/
def dropFront (a : Arbiter) : Arbiter := a.withLine a.line.tail

/-- The record `r` is the first in line before `rest`, or it arrives when the line is empty. -/
def IsFront (a : Arbiter) (r : Record) (rest : List Record) : Prop :=
  a.line = r :: rest ∨ (a.line = [] ∧ rest = [])

variable {km : Keymap} {a : Arbiter} {c r : Record} {rest : List Record}

theorem tail_of_isFront (front : a.IsFront r rest) : a.line.tail = rest := by
  rcases front with h | ⟨h, rfl⟩
  · rw [h]
    rfl
  · rw [h]
    rfl

/-- A record of the first one's key, or a release, is handed over as if the first one had not been
in line. -/
theorem dispatch_isFront (front : a.IsFront r rest) {s : Record} (synthetic : Bool)
    (h : s.event.key = r.event.key ∨ s.event.pressed = false) :
    (a.withLine (r :: rest)).dispatch km s synthetic =
      ⟨(a.dispatch km s synthetic).arbiter.withLine (r :: rest),
        (a.dispatch km s synthetic).record, (a.dispatch km s synthetic).emitted⟩ := by
  rcases front with hl | ⟨hl, rfl⟩
  · rw [← hl, withLine_line, ← line_dispatch a km s synthetic, withLine_line]
  · have joined := dispatch_join a km synthetic
      (show s.event.key = r.event.key ∨ s.event.pressed = false ∨ r.event.pressed = false by
        rcases h with same | up
        · exact Or.inl same
        · exact Or.inr (Or.inl up))
    rw [hl] at joined
    exact joined

/-! ## Records that meet no undecided candidate -/

theorem pass_move (front : a.IsFront r rest) (free : a.undecided? = none)
    (plain : r.event.pressed = true → a.isTapHoldKey km r.event.key = false)
    (other : ∀ c, a.candidate = some c → c.event.pressed = true → r.event.pressed = false →
      r.event.key ≠ c.event.key)
    (heard : ∀ c, a.candidate = some c → c.event.pressed = false → r.event.pressed = true →
      c.tap.interrupted = true) :
    Move km (a.withLine (r :: rest)) (a.pass km r).emitted (a.pass km r).arbiter.dropFront := by
  have m : Move km (a.withLine (r :: rest)) _ _ := .pass free rfl plain other heard
  rw [dispatch_isFront front false (Or.inl rfl)] at m
  have same : (a.pass km r).arbiter.line.tail = rest := by
    rw [← tail_of_isFront front]
    exact congrArg List.tail (line_dispatch a km r false)
  rw [dropFront, same]
  exact m

/-- A press is no release of its own key. -/
theorem isTapRelease_of_down (a : Arbiter) (c : Record) (down : r.event.pressed = true) :
    a.isTapRelease c r = false := by
  simp [isTapRelease, down]

theorem any_isFront (front : a.IsFront r rest) (down : r.event.pressed = true) (c : Record) :
    a.line.any (a.isTapRelease c) = rest.any (a.isTapRelease c) := by
  rcases front with h | ⟨h, rfl⟩
  · rw [h, List.any_cons, isTapRelease_of_down a c down, Bool.false_or]
  · rw [h]

theorem adopt_move (front : a.IsFront r rest) (free : a.undecided? = none)
    (down : r.event.pressed = true)
    (single : ∀ c, a.candidate = some c → c.event.pressed = true → c.tap.count ≤ 1) :
    Move km (a.withLine (r :: rest)) (a.adopt km r).emitted (a.adopt km r).arbiter.dropFront := by
  have found : (r.isUndecided && a.backlog.records.any (a.isTapRelease r)) =
      (r.isUndecided && rest.any (a.isTapRelease r)) :=
    congrArg (r.isUndecided && ·) (any_isFront front down r)
  unfold adopt
  by_cases scan : (r.isUndecided && a.backlog.records.any (a.isTapRelease r)) = true
  · rw [if_pos scan]
    rw [found, Bool.and_eq_true] at scan
    have hl : a.line = r :: rest := by
      rcases front with hl | ⟨-, rfl⟩
      · exact hl
      · simp at scan
    have m : Move km a _ _ := .startTap free hl scan.1 single scan.2
    rw [← hl, withLine_line]
    have skip : Backlog.modifyFirstIn (a.isTapRelease r)
        (fun s => { s with tap := (a.dispatchTap km r).record.tap }) (r :: rest) =
          r :: Backlog.modifyFirstIn (a.isTapRelease r)
            (fun s => { s with tap := (a.dispatchTap km r).record.tap }) rest := by
      rw [Backlog.modifyFirstIn, if_neg (by simp [isTapRelease_of_down a r down])]
    have records : (a.dispatchTap km r).arbiter.backlog.records = r :: rest :=
      (line_dispatchTap a km r).trans hl
    have tail : ((a.dispatchTap km r).arbiter.backlog.modifyFirst (a.isTapRelease r)
        (fun s => { s with tap := (a.dispatchTap km r).record.tap })).records.tail =
          Backlog.modifyFirstIn (a.isTapRelease r)
            (fun s => { s with tap := (a.dispatchTap km r).record.tap }) rest := by
      rw [Backlog.modifyFirst, records, skip]
      rfl
    show Move km a _ (withLine _ _)
    rw [show ∀ b : Arbiter, b.line.tail = b.backlog.records.tail from fun _ => rfl, tail]
    exact m
  · rw [if_neg scan]
    rw [found, Bool.not_eq_true] at scan
    have m : Move km (a.withLine (r :: rest)) _ _ := .start free rfl down single scan
    show Move km _ [] (((a.withCandidate (some r))).withLine a.line.tail)
    rw [tail_of_isFront front]
    exact m

theorem adopt_withCandidate (a : Arbiter) (km : Keymap) (x : Option Record) (r : Record) :
    (a.withCandidate x).adopt km r = a.adopt km r := by
  have tapped : (a.withCandidate x).dispatchTap km r = a.dispatchTap km r := by
    simp only [dispatchTap, dispatch_withCandidate]
    rfl
  unfold adopt
  rw [tapped]
  rfl

theorem attemptFree_move (front : a.IsFront r rest) (hc : a.candidate = none) :
    Move km (a.withLine (r :: rest)) (a.attemptFree km r).emitted
      (a.attemptFree km r).arbiter.dropFront := by
  have free := undecided?_of_none hc
  have noCandidate : ∀ c, a.candidate ≠ some c := fun c h => by cases hc.symm.trans h
  unfold attemptFree
  split
  · rename_i tapKey
    rw [Bool.and_eq_true] at tapKey
    exact adopt_move front free tapKey.1 fun c h => absurd h (noCandidate c)
  · rename_i plain
    refine pass_move front free (fun down => ?_) (fun c h => absurd h (noCandidate c))
      fun c h => absurd h (noCandidate c)
    simpa [down] using plain

theorem isFront_withCandidate (front : a.IsFront r rest) (x : Option Record) :
    (a.withCandidate x).IsFront r rest := front

theorem attemptReleased_moves (front : a.IsFront r rest) (hc : a.candidate = some c)
    (up : c.event.pressed = false) :
    Moves km (a.withLine (r :: rest)) (a.attemptReleased km c r).emitted
      (a.attemptReleased km c r).arbiter.dropFront := by
  have free : a.undecided? = none := undecided?_of_decided hc (Record.isUndecided_of_up up)
  have released : ∀ d, a.candidate = some d → d.event.pressed = false := by
    intro d h
    obtain rfl := Option.some.inj (hc.symm.trans h)
    exact up
  have single : ∀ d, a.candidate = some d → d.event.pressed = true → d.tap.count ≤ 1 :=
    fun d h down => absurd down (by simp [released d h])
  unfold attemptReleased
  split
  · -- the term is over, and the record meets no candidate any more
    rename_i late
    have expired : r.event.time.isWithin c.event.time a.term = false := by simpa using late
    have lapsed : Move km (a.withLine (r :: rest)) _ _ := .lapse r.event.time hc up expired
    exact .step lapsed (.single (attemptFree_move (isFront_withCandidate front none) rfl))
  rename_i early
  have inTerm : r.event.time.isWithin c.event.time a.term = true := by simpa using early
  split
  · rename_i ru
    have up' : r.event.pressed = false := by simpa using ru
    refine .single (pass_move front free (fun down => absurd down (by simp [up']))
      (fun d h down => ?_) fun d h _ down => absurd down (by simp [up']))
    exact absurd down (by simp [released d h])
  rename_i rd
  have down : r.event.pressed = true := by simpa using rd
  split
  · rename_i same
    split
    · -- one more tap
      rename_i calm
      simp only [Bool.and_eq_true, Bool.not_eq_true', decide_eq_true_eq] at calm
      have m : Move km (a.withLine (r :: rest)) _ _ :=
        .again hc up calm.2 calm.1 rfl down same inTerm
      rw [dispatch_isFront front (s := { r with tap := c.tap.next }) false (Or.inl rfl)] at m
      refine .single ?_
      rw [dropFront, show ∀ x : Option Record, Arbiter.line { (a.dispatch km { r with tap := c.tap.next }
        false).arbiter with candidate := x } = a.line from fun x => line_dispatch a km _ false,
        tail_of_isFront front]
      exact m
    · exact .single (adopt_move front free down single)
  · split
    · exact .single (adopt_move front free down single)
    · -- a plain key passes, but the next tap of the candidate's key counts from one again
      rename_i notTapKey
      have interrupted : Move km (a.withLine (r :: rest)) _ _ := .interrupt hc (Or.inl up)
      have noUndecided : (a.withCandidate (some c.interrupt)).undecided? = none :=
        undecided?_of_decided rfl (Record.isUndecided_of_up up)
      refine .step interrupted (.single ?_)
      refine pass_move (isFront_withCandidate front (some c.interrupt)) noUndecided
        (fun _ => (Bool.not_eq_true _).mp notTapKey) (fun d h hd ru => ?_) fun d h _ _ => ?_
      · exact absurd ru (by simp [down])
      · exact Option.some.inj h ▸ rfl

theorem attemptTapped_moves (front : a.IsFront r rest) (hc : a.candidate = some c)
    (down : c.event.pressed = true) (pos : 0 < c.tap.count) :
    Moves km (a.withLine (r :: rest)) (a.attemptTapped km c r).emitted
      (a.attemptTapped km c r).arbiter.dropFront := by
  have free : a.undecided? = none :=
    undecided?_of_decided hc (Record.isUndecided_of_pos pos)
  unfold attemptTapped
  split
  · -- the release of the candidate takes part in its tap
    rename_i own
    simp only [Bool.and_eq_true, decide_eq_true_eq, Bool.not_eq_true'] at own
    have m : Move km (a.withLine (r :: rest)) _ _ :=
      .release (r.event.time.isWithin c.event.time a.term) hc down pos rfl own.2 own.1 id
    rw [dispatch_isFront front (s := { r with tap := c.tap }) false (Or.inl rfl)] at m
    refine .single ?_
    rw [dropFront, show (a.releaseTap km c r).arbiter.line = a.line from line_dispatch a km _ false,
      tail_of_isFront front]
    exact m
  rename_i notOwn
  split
  · rename_i tapKey
    rw [Bool.and_eq_true] at tapKey
    unfold displaceTap
    split
    · -- two moves: a release is made for the candidate, and then the press takes its place
      rename_i many
      have m : Move km (a.withLine (r :: rest)) _ _ := .displace r.event.time hc down many
      rw [dispatch_isFront front true (Or.inr rfl)] at m
      have front' : ((a.dispatch km ⟨⟨c.event.key, false, r.event.time⟩, c.tap⟩
          true).arbiter.withCandidate none).IsFront r rest := by
        unfold IsFront
        rw [line_withCandidate, line_dispatch]
        exact front
      have adopted : Move km _ _ _ :=
        adopt_move front' (undecided?_of_none rfl) tapKey.1 fun d h => by cases h
      rw [adopt_withCandidate] at adopted
      exact .step m (.single adopted)
    · rename_i few
      refine .single (adopt_move front free tapKey.1 fun d h hd => ?_)
      obtain rfl := Option.some.inj (hc.symm.trans h)
      exact Nat.le_of_not_lt few
  · rename_i plain
    refine .single (pass_move front free (fun rd => ?_) (fun d h hd ru same => ?_) fun d h du => ?_)
    · simpa [rd] using plain
    · obtain rfl := Option.some.inj (hc.symm.trans h)
      simp [same, ru] at notOwn
    · obtain rfl := Option.some.inj (hc.symm.trans h)
      cases du.symm.trans down

/-- What becomes of a candidate that is not undecided. -/
theorem decided_cases (hc : a.candidate = some c) (free : a.undecided? = none) :
    c.event.pressed = false ∨ (c.event.pressed = true ∧ 0 < c.tap.count) := by
  cases down : c.event.pressed with
  | false => exact Or.inl rfl
  | true =>
    refine Or.inr ⟨rfl, Nat.pos_of_ne_zero fun zero => ?_⟩
    cases free.symm.trans (undecided?_eq_some hc (Record.isUndecided_iff.mpr ⟨down, zero⟩))

/-- A record that meets no undecided candidate is consumed. -/
theorem waiting_of_free (km : Keymap) (r : Record) (free : a.undecided? = none) :
    (a.attempt km r).waiting = none := by
  unfold attempt
  cases hc : a.candidate with
  | none => exact waiting_attemptFree a km r
  | some c =>
    rcases decided_cases hc free with up | ⟨down, pos⟩
    · simp only [up, Bool.not_false, if_true]
      exact waiting_attemptReleased a km c r
    · simp only [down, Bool.not_true, Bool.false_eq_true, if_false, Nat.ne_of_gt pos]
      exact waiting_attemptTapped a km c r

theorem attempt_free (front : a.IsFront r rest) (free : a.undecided? = none) :
    Moves km (a.withLine (r :: rest)) (a.attempt km r).emitted (a.attempt km r).arbiter.dropFront := by
  unfold attempt
  cases hc : a.candidate with
  | none => exact .single (attemptFree_move front hc)
  | some c =>
    rcases decided_cases hc free with up | ⟨down, pos⟩
    · simp only [up, Bool.not_false, if_true]
      exact attemptReleased_moves front hc up
    · simp only [down, Bool.not_true, Bool.false_eq_true, if_false, Nat.ne_of_gt pos]
      exact attemptTapped_moves front hc down pos

/-! ## Records that meet an undecided candidate -/

theorem attempt_undecided (hc : a.candidate = some c) (hu : c.isUndecided = true) :
    a.attempt km r = a.attemptUndecided km c r := by
  obtain ⟨down, zero⟩ := Record.isUndecided_iff.mp hu
  simp [attempt, hc, down, zero]

theorem line_attemptUndecided (a : Arbiter) (km : Keymap) (c r : Record) :
    (a.attemptUndecided km c r).arbiter.line = a.line := by
  unfold attemptUndecided
  repeat' split
  · exact line_dispatch a km c false
  · rfl
  · exact line_dispatchTap a km c
  · rfl
  · exact line_dispatch a km c false
  · rfl
  · exact line_dispatch a km r false

/-- The first in line meets an undecided candidate. -/
theorem attemptUndecided_front (hc : a.candidate = some c) (hu : c.isUndecided = true)
    (hl : a.line = r :: rest) :
    Moves km a (a.attemptUndecided km c r).emitted
      ((a.attemptUndecided km c r).arbiter.withLine
        ((a.attemptUndecided km c r).waiting.toList ++ rest)) := by
  have zero := (Record.isUndecided_iff.mp hu).2
  have held : Moves km a (a.settleHold km c r).emitted
      ((a.settleHold km c r).arbiter.withLine ((a.settleHold km c r).waiting.toList ++ rest)) := by
    have same : (a.settleHold km c r).arbiter.line = r :: rest := (line_dispatch a km c false).trans hl
    show Moves km a _ (withLine _ (r :: rest))
    rw [← same, withLine_line]
    exact .single (.hold hc hu)
  have stays : a.withLine ([r] ++ rest) = a := by
    rw [List.singleton_append, ← hl, withLine_line]
  unfold attemptUndecided
  split
  · exact held
  rename_i inTerm
  have within : r.event.time.isWithin c.event.time a.term = true := by simpa using inTerm
  split
  · have interrupted : Move km a _ _ := .interrupt hc (Or.inr zero)
    rw [← stays] at interrupted
    exact .single (stays ▸ interrupted)
  rename_i rd
  have up : r.event.pressed = false := by simpa using rd
  split
  · rename_i same
    exact .single (.tap hc hu hl (by simp [isTapRelease, same, up, within]))
  rename_i other
  split
  · show Moves km a [] (a.withLine ([r] ++ rest))
    rw [stays]
    exact .refl a
  split
  · exact held
  rename_i untyped
  split
  · show Moves km a [] (a.withLine ([r] ++ rest))
    rw [stays]
    exact .refl a
  · have first : a.line = [] ++ r :: rest := hl
    exact .single (.overtake hc hu first up other (by simpa using untyped))

/-- The event `e` comes: moves, its arrival, and moves again. -/
def Passage (km : Keymap) (e : KeyEvent) (a : Arbiter) (out : List Emission) (b : Arbiter) : Prop :=
  ∃ (a₁ a₂ : Arbiter) (out₁ out₂ out₃ : List Emission), Moves km a out₁ a₁ ∧
    Arrival km e a₁ out₂ a₂ ∧ Moves km a₂ out₃ b ∧ out = out₁ ++ (out₂ ++ out₃)

theorem Passage.then {e : KeyEvent} {b d : Arbiter} {out out' : List Emission}
    (p : Passage km e a out b) (m : Moves km b out' d) : Passage km e a (out ++ out') d := by
  obtain ⟨a₁, a₂, out₁, out₂, out₃, before, arrival, after, rfl⟩ := p
  refine ⟨a₁, a₂, out₁, out₂, out₃ ++ out', before, arrival, after.trans m, ?_⟩
  simp only [List.append_assoc]

/-- The undecided candidate is a hold, and the arriving event joins the line behind it. -/
theorem settleHold_passage (hc : a.candidate = some c) (hu : c.isUndecided = true) (e : KeyEvent) :
    Passage km e a (a.settleHold km c (.ofEvent e)).emitted
      ((a.settleHold km c (.ofEvent e)).arbiter.withLine
        ((a.settleHold km c (.ofEvent e)).arbiter.line ++
          (a.settleHold km c (.ofEvent e)).waiting.toList)) := by
  refine ⟨_, _, _, [], [], .single (.hold hc hu),
    .join (fun d h => ?_) (fun d h => ?_) (fun d h => ?_), .refl _, ?_⟩
  · cases (undecided?_of_none rfl).symm.trans h
  · cases h
  · cases (undecided?_of_none rfl).symm.trans h
  · exact (List.append_nil _).symm

/-- Behind an undecided candidate an event joins the line, if it is no release that makes a tap, and
no release of a key whose press waits. -/
theorem Arrival.join_undecided {e : KeyEvent} (hc : a.candidate = some c)
    (hu : c.isUndecided = true) (loose : a.isTapRelease c (.ofEvent e) = false)
    (untyped : e.pressed = false → a.backlog.hasOpposite e = false) :
    Arrival km e a [] (a.withLine (a.line ++ [.ofEvent e])) := by
  refine .join (fun d h => ?_) (fun d h decided => ?_) (fun _ _ => untyped)
  · obtain rfl := Option.some.inj ((of_undecided? h).1.symm.trans hc)
    exact loose
  · obtain rfl := Option.some.inj (hc.symm.trans h)
    cases hu.symm.trans decided

/-- The release of a key that was pressed before the undecided candidate leaves the line at once. -/
theorem pass_moves_of_joined {e : KeyEvent} (hc : a.candidate = some c) (hu : c.isUndecided = true)
    (up : e.pressed = false) (other : e.key ≠ c.event.key)
    (untyped : a.backlog.hasOpposite e = false) :
    Moves km (a.withLine (a.line ++ [.ofEvent e])) (a.pass km (.ofEvent e)).emitted
      (a.pass km (.ofEvent e)).arbiter := by
  -- the event is not opposite to itself
  have untyped' : (a.withLine (a.line ++ [.ofEvent e])).backlog.hasOpposite e = false := by
    have before : a.line.any (fun s => s.event.key == e.key && s.event.pressed != e.pressed) =
        false := untyped
    show (a.line ++ [Record.ofEvent e]).any _ = false
    rw [List.any_append, before]
    simp
  have last : (a.withLine (a.line ++ [.ofEvent e])).line = a.line ++ .ofEvent e :: [] := rfl
  have m : Move km (a.withLine (a.line ++ [.ofEvent e])) _ _ :=
    .overtake hc hu last up other untyped'
  rw [dispatch_join a km false (Or.inl rfl), List.append_nil] at m
  show Moves km _ _ (a.dispatch km (.ofEvent e) false).arbiter
  rw [← withLine_line (a.dispatch km (.ofEvent e) false).arbiter, line_dispatch]
  exact .single m

/-- An arriving event meets an undecided candidate. -/
theorem attemptUndecided_passage {e : KeyEvent} (hc : a.candidate = some c)
    (hu : c.isUndecided = true) (real : e.isTick = false) :
    Passage km e a (a.attemptUndecided km c (.ofEvent e)).emitted
      ((a.attemptUndecided km c (.ofEvent e)).arbiter.withLine
        ((a.attemptUndecided km c (.ofEvent e)).arbiter.line ++
          (a.attemptUndecided km c (.ofEvent e)).waiting.toList)) := by
  have zero := (Record.isUndecided_iff.mp hu).2
  have held : Passage km e a (a.settleHold km c (.ofEvent e)).emitted _ :=
    settleHold_passage hc hu e
  unfold attemptUndecided
  split
  · exact held
  rename_i inTerm
  have within : e.time.isWithin c.event.time a.term = true := by simpa using inTerm
  split
  · rename_i down
    have joins : Arrival km e (a.withCandidate (some c.interrupt)) [] _ :=
      .join_undecided rfl hu (isTapRelease_of_down _ c.interrupt down)
        fun up => by cases up.symm.trans down
    exact ⟨_, _, [], [], [], .single (.interrupt hc (Or.inr zero)), joins, .refl _, rfl⟩
  rename_i notDown
  have up : e.pressed = false := by simpa using notDown
  split
  · rename_i same
    refine ⟨a, _, [], _, [], .refl a, .tap hc hu ?_, ?_, (List.append_nil _).symm⟩
    · have key : e.key = c.event.key := same
      simp [isTapRelease, Record.ofEvent, key, up, within]
    · show Moves km _ [] (withLine _ ((a.dispatchTap km c).arbiter.line ++ _))
      rw [line_dispatchTap]
      exact .refl _
  rename_i notSame
  have other : e.key ≠ c.event.key := notSame
  have loose : a.isTapRelease c (.ofEvent e) = false := by
    simp [isTapRelease, Record.ofEvent, other]
  split
  · rename_i tick
    exact absurd tick (by simp [Record.isTick, Record.ofEvent, real])
  split
  · exact held
  rename_i notTyped
  have untyped : a.backlog.hasOpposite e = false := (Bool.not_eq_true _).mp notTyped
  have joins : Arrival km e a [] _ := .join_undecided hc hu loose fun _ => untyped
  split
  · exact ⟨a, _, [], [], [], .refl a, joins, .refl _, rfl⟩
  · refine ⟨a, _, [], [], _, .refl a, joins, ?_, rfl⟩
    show Moves km _ _ (withLine _ ((a.pass km (.ofEvent e)).arbiter.line ++ []))
    rw [List.append_nil, withLine_line]
    exact pass_moves_of_joined hc hu up other untyped

/-! ## Ticks -/

theorem isTapHoldKey_of_tick (a : Arbiter) (km : Keymap) (tick : r.isTick = true) :
    a.isTapHoldKey km r.event.key = false := by
  have nowhere : r.event.key.isNowhere = true := tick
  simp [isTapHoldKey, Interpreter.isTapHoldKey, nowhere]

theorem pass_tick (a : Arbiter) (km : Keymap) (tick : r.isTick = true) :
    a.pass km r = ⟨a, none, []⟩ := by
  simp only [pass, dispatch_of_tick a km tick]

theorem attemptFree_tick (a : Arbiter) (km : Keymap) (tick : r.isTick = true) :
    a.attemptFree km r = ⟨a, none, []⟩ := by
  unfold attemptFree
  rw [isTapHoldKey_of_tick a km tick, Bool.and_false, if_neg Bool.false_ne_true]
  exact pass_tick a km tick

/-- A tick moves the candidate along, and it never becomes another record. -/
theorem attempt_tick (tick : r.isTick = true) (real : ∀ c, a.candidate = some c → c.isTick = false) :
    ((a.attempt km r).waiting = none ∨ (a.attempt km r).waiting = some r) ∧
      Moves km a (a.attempt km r).emitted (a.attempt km r).arbiter := by
  have foreign : ∀ c, a.candidate = some c → r.event.key ≠ c.event.key := by
    intro c hc same
    have tick' : c.isTick = true := by
      rw [Record.isTick, KeyEvent.isTick, ← same]
      exact tick
    exact absurd tick' (by simp [real c hc])
  have noTap := isTapHoldKey_of_tick a km tick
  unfold attempt
  split
  · rw [attemptFree_tick a km tick]
    exact ⟨Or.inl rfl, .refl a⟩
  rename_i c hc
  split
  · rename_i notDown
    have up : c.event.pressed = false := by simpa using notDown
    refine ⟨Or.inl (waiting_attemptReleased a km c r), ?_⟩
    unfold attemptReleased
    split
    · rename_i late
      rw [attemptFree_tick _ km tick]
      exact .single (.lapse r.event.time hc up (by simpa using late))
    split
    · rw [pass_tick a km tick]
      exact .refl a
    rw [if_neg (foreign c hc), if_neg (by simp [noTap]), pass_tick _ km tick]
    exact .single (.interrupt hc (Or.inl up))
  rename_i notUp
  have down : c.event.pressed = true := by simpa using notUp
  split
  · rename_i zero
    unfold attemptUndecided
    split
    · exact ⟨Or.inr rfl, .single (.hold hc (Record.isUndecided_iff.mpr ⟨down, zero⟩))⟩
    split
    · exact ⟨Or.inr rfl, .single (.interrupt hc (Or.inr zero))⟩
    rw [if_neg (foreign c hc)]
    exact ⟨Or.inr rfl, .refl a⟩
  · refine ⟨Or.inl (waiting_attemptTapped a km c r), ?_⟩
    unfold attemptTapped
    rw [if_neg (by simp [foreign c hc]), if_neg (by simp [noTap]), pass_tick a km tick]
    exact .refl a

/-! ## Processing an event -/

/-- An advance tries the first in line, which is consumed, or goes back to the front with another
candidate. -/
theorem advance?_cases {b : Arbiter} {out : List Emission} (h : a.advance? km = some (b, out)) :
    ∃ r rest, a.line = r :: rest ∧ out = (a.attempt km r).emitted ∧
      (((a.attempt km r).waiting = none ∧ b = (a.attempt km r).arbiter.dropFront) ∨
        ∃ s, (a.attempt km r).waiting = some s ∧ (a.attempt km r).arbiter.candidate ≠ a.candidate ∧
          b = (a.attempt km r).arbiter.withLine (s :: rest)) := by
  unfold advance? at h
  split at h
  · cases h
  rename_i r rest records
  refine ⟨r, rest, records, ?_⟩
  dsimp only at h
  split at h
  · rename_i consumed
    obtain ⟨rfl, rfl⟩ := Prod.mk.inj (Option.some.inj h)
    exact ⟨rfl, Or.inl ⟨consumed, rfl⟩⟩
  rename_i s waits
  split at h
  · cases h
  rename_i changed
  obtain ⟨rfl, rfl⟩ := Prod.mk.inj (Option.some.inj h)
  refine ⟨rfl, Or.inr ⟨s, waits, changed, ?_⟩⟩
  -- a record that waits has met an undecided candidate, and the line is as it was
  have line : (a.attempt km r).arbiter.backlog.records = r :: rest := by
    cases free : a.undecided? with
    | none => cases (waiting_of_free km r free).symm.trans waits
    | some c =>
      obtain ⟨hc, hu⟩ := of_undecided? free
      rw [attempt_undecided hc hu]
      exact (line_attemptUndecided a km c r).trans records
  rw [Backlog.setFront, line]
  rfl

theorem advance?_moves {b : Arbiter} {out : List Emission} (h : a.advance? km = some (b, out)) :
    Moves km a out b := by
  obtain ⟨r, rest, hl, rfl, result⟩ := advance?_cases h
  cases free : a.undecided? with
  | none =>
    have chain : Moves km (a.withLine (r :: rest)) _ _ := attempt_free (Or.inl hl) free
    rw [← hl, withLine_line] at chain
    rcases result with ⟨-, rfl⟩ | ⟨s, waits, -⟩
    · exact chain
    · cases (waiting_of_free km r free).symm.trans waits
  | some c =>
    obtain ⟨hc, hu⟩ := of_undecided? free
    have chain : Moves km a _ _ := attemptUndecided_front hc hu hl
    rw [← attempt_undecided hc hu] at chain
    rcases result with ⟨consumed, rfl⟩ | ⟨s, waits, -, rfl⟩
    · rw [consumed] at chain
      rw [dropFront, attempt_undecided hc hu, line_attemptUndecided, hl, ← attempt_undecided hc hu]
      exact chain
    · rw [waits] at chain
      exact chain

theorem drain_moves (a : Arbiter) (km : Keymap) : Moves km a (a.drain km).2 (a.drain km).1 := by
  fun_induction drain a km with
  | case1 a stuck => exact .refl a
  | case2 a b out advanced less rest ih => exact (advance?_moves advanced).trans ih

/-- Draining stops at a record that waits for the candidate. -/
theorem rested_drain (a : Arbiter) (km : Keymap) : (a.drain km).1.Rested := by
  fun_induction drain a km with
  | case1 a stuck =>
    intro free
    cases hl : a.line with
    | nil => rfl
    | cons r rest =>
      have records : a.backlog.records = r :: rest := hl
      simp [advance?, records, waiting_of_free km r free] at stuck
  | case2 a b out advanced less rest ih => exact ih

/-- With room for it, a record that has to wait joins the line. -/
theorem postpone_of_room (real : r.isTick = false) (room : a.line.length < a.backlog.capacity) :
    a.postpone r = (a.withLine (a.line ++ [r]), []) := by
  have short : a.backlog.records.length < a.backlog.capacity := room
  simp only [postpone, Backlog.push?, real, Bool.false_eq_true, if_false, if_pos short]
  rfl

/-- A full backlog takes no more. -/
theorem postpone_of_full (real : r.isTick = false) (full : a.backlog.capacity ≤ a.backlog.size) :
    a.postpone r = (a.forget, [.overflow]) := by
  have noRoom : ¬a.backlog.records.length < a.backlog.capacity := Nat.not_lt_of_le full
  simp only [postpone, Backlog.push?, real, Bool.false_eq_true, if_false, if_neg noRoom]

theorem postpone_real (a : Arbiter) (real : r.isTick = false) :
    a.postpone r = (a.withLine (a.line ++ [r]), []) ∨ a.postpone r = (a.forget, [.overflow]) := by
  rcases Nat.lt_or_ge a.backlog.size a.backlog.capacity with room | full
  · exact Or.inl (postpone_of_room real room)
  · exact Or.inr (postpone_of_full real full)

theorem postpone_tick (a : Arbiter) (tick : r.isTick = true) : a.postpone r = (a, []) := by
  simp only [postpone, Backlog.push?, tick, if_true]

/-- A record that waits is the one that was tried, but perhaps for its tap. -/
theorem event_waiting {s : Record} (waits : (a.attempt km r).waiting = some s) :
    s.event = r.event := by
  cases free : a.undecided? with
  | none => cases (waiting_of_free km r free).symm.trans waits
  | some c =>
    obtain ⟨hc, hu⟩ := of_undecided? free
    rw [attempt_undecided hc hu] at waits
    unfold attemptUndecided at waits
    repeat' split at waits
    all_goals cases waits
    all_goals rfl

/-- A tick that is accepted does not join the line. -/
theorem accept_of_tick {e : KeyEvent} (tick : e.isTick = true)
    (real : ∀ c, a.candidate = some c → c.isTick = false) :
    a.accept km e =
      ((a.attempt km (.ofEvent e)).arbiter, (a.attempt km (.ofEvent e)).emitted) := by
  have tried : (a.attempt km (.ofEvent e)).waiting = none ∨ _ :=
    (attempt_tick (r := .ofEvent e) tick real).1
  unfold accept
  rcases tried with consumed | waits
  · simp only [consumed]
  · simp only [waits, postpone_tick (r := .ofEvent e) _ tick, List.append_nil]

/-- Accepting a tick is a chain of moves. -/
theorem accept_tick_moves {e : KeyEvent} (tick : e.isTick = true)
    (real : ∀ c, a.candidate = some c → c.isTick = false) :
    Moves km a (a.accept km e).2 (a.accept km e).1 := by
  rw [accept_of_tick tick real]
  exact (attempt_tick (r := .ofEvent e) tick real).2

/-- An event that is accepted joins the line if it has to wait, or everything is lost. -/
theorem accept_of_real (a : Arbiter) (km : Keymap) {e : KeyEvent} (real : e.isTick = false) :
    let tried := a.attempt km (.ofEvent e)
    let joined := tried.arbiter.withLine (tried.arbiter.line ++ tried.waiting.toList)
    a.accept km e = (joined, tried.emitted) ∨
      a.accept km e = (joined.forget, tried.emitted ++ [.overflow]) := by
  intro tried joined
  unfold accept
  dsimp only
  split
  · rename_i consumed
    have same : joined = tried.arbiter := by
      show tried.arbiter.withLine (_ ++ (a.attempt km (.ofEvent e)).waiting.toList) = _
      rw [consumed, Option.toList_none, List.append_nil, withLine_line]
    exact Or.inl (congrArg (·, tried.emitted) same.symm)
  · rename_i s waits
    have realS : s.isTick = false := by
      rw [Record.isTick, event_waiting waits]
      exact real
    have behind : joined = tried.arbiter.withLine (tried.arbiter.line ++ [s]) := by
      show tried.arbiter.withLine (_ ++ (a.attempt km (.ofEvent e)).waiting.toList) = _
      rw [waits]
      rfl
    rw [behind]
    rcases postpone_real tried.arbiter realS with kept | lost
    · rw [kept, List.append_nil]
      exact Or.inl rfl
    · rw [lost]
      exact Or.inr rfl

/-- The attempt at an arriving event is a passage of the event, which joins the line if it has to
wait. -/
theorem attempt_passage {e : KeyEvent} (rested : a.Rested) (real : e.isTick = false) :
    Passage km e a (a.attempt km (.ofEvent e)).emitted
      ((a.attempt km (.ofEvent e)).arbiter.withLine
        ((a.attempt km (.ofEvent e)).arbiter.line ++
          (a.attempt km (.ofEvent e)).waiting.toList)) := by
  cases free : a.undecided? with
  | none =>
    have empty := rested free
    have chain : Moves km (a.withLine [.ofEvent e]) _ _ :=
      attempt_free (Or.inr ⟨empty, rfl⟩) free
    have line : (a.attempt km (.ofEvent e)).arbiter.line = [] := by
      have size := size_attempt a km (.ofEvent e)
      rw [Backlog.size, Backlog.size, show a.backlog.records = [] from empty] at size
      exact List.eq_nil_of_length_eq_zero size
    rw [waiting_of_free km _ free, line]
    rw [dropFront, line] at chain
    refine ⟨a, _, [], [], _, .refl a,
      .join (fun d h => ?_) (fun _ _ _ => empty) (fun d h => ?_), ?_, rfl⟩
    · cases free.symm.trans h
    · cases free.symm.trans h
    rw [empty]
    exact chain
  | some c =>
    obtain ⟨hc, hu⟩ := of_undecided? free
    rw [attempt_undecided hc hu]
    exact attemptUndecided_passage hc hu real

/-- Accepting an event is a passage of the event. -/
theorem accept_passage {e : KeyEvent} (rested : a.Rested) (real : e.isTick = false) :
    Passage km e a (a.accept km e).2 (a.accept km e).1 := by
  have passage : Passage km e a (a.attempt km (.ofEvent e)).emitted _ :=
    attempt_passage rested real
  rcases accept_of_real a km real with kept | lost
  · rw [kept]
    exact passage
  · rw [lost]
    exact passage.then (.single .overflow)

/-- Processing an event is a passage of the event. -/
theorem handle_passage {e : KeyEvent} (rested : a.Rested) (real : e.isTick = false) :
    Passage km e a (a.handle km e).2 (a.handle km e).1 :=
  (accept_passage rested real).then (drain_moves _ km)

/-- Processing a tick is a chain of moves. -/
theorem handle_tick_moves {e : KeyEvent} (tick : e.isTick = true)
    (real : ∀ c, a.candidate = some c → c.isTick = false) :
    Moves km a (a.handle km e).2 (a.handle km e).1 :=
  (accept_tick_moves tick real).trans (drain_moves _ km)

theorem rested_handle (a : Arbiter) (km : Keymap) (e : KeyEvent) : (a.handle km e).1.Rested :=
  rested_drain _ km

/-- Processing an event changes nothing that is fixed. -/
theorem fixed_handle {e : KeyEvent} (rested : a.Rested)
    (real : ∀ c, a.candidate = some c → c.isTick = false) :
    (a.handle km e).1.interpreter.fixed = a.interpreter.fixed := by
  have moves {b d : Arbiter} {out : List Emission} (m : Moves km b out d) :
      d.interpreter.fixed = b.interpreter.fixed :=
    m.keep (p := fun x => x.interpreter.fixed = b.interpreter.fixed)
      (fun m same => (fixed_move m).trans same) rfl
  cases tick : e.isTick with
  | true => exact moves (handle_tick_moves tick real)
  | false =>
    have passage : Passage km e a (a.handle km e).2 (a.handle km e).1 := handle_passage rested tick
    obtain ⟨_, _, _, _, _, before, arrival, after, -⟩ := passage
    exact (moves after).trans ((fixed_arrival arrival).trans (moves before))

end Arbiter

end TapHold
