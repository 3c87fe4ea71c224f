import TapHold.Arbiter.Drain
import TapHold.Proofs.Interpreter.Later

/-!
# Decisions at a later time

Two arbiters of which the second remembers the same as the first, but for all times being `k`
milliseconds later (`Arbiter.Later`), decide alike on the same event `k` milliseconds later
(`later_handle`): a record is held against the candidate by the time between them, and nothing else
is asked about a time. What they emit is the same but for the times of the records.
-/

set_option autoImplicit false

namespace TapHold

/-- The same record, handed over `k` milliseconds later. -/
def Dispatched.later (k : Word) (d : Dispatched) : Dispatched :=
  ⟨d.given.later k, d.settled.later k, d.effect.later k, d.synthetic⟩

/-- The same emission `k` milliseconds later. -/
def Emission.later (k : Word) : Emission → Emission
  | .dispatched d => .dispatched (d.later k)
  | .overflow => .overflow

namespace Arbiter

/-- The second arbiter remembers what the first one does, `k` milliseconds later. -/
structure Later (k : Word) (a b : Arbiter) : Prop where
  interpreter : a.interpreter.Alike b.interpreter
  backlog : b.backlog = a.backlog.map (Record.later k)
  candidate : b.candidate = a.candidate.map (Record.later k)

end Arbiter

/-- The second handover is the first one `k` milliseconds later. -/
structure Handover.Later (k : Word) (x y : Handover) : Prop where
  arbiter : x.arbiter.Later k y.arbiter
  record : y.record = x.record.later k
  emitted : y.emitted = x.emitted.map (Emission.later k)

theorem Handover.Later.tap {k : Word} {x y : Handover} (h : x.Later k y) :
    y.record.tap = x.record.tap := by
  rw [h.record, Record.tap_later]

/-- The second attempt is the first one `k` milliseconds later. -/
structure Attempt.Later (k : Word) (x y : Attempt) : Prop where
  arbiter : x.arbiter.Later k y.arbiter
  waiting : y.waiting = x.waiting.map (Record.later k)
  emitted : y.emitted = x.emitted.map (Emission.later k)

namespace Arbiter

variable {k : Word} {a b : Arbiter}

/-! ## What is read off -/

theorem Later.term (h : a.Later k b) : b.term = a.term :=
  congrArg Settings.term h.interpreter.settings

theorem Later.isTapHoldKey (h : a.Later k b) (km : Keymap) (key : Position) :
    b.isTapHoldKey km key = a.isTapHoldKey km key := h.interpreter.isTapHoldKey km key

/-- A record comes within the term of another one, or not, whenever both come. -/
theorem Later.isWithin (h : a.Later k b) (r c : Record) :
    (r.later k).event.time.isWithin (c.later k).event.time b.term =
      r.event.time.isWithin c.event.time a.term := by
  rw [h.term]
  exact KeyEvent.isWithin_later k r.event c.event a.term

theorem Later.isTapRelease (h : a.Later k b) (c r : Record) :
    b.isTapRelease (c.later k) (r.later k) = a.isTapRelease c r :=
  congrArg (r.event.key == c.event.key && !r.event.pressed && ·) (h.isWithin r c)

theorem Later.hasOtherPress (h : a.Later k b) (key : Position) :
    b.backlog.hasOtherPress key = a.backlog.hasOtherPress key := by
  rw [h.backlog, Backlog.hasOtherPress_later]

/-- The release that makes a tap of a press waits in both backlogs or in none. -/
theorem Later.any_isTapRelease (h : a.Later k b) (c : Record) :
    b.backlog.records.any (b.isTapRelease (c.later k)) =
      a.backlog.records.any (a.isTapRelease c) := by
  have same : b.isTapRelease (c.later k) ∘ Record.later k = a.isTapRelease c :=
    funext fun r => h.isTapRelease c r
  rw [h.backlog, Backlog.map, List.any_map, same]

theorem Later.withCandidate (h : a.Later k b) (c : Option Record) :
    Later k { a with candidate := c } { b with candidate := c.map (Record.later k) } :=
  ⟨h.interpreter, h.backlog, rfl⟩

theorem Later.forget (h : a.Later k b) : a.forget.Later k b.forget := by
  refine ⟨h.interpreter, ?_, rfl⟩
  show b.backlog.clear = a.backlog.clear.map (Record.later k)
  rw [h.backlog]
  rfl

theorem Later.reset (h : a.Later k b) : a.reset.Later k b.reset :=
  ⟨h.interpreter.reset, h.forget.backlog, rfl⟩

/-! ## Handing over -/

theorem later_dispatch (h : a.Later k b) (km : Keymap) (r : Record) (synthetic : Bool) :
    (a.dispatch km r synthetic).Later k (b.dispatch km (r.later k) synthetic) := by
  refine related_ite Iff.rfl (fun _ => ?tick) fun _ => ?edge
  case tick => exact ⟨h, rfl, rfl⟩
  case edge =>
    have other : b.backlog.hasOtherPress (r.later k).event.key =
        a.backlog.hasOtherPress r.event.key := h.hasOtherPress r.event.key
    have outcome := Interpreter.later_dispatch k h.interpreter km r
      (a.backlog.hasOtherPress r.event.key)
    rw [other]
    refine ⟨⟨outcome.interpreter, h.backlog, h.candidate⟩, outcome.record, ?_⟩
    simp only [List.map_cons, List.map_nil, Emission.later, Dispatched.later, outcome.record,
      outcome.effect]

theorem later_dispatchTap (h : a.Later k b) (km : Keymap) (c : Record) :
    (a.dispatchTap km c).Later k (b.dispatchTap km (c.later k)) := by
  have tap := later_dispatch h km (c.withCount 1) false
  have candidate : (b.dispatchTap km (c.later k)).arbiter.candidate =
      (a.dispatchTap km c).arbiter.candidate.map (Record.later k) := by
    refine related_ite (R := fun (x y : Option Record) => y = x.map (Record.later k))
      ?_ (fun _ => rfl) fun _ => congrArg some tap.record
    rw [show (c.later k).withCount 1 = (c.withCount 1).later k from rfl, tap.record]
    rfl
  exact ⟨⟨tap.arbiter.interpreter, tap.arbiter.backlog, candidate⟩, tap.record, tap.emitted⟩

/-! ## One attempt -/

theorem later_pass (h : a.Later k b) (km : Keymap) (r : Record) :
    (a.pass km r).Later k (b.pass km (r.later k)) := by
  have handed := later_dispatch h km r false
  exact ⟨handed.arbiter, rfl, handed.emitted⟩

theorem later_adopt (h : a.Later k b) (km : Keymap) (c : Record) :
    (a.adopt km c).Later k (b.adopt km (c.later k)) := by
  refine related_ite (by rw [h.any_isTapRelease]; rfl) (fun _ => ?typed) fun _ => ?candidate
  case typed =>
    -- the waiting release is given the tap of the press, which is the same in both
    have tap := later_dispatchTap h km c
    have backlog := (a.dispatchTap km c).arbiter.backlog.modifyFirst_map (h.isTapRelease c)
      (g := fun r => { r with tap := (a.dispatchTap km c).record.tap })
      (h := fun r => { r with tap := (b.dispatchTap km (c.later k)).record.tap })
      fun r => congrArg (Record.mk (r.event.later k)) tap.tap
    rw [← tap.arbiter.backlog] at backlog
    exact ⟨⟨tap.arbiter.interpreter, backlog, tap.arbiter.candidate⟩, rfl, tap.emitted⟩
  case candidate => exact ⟨h.withCandidate (some c), rfl, rfl⟩

theorem later_attemptFree (h : a.Later k b) (km : Keymap) (r : Record) :
    (a.attemptFree km r).Later k (b.attemptFree km (r.later k)) := by
  refine related_ite (by rw [h.isTapHoldKey]; rfl) (fun _ => ?_) fun _ => ?_
  · exact later_adopt h km r
  · exact later_pass h km r

theorem later_attemptReleased (h : a.Later k b) (km : Keymap) (c r : Record) :
    (a.attemptReleased km c r).Later k (b.attemptReleased km (c.later k) (r.later k)) := by
  refine related_ite (by rw [h.isWithin]) (fun _ => ?late) fun _ =>
    related_ite Iff.rfl (fun _ => ?release) fun _ =>
    related_ite Iff.rfl (fun _ => related_ite Iff.rfl (fun _ => ?again) fun _ => ?first) fun _ =>
    related_ite (by rw [h.isTapHoldKey]; rfl) (fun _ => ?displaced) fun _ => ?interrupted
  case late => exact later_attemptFree (h.withCandidate none) km r
  case release => exact later_pass h km r
  case again =>
    have again := later_dispatch h km { r with tap := c.tap.next } false
    exact ⟨⟨again.arbiter.interpreter, again.arbiter.backlog, congrArg some again.record⟩, rfl,
      again.emitted⟩
  case first => exact later_adopt h km r
  case displaced => exact later_adopt h km r
  case interrupted => exact later_pass (h.withCandidate (some c.interrupt)) km r

theorem later_settleHold (h : a.Later k b) (km : Keymap) (c r : Record) :
    (a.settleHold km c r).Later k (b.settleHold km (c.later k) (r.later k)) := by
  have hold := later_dispatch h km c false
  exact ⟨hold.arbiter.withCandidate none, rfl, hold.emitted⟩

theorem later_settleTap (h : a.Later k b) (km : Keymap) (c r : Record) :
    (a.settleTap km c r).Later k (b.settleTap km (c.later k) (r.later k)) := by
  have tap := later_dispatchTap h km c
  have waiting := congrArg (Record.mk (r.event.later k)) tap.tap
  exact ⟨tap.arbiter, congrArg some waiting, tap.emitted⟩

theorem later_attemptUndecided (h : a.Later k b) (km : Keymap) (c r : Record) :
    (a.attemptUndecided km c r).Later k (b.attemptUndecided km (c.later k) (r.later k)) := by
  have waits : (Attempt.mk a (some r) []).Later k ⟨b, some (r.later k), []⟩ := ⟨h, rfl, rfl⟩
  have typed : b.backlog.hasOpposite (r.later k).event = a.backlog.hasOpposite r.event := by
    rw [h.backlog]
    exact Backlog.hasOpposite_later k a.backlog r.event
  -- only the first condition looks at a time, and it compares the record with the candidate
  refine related_ite (by rw [h.isWithin]) (fun _ => ?late) fun _ =>
    related_ite Iff.rfl (fun _ => ?press) fun _ =>
    related_ite Iff.rfl (fun _ => ?tap) fun _ =>
    related_ite Iff.rfl (fun _ => ?tick) fun _ =>
    related_ite (by rw [typed]) (fun _ => ?typed) fun _ =>
    related_ite (by rw [h.interpreter.holdsModifier]) (fun _ => ?modifier) fun _ => ?release
  case late => exact later_settleHold h km c r
  case press => exact ⟨h.withCandidate (some c.interrupt), rfl, rfl⟩
  case tap => exact later_settleTap h km c r
  case tick => exact waits
  case typed => exact later_settleHold h km c r
  case modifier => exact waits
  case release => exact later_pass h km r

theorem later_releaseTap (h : a.Later k b) (km : Keymap) (c r : Record) :
    (a.releaseTap km c r).Later k (b.releaseTap km (c.later k) (r.later k)) := by
  have release := later_dispatch h km { r with tap := c.tap } false
  have candidate : (b.releaseTap km (c.later k) (r.later k)).arbiter.candidate =
      (a.releaseTap km c r).arbiter.candidate.map (Record.later k) :=
    related_ite (R := fun (x y : Option Record) => y = x.map (Record.later k))
      (by rw [h.isWithin]) (fun _ => congrArg some release.record) fun _ => rfl
  exact ⟨⟨release.arbiter.interpreter, release.arbiter.backlog, candidate⟩, rfl, release.emitted⟩

theorem later_displaceTap (h : a.Later k b) (km : Keymap) (c r : Record) :
    (a.displaceTap km c r).Later k (b.displaceTap km (c.later k) (r.later k)) := by
  refine related_ite Iff.rfl (fun _ => ?made) fun _ => ?first
  case made =>
    have release := later_dispatch h km ⟨⟨c.event.key, false, r.event.time⟩, c.tap⟩ true
    have adopted := later_adopt release.arbiter km r
    refine ⟨adopted.arbiter, adopted.waiting, ?_⟩
    rw [List.map_append, ← release.emitted, ← adopted.emitted]
    rfl
  case first => exact later_adopt h km r

theorem later_attemptTapped (h : a.Later k b) (km : Keymap) (c r : Record) :
    (a.attemptTapped km c r).Later k (b.attemptTapped km (c.later k) (r.later k)) := by
  refine related_ite Iff.rfl (fun _ => ?release) fun _ =>
    related_ite (by rw [h.isTapHoldKey]; rfl) (fun _ => ?displaced) fun _ => ?pass
  case release => exact later_releaseTap h km c r
  case displaced => exact later_displaceTap h km c r
  case pass => exact later_pass h km r

/-- A record tried later against what the arbiter remembers later. -/
theorem later_attempt (h : a.Later k b) (km : Keymap) (r : Record) :
    (a.attempt km r).Later k (b.attempt km (r.later k)) := by
  unfold attempt
  rw [h.candidate]
  cases a.candidate with
  | none => exact later_attemptFree h km r
  | some c =>
    refine related_ite Iff.rfl (fun _ => ?released) fun _ =>
      related_ite Iff.rfl (fun _ => ?undecided) fun _ => ?tapped
    case released => exact later_attemptReleased h km c r
    case undecided => exact later_attemptUndecided h km c r
    case tapped => exact later_attemptTapped h km c r

/-! ## Processing events -/

/-- The second result is the first one `k` milliseconds later. -/
def LaterResult (k : Word) (x y : Arbiter × List Emission) : Prop :=
  x.1.Later k y.1 ∧ y.2 = x.2.map (Emission.later k)

/-- What was emitted before, emitted later. -/
theorem LaterResult.after {x y : Arbiter × List Emission} {out out' : List Emission}
    (h : LaterResult k x y) (before : out' = out.map (Emission.later k)) :
    LaterResult k (x.1, out ++ x.2) (y.1, out' ++ y.2) :=
  ⟨h.1, by rw [List.map_append, before, h.2]⟩

theorem later_advance? (h : a.Later k b) (km : Keymap) :
    Option.Rel (LaterResult k) (a.advance? km) (b.advance? km) := by
  have records : b.backlog.records = a.backlog.records.map (Record.later k) :=
    congrArg Backlog.records h.backlog
  unfold advance?
  cases waiting : a.backlog.records with
  | nil =>
    rw [waiting] at records
    simp only [records, List.map_nil]
    exact .none
  | cons r rest =>
    rw [waiting] at records
    have tried := later_attempt h km r
    simp only [records, List.map_cons, tried.waiting]
    cases (a.attempt km r).waiting with
    | none =>
      refine .some ⟨⟨tried.arbiter.interpreter, ?_, tried.arbiter.candidate⟩, tried.emitted⟩
      show (b.attempt km (r.later k)).arbiter.backlog.dropFront = _
      rw [tried.arbiter.backlog, Backlog.dropFront_map]
    | some front =>
      -- records that differ still differ later, so the candidate changes in both or in neither
      have unchanged : (b.attempt km (r.later k)).arbiter.candidate = b.candidate ↔
          (a.attempt km r).arbiter.candidate = a.candidate := by
        rw [tried.arbiter.candidate, h.candidate]
        exact (Option.map_injective (Record.later_injective k)).eq_iff
      refine related_ite unchanged (fun _ => .none) fun _ =>
        .some ⟨⟨tried.arbiter.interpreter, ?_, tried.arbiter.candidate⟩, tried.emitted⟩
      show (b.attempt km (r.later k)).arbiter.backlog.setFront (front.later k) = _
      rw [tried.arbiter.backlog, Backlog.setFront_map]

theorem later_drain (h : a.Later k b) (km : Keymap) :
    LaterResult k (a.drain km) (b.drain km) := by
  -- by induction on the advances of the first arbiter: the second one takes the same
  fun_induction drain a km generalizing b with
  | case1 a stuck =>
    have next := later_advance? h km
    generalize stuck' : b.advance? km = b' at next
    rw [stuck] at next
    cases next
    rw [drain_of_stuck stuck']
    exact ⟨h, rfl⟩
  | case2 a a' out advanced less =>
    rename_i ih
    have next := later_advance? h km
    generalize advanced' : b.advance? km = b' at next
    rw [advanced] at next
    cases next with
    | some later =>
      rw [drain_of_advance? advanced']
      exact (ih later.1).after later.2

theorem later_postpone (h : a.Later k b) (r : Record) :
    LaterResult k (a.postpone r) (b.postpone (r.later k)) := by
  unfold postpone
  rw [h.backlog, Backlog.push?_later]
  cases a.backlog.push? r with
  | none => exact ⟨h.forget, rfl⟩
  | some backlog => exact ⟨⟨h.interpreter, rfl, h.candidate⟩, rfl⟩

theorem later_accept (h : a.Later k b) (km : Keymap) (e : KeyEvent) :
    LaterResult k (a.accept km e) (b.accept km (e.later k)) := by
  have tried := later_attempt h km (.ofEvent e)
  unfold accept
  rw [show Record.ofEvent (e.later k) = (Record.ofEvent e).later k from rfl]
  dsimp only
  rw [tried.waiting]
  cases (a.attempt km (.ofEvent e)).waiting with
  | none => exact ⟨tried.arbiter, tried.emitted⟩
  | some r => exact (later_postpone tried.arbiter r).after tried.emitted

/-- An event processed later against what the arbiter remembers later. -/
theorem later_handle (h : a.Later k b) (km : Keymap) (e : KeyEvent) :
    LaterResult k (a.handle km e) (b.handle km (e.later k)) := by
  have accepted := later_accept h km e
  exact (later_drain accepted.1 km).after accepted.2

end Arbiter

end TapHold
