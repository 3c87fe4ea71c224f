import TapHold.Proofs.Arbiter.Due
import TapHold.Proofs.Arbiter.Quiet

/-!
# The press of a tap finds its release

When the events that are held back are in the order of their times (`Chronological`), the release
that makes a tap of a press is the first edge of its key behind it (`find?_isTapRelease`). So the
release of a tap is due as that of a tap once the press is dispatched (`due_of_tap`). The release of
an undecided candidate does not wait in line while it could still make a tap of it; the exception is
a key with modifiers whose tap was overruled (`Scanned`), and there another press of the key is
awaited if the candidate is tapped in the end (`due_of_tap_arrival`).
-/

set_option autoImplicit false

namespace TapHold

/-- What lies between two times of a window lies in the window. -/
theorem Time.isWithin_of_between {t u start : Time} {term : Word} (late : u.isNotBefore start = true)
    (later : t.isNotBefore u = true) (within : t.isWithin start term = true) :
    u.isWithin start term = true := by
  have sum : t.ms - start.ms = (u.ms - start.ms) + (t.ms - u.ms) := by bv_omega
  simp only [isWithin, isNotBefore, Bool.and_eq_true, Bool.not_eq_true', decide_eq_true_eq,
    BitVec.msb_eq_false_iff_two_mul_lt] at late later within ⊢
  simp only [since] at late later within ⊢
  rw [sum] at within
  refine ⟨late, ?_⟩
  bv_omega

theorem Interpreter.hasModsTapKey_of_at {i : Interpreter} {km : Keymap} {key : Position}
    (h : i.isModsTapKeyAt km key = true) : km.HasModsTapKey i.settings key := by
  obtain ⟨mods, code, found⟩ := (i.isModsTapKeyAt_iff km key).mp h
  exact ⟨i.layers, mods, code, found⟩

namespace Arbiter

variable {km : Keymap} {a b : Arbiter} {c r : Record} {rest : List Record} {out : List Emission}
  {down : Position → Bool} {e : KeyEvent} {key : Position}

/-! ## The order of times -/

/-- No held event is earlier than the ones that are held before it. -/
def Chronological (a : Arbiter) : Prop :=
  a.heldEvents.Pairwise fun x y => y.time.isNotBefore x.time = true

theorem chronological_move (m : Move km a out b) (ch : Chronological a) : Chronological b :=
  ch.sublist (heldEvents_move m)

theorem chronological_arrival (arrival : Arrival km e a out b)
    (late : ∀ x ∈ a.heldEvents, e.time.isNotBefore x.time = true) (ch : Chronological a) :
    Chronological b := by
  apply List.Pairwise.sublist (heldEvents_arrival arrival)
  rw [List.pairwise_append]
  refine ⟨ch, List.pairwise_singleton _ _, ?_⟩
  intro x hx y hy
  rw [List.mem_singleton.mp hy]
  exact late x hx

/-! ## The first edge behind a press -/

theorem head?_edges_of_find? {rs : List Record} {s : Record}
    (found : (rs.find? fun r => r.event.key = key) = some s) :
    (edges down (rs.map Record.event) key).head? = some s.event.pressed := by
  have first : ((rs.map Record.event).filter fun e => e.key = key).head? = some s.event := by
    rw [List.head?_filter, List.find?_map]
    exact congrArg (Option.map Record.event) found
  unfold edges
  rw [List.head?_append, List.head?_map, first]
  rfl

/-- If a record behind a press makes a tap of it, the first edge of its key does. -/
theorem find?_isTapRelease {rs : List Record}
    (head : (edges down (rs.map Record.event) c.event.key).head? = some false)
    (order : (c.event :: rs.map Record.event).Pairwise fun x y => y.time.isNotBefore x.time = true)
    {s : Record} (hs : s ∈ rs) (own : a.isTapRelease c s = true) :
    ∃ t, (rs.find? fun r => r.event.key = c.event.key) = some t ∧ a.isTapRelease c t = true := by
  cases found : rs.find? fun r => r.event.key = c.event.key with
  | none =>
    have other := List.find?_eq_none.mp found s hs
    exact absurd (key_of_isTapRelease own) (by simpa using other)
  | some t =>
    refine ⟨t, rfl, ?_⟩
    obtain ⟨isKey, pre, post, rfl, before⟩ := List.find?_eq_some_iff_append.mp found
    have up : t.event.pressed = false :=
      Option.some.inj ((head?_edges_of_find? found).symm.trans head)
    rw [List.pairwise_cons, List.map_append, List.map_cons, List.pairwise_append,
      List.pairwise_cons] at order
    have late := order.1 t.event (by simp)
    -- the record that was found is `t` itself or comes after it
    have within : s.event.time.isWithin c.event.time a.term = true := by
      simp only [isTapRelease, Bool.and_eq_true] at own
      exact own.2
    rcases List.mem_append.mp hs with early | here
    · have other := before s early
      simp [key_of_isTapRelease own] at other
    rcases List.mem_cons.mp here with rfl | behind
    · exact own
    · have later := order.2.2.1.1 s.event (List.mem_map_of_mem behind)
      have mid := Time.isWithin_of_between late later within
      simp only [decide_eq_true_eq] at isKey
      simp [isTapRelease, isKey, up, mid]

/-- The tap that is given to the first edge of a key is promised. -/
theorem promise_modify_first {p : Record → Bool} (t : Tap) {rs : List Record} {s : Record}
    (isKey : ∀ s, p s = true → s.event.key = key)
    (found : (rs.find? fun r => r.event.key = key) = some s) (hp : p s = true) :
    promise (Backlog.modifyFirstIn p (fun s => { s with tap := t }) rs) key =
      decide (0 < t.count) := by
  induction rs with
  | nil => cases found
  | cons u rs ih =>
    by_cases same : u.event.key = key
    · rw [List.find?_cons_of_pos (by simpa using same)] at found
      obtain rfl := Option.some.inj found
      unfold Backlog.modifyFirstIn
      rw [if_pos hp, promise_cons_of_eq (r := { u with tap := t }) _ same]
    · rw [List.find?_cons_of_neg (by simpa using same)] at found
      unfold Backlog.modifyFirstIn
      rw [if_neg fun h => same (isKey u h), promise_cons_of_ne _ same]
      exact ih found

/-- The scan for the release of a press in line finds the first edge of its key. -/
theorem exists_first_isTapRelease (o : Orderly down a) (ch : Chronological a)
    (free : a.undecided? = none) (hl : a.line = r :: rest) (pressed : r.event.pressed = true)
    (own : rest.any (a.isTapRelease r) = true) :
    ∃ t, (rest.find? fun s => s.event.key = r.event.key) = some t ∧ a.isTapRelease r t = true := by
  have alternates := o.alternates
  rw [awaited_of_free free, hl, List.map_cons] at alternates
  have head := head?_edges alternates
  rw [pressed] at head
  have order : (r.event :: rest.map Record.event).Pairwise
      fun x y => y.time.isNotBefore x.time = true := by
    unfold Chronological heldEvents at ch
    rw [hl, List.map_append] at ch
    exact (List.pairwise_append.mp ch).2.1
  obtain ⟨s, hs, found⟩ := List.any_eq_true.mp own
  exact find?_isTapRelease head order hs found

/-! ## Taps and their releases -/

/-- The release of an undecided candidate does not wait in line while it could make a tap of it,
unless the key is one whose tap was overruled. -/
def Scanned (km : Keymap) (a : Arbiter) : Prop :=
  ∀ c, a.undecided? = some c → ∀ s ∈ a.line, a.isTapRelease c s = true →
    km.HasModsTapKey a.interpreter.settings c.event.key ∧
      (c.tap.interrupted = true ∨ a.backlog.hasOtherPress c.event.key = true)

theorem isTapRelease_congr (h : b.interpreter.settings = a.interpreter.settings) (c s : Record) :
    b.isTapRelease c s = a.isTapRelease c s := by
  unfold isTapRelease term
  rw [h]

/-- A record that is no press of another key does not matter to a press. -/
theorem hasOtherPress_of_mem {rs ts : List Record}
    (h : ∀ s ∈ rs, s.event.pressed = true → s.event.key ≠ key → s ∈ ts)
    (press : (a.withLine rs).backlog.hasOtherPress key = true) :
    (b.withLine ts).backlog.hasOtherPress key = true := by
  rw [hasOtherPress_withLine, List.any_eq_true] at press ⊢
  obtain ⟨s, hs, found⟩ := press
  simp only [Bool.and_eq_true, bne_iff_ne] at found
  exact ⟨s, h s hs found.1 found.2, by simp [found.1, found.2]⟩

theorem scanned_move (o : Orderly down a) (m : Move km a out b) (h : Scanned km a) : Scanned km b := by
  intro d hd s hs own
  rw [isTapRelease_congr (settings_move m)] at own
  rw [settings_move m]
  cases m with
  | lapse t hc up late => cases hd
  | @interrupt c hc waits =>
    obtain ⟨hd, hu⟩ := of_undecided? hd
    obtain rfl := Option.some.inj hd
    exact ⟨(h c (undecided?_eq_some hc hu) s hs own).1, Or.inl rfl⟩
  | hold hc hu => cases hd
  | @tap c r rest hc hu hl isOwn => cases (undecided?_dispatchTap a km c).symm.trans hd
  | @overtake c r pre post hc hu hl up other untyped =>
    rw [undecided?_withLine, undecided?_dispatch] at hd
    have shorter : (pre ++ post).Sublist a.line := hl ▸ (List.sublist_cons_self r post).append_left pre
    obtain ⟨has, overruled⟩ := h d hd s (shorter.subset hs) own
    refine ⟨has, overruled.imp_right fun press => ?_⟩
    refine hasOtherPress_of_mem (a := a) (fun t ht pressed _ => ?_) press
    change t ∈ a.line at ht
    rw [hl] at ht
    rcases List.mem_append.mp ht with before | here
    · exact List.mem_append_left _ before
    rcases List.mem_cons.mp here with rfl | behind
    · cases up.symm.trans pressed
    · exact List.mem_append_right _ behind
  | @pass r rest free hl plain other =>
    rw [undecided?_withLine, undecided?_dispatch] at hd
    cases free.symm.trans hd
  | @start r rest free hl pressed single alone =>
    obtain ⟨hd, hdu⟩ := of_undecided? hd
    obtain rfl := Option.some.inj hd
    rw [hdu, Bool.true_and] at alone
    exact absurd own (List.any_eq_false.mp alone s hs)
  | @startTap r rest free hl hu single isOwn =>
    cases (undecided?_dispatchTap a km r).symm.trans hd
  | @again c r rest hc up pos calm hl pressed same =>
    obtain ⟨hd, hdu⟩ := of_undecided? hd
    obtain rfl := Option.some.inj hd
    have real : r.isTick = false := o.real_line (by simp [hl])
    have zero : (a.dispatch km { r with tap := c.tap.next } false).record.tap.count = 0 :=
      (Record.isUndecided_iff.mp hdu).2
    obtain ⟨modsTap, press⟩ := overruled_again real pos calm zero
    rw [event_dispatch]
    refine ⟨Interpreter.hasModsTapKey_of_at modsTap, Or.inr ?_⟩
    refine hasOtherPress_of_mem (a := a) (fun t ht _ other => ?_) press
    change t ∈ a.line at ht
    rw [hl] at ht
    rcases List.mem_cons.mp ht with rfl | behind
    · exact absurd rfl other
    · exact behind
  | @release c r rest keep hc pressed pos hl up same =>
    obtain ⟨hd, hdu⟩ := of_undecided? hd
    cases keep with
    | false => cases hd
    | true =>
      obtain rfl := Option.some.inj hd
      rw [Record.isUndecided, event_dispatch, up] at hdu
      cases hdu
  | displace t hc pressed many => cases hd
  | overflow => cases hd

theorem scanned_arrival (arrival : Arrival km e a out b) (h : Scanned km a) : Scanned km b := by
  intro d hd s hs own
  rw [isTapRelease_congr (settings_arrival arrival)] at own
  rw [settings_arrival arrival]
  cases arrival with
  | join loose alone =>
    rw [undecided?_withLine] at hd
    rcases List.mem_append.mp hs with waits | last
    · obtain ⟨has, overruled⟩ := h d hd s waits own
      refine ⟨has, overruled.imp_right fun press => ?_⟩
      exact hasOtherPress_of_mem (a := a) (fun t ht _ _ => List.mem_append_left _ ht) press
    · rw [List.mem_singleton.mp last, loose d hd] at own
      cases own
  | @tap c hc hu isOwn => cases (undecided?_dispatchTap a km c).symm.trans hd

/-! ## Presses that were tapped -/

/-- The press of a tap that stays the candidate, after it was dispatched. -/
theorem candidate_dispatchTap_of_count (counted : 0 < (a.dispatchTap km c).record.tap.count) :
    (a.dispatchTap km c).arbiter.candidate = some (a.dispatchTap km c).record := by
  rw [candidate_dispatchTap, if_neg (Nat.ne_of_gt counted)]

/-- After the press of a tap the next edge of its key is its release. -/
theorem next_of_dispatchTap {rs : List Record}
    (after : Orderly down ((a.dispatchTap km c).arbiter.withLine rs))
    (pressed : c.event.pressed = true) (counted : 0 < (a.dispatchTap km c).record.tap.count) :
    (edges down (rs.map Record.event) c.event.key).head? = some false := by
  have event : (a.dispatchTap km c).record.event = c.event := event_dispatchTap a km c
  have next := after.tapped _ (candidate_dispatchTap_of_count counted) (event.symm ▸ pressed) counted
  rwa [event, awaited_withLine_of_free (undecided?_dispatchTap a km c)] at next

/-- The release of a tap is due as such once its tap stands in line. -/
theorem due_of_dispatchTap {rs : List Record}
    (after : Orderly down ((a.dispatchTap km c).arbiter.withLine rs))
    (pressed : c.event.pressed = true) (counted : 0 < (a.dispatchTap km c).record.tap.count)
    (line : promise rs c.event.key = decide (0 < (a.dispatchTap km c).record.tap.count)) :
    Due down ((a.dispatchTap km c).arbiter.withLine rs) c.event.key true := by
  have next := next_of_dispatchTap after pressed counted
  rw [← awaited_withLine_of_free (undecided?_dispatchTap a km c) rs] at next
  have promised : promise rs c.event.key = true := line.trans (decide_eq_true counted)
  rw [← promised]
  exact .inLine next fun _ => promised

/-- A record that is no tap when it is handed over is none afterwards. -/
theorem not_counted_of_zero (real : r.isTick = false) (zero : r.tap.count = 0) :
    (a.dispatch km r false).record.tap.count = 0 := by
  rw [record_dispatch a km real, Interpreter.isOverruled_of_count zero, Bool.and_false, if_neg Bool.false_ne_true]
  exact zero

/-- When the press of a tap has been dispatched, its release is due as that of a tap. -/
theorem due_of_tap (o : Orderly down a) (ch : Chronological a) (m : Move km a out b)
    {d : Dispatched} (hd : out = [.dispatched d]) (pressed : d.given.event.pressed = true)
    (counted : 0 < d.settled.tap.count) : Due down b d.given.event.key true := by
  have after := orderly_move m o
  cases presses_of_move o m hd pressed with
  | @hold c effect real hc hu =>
    have zero : c.tap.count = 0 := (Record.isUndecided_iff.mp hu).2
    exact absurd (not_counted_of_zero real zero) (Nat.ne_of_gt counted)
  | @tap c r rest effect real hc hu hl own =>
    exact due_of_dispatchTap after pressed counted
      (promise_cons_of_eq (r := { r with tap := _ }) _ (key_of_isTapRelease own))
  | pass effect real free hl zero =>
    exact absurd (not_counted_of_zero real zero) (Nat.ne_of_gt counted)
  | startTap effect real free hl own =>
    obtain ⟨t, first, isOwn⟩ := exists_first_isTapRelease o ch free hl pressed own
    exact due_of_dispatchTap after pressed counted
      (promise_modify_first _ (fun s => key_of_isTapRelease) first isOwn)
  | @again c r rest effect real hc up pos calm hl same =>
    have settled := record_dispatch a km (r := { r with tap := c.tap.next }) real false
    have event := event_dispatch a km { r with tap := c.tap.next } false
    have next := after.tapped _ rfl (event.symm ▸ pressed) counted
    rw [event] at next
    refine .repeated next ⟨_, rfl, event.symm ▸ pressed, congrArg KeyEvent.key event, ?_⟩
    split at settled
    · rw [settled] at counted
      exact absurd counted (Nat.lt_irrefl 0)
    · rw [settled]
      exact one_lt_count_next pos

/-- When an arriving release makes a tap of the undecided candidate, the first edge of its key makes
a tap of it, too. -/
theorem find?_of_tap_arrival (o : Orderly down a) (ch : Chronological a)
    (next : e.pressed = !down e.key) (late : ∀ x ∈ a.heldEvents, e.time.isNotBefore x.time = true)
    (hc : a.candidate = some c) (hu : c.isUndecided = true)
    (own : a.isTapRelease c (.ofEvent e) = true) :
    ∃ t, ((a.line ++ [Record.ofEvent e]).find? fun r => r.event.key = c.event.key) = some t ∧
      a.isTapRelease c t = true := by
  have longer := alternates_join o.alternates next
  rw [awaited_of_undecided hc hu] at longer
  have head := head?_edges longer
  rw [(Record.isUndecided_iff.mp hu).1] at head
  have order : (c.event :: (a.line ++ [Record.ofEvent e]).map Record.event).Pairwise
      fun x y => y.time.isNotBefore x.time = true := by
    have all : a.heldEvents = c.event :: a.line.map Record.event := by simp [heldEvents, hc]
    rw [List.map_append, ← List.cons_append, ← all, List.pairwise_append]
    exact ⟨ch, List.pairwise_singleton _ _, fun x hx y hy => List.mem_singleton.mp hy ▸ late x hx⟩
  have last : Record.ofEvent e ∈ a.line ++ [Record.ofEvent e] := by simp
  have first : (edges (e.after down) ((a.line ++ [Record.ofEvent e]).map Record.event)
      c.event.key).head? = some false := by
    rw [List.map_append]
    exact head
  exact find?_isTapRelease first order last own

/-- No edge of the candidate's key waits in line when an arriving release makes a tap of it. The
exception is a key that had been dispatched as an overruled tap before, and is bound to something
else by now: there another press of the key waits. -/
theorem line_of_tap_arrival (o : Orderly down a) (ch : Chronological a) (scanned : Scanned km a)
    (next : e.pressed = !down e.key)
    (late : ∀ x ∈ a.heldEvents, e.time.isNotBefore x.time = true) (hc : a.candidate = some c)
    (hu : c.isUndecided = true) (own : a.isTapRelease c (.ofEvent e) = true)
    (counted : 0 < (a.dispatchTap km c).record.tap.count) :
    (∀ s ∈ a.line, s.event.key ≠ c.event.key) ∨
      (km.HasModsTapKey a.interpreter.settings c.event.key ∧
        a.interpreter.isModsTapKeyAt km c.event.key = false ∧
          ∃ x ∈ a.line.map Record.event, x.key = c.event.key ∧ x.pressed = true) := by
  by_cases first : ∀ s ∈ a.line, s.event.key ≠ c.event.key
  · exact Or.inl first
  right
  have pressed : c.event.pressed = true := (Record.isUndecided_iff.mp hu).1
  have isKey : e.key = c.event.key := key_of_isTapRelease own
  have isUp : e.pressed = false := up_of_isTapRelease own
  have waits : ∃ s ∈ a.line, s.event.key = c.event.key := by simpa using first
  -- the first edge of the key makes a tap of the candidate, too, and it waits in line
  obtain ⟨t, found, isOwn⟩ := find?_of_tap_arrival o ch next late hc hu own
  have inLine : t ∈ a.line := by
    rw [List.find?_append] at found
    cases early : a.line.find? fun r => r.event.key = c.event.key with
    | none =>
      obtain ⟨s, hs, same⟩ := waits
      exact absurd same (by simpa using List.find?_eq_none.mp early s hs)
    | some u =>
      rw [early, Option.some_or] at found
      exact Option.some.inj found ▸ List.mem_of_find?_eq_some early
  obtain ⟨has, overruled⟩ := scanned c (undecided?_eq_some hc hu) t inLine isOwn
  refine ⟨has, ?_, ?_⟩
  · -- otherwise the tap would have been overruled again
    rw [← Bool.not_eq_true]
    intro modsTap
    exact absurd (dispatchTap_overruled (o.real_candidate hc) pressed modsTap overruled)
      (Nat.ne_of_gt counted)
  · have alternates := o.alternates
    rw [awaited_of_undecided hc hu] at alternates
    have isDown : down c.event.key = true := by
      rw [isUp, isKey] at next
      simpa using next
    obtain ⟨s, hs, same⟩ := waits
    exact exists_press_of_down (alternates_tail alternates) isDown
      ⟨s.event, List.mem_map_of_mem hs, same⟩

/-- When an arriving release makes a tap of the undecided candidate, it is due as that of a tap,
with the exception of `line_of_tap_arrival`. -/
theorem due_of_tap_arrival (o : Orderly down a) (ch : Chronological a) (scanned : Scanned km a)
    (arrival : Arrival km e a out b) (real : e.isTick = false) (next : e.pressed = !down e.key)
    (late : ∀ x ∈ a.heldEvents, e.time.isNotBefore x.time = true) {d : Dispatched}
    (hd : out = [.dispatched d]) (counted : 0 < d.settled.tap.count) :
    Due (e.after down) b d.given.event.key true ∨
      (km.HasModsTapKey a.interpreter.settings d.given.event.key ∧
        a.interpreter.isModsTapKeyAt km d.given.event.key = false ∧
          ∃ x ∈ b.awaited, x.key = d.given.event.key ∧ x.pressed = true) := by
  have after := orderly_arrival arrival real next o
  cases arrival with
  | join loose alone => cases hd
  | @tap c hc hu own =>
    have pressed : c.event.pressed = true := (Record.isUndecided_iff.mp hu).1
    obtain ⟨effect, rfl⟩ := eq_of_dispatchTap (o.real_candidate hc) hd
    rcases line_of_tap_arrival o ch scanned next late hc hu own counted with
      first | ⟨has, other, x, hx, isKey, press⟩
    · left
      refine due_of_dispatchTap after pressed counted ?_
      rw [promise_append_of_ne first]
      exact promise_cons_of_eq (r := { Record.ofEvent e with tap := _ }) _ (key_of_isTapRelease own)
    · right
      refine ⟨has, other, x, ?_, isKey, press⟩
      rw [awaited_withLine_of_free (undecided?_dispatchTap a km c), List.map_append]
      exact List.mem_append_left _ hx

end Arbiter

end TapHold
