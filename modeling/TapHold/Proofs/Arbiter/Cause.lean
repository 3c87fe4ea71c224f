import TapHold.Proofs.Arbiter.Explained
import TapHold.Proofs.Arbiter.Placed

/-!
# Why a press is a hold

When an undecided candidate is settled as a hold, something has happened behind its press that tells
(`HoldCause`): an event outside its term, a press and a release of another key, or, if the key has
modifiers, the press of another key. `exists_cause_of_hold` is the result for a run.

Only what is behind the press counts, but not in which order it came: a key that was pressed before
the candidate, is released and pressed again makes a hold as well (`hold_of_swapped_run`).

`Told` collects what is known whenever a record is tried. Whatever is awaited behind the candidate
has arrived behind it (`Placed`), so the causes are sought in line.
-/

set_option autoImplicit false

namespace TapHold

namespace Arbiter

variable {km : Keymap} {settings : Settings} {a b : Arbiter} {c r : Record} {rest : List Record}
  {out out' : List Emission} {down : Position → Bool} {arrived : List KeyEvent} {e : KeyEvent}
  {d : Dispatched} {later post : List KeyEvent}

/-! ## What is known about the events -/

/-- What every step keeps and an attempt relies on. -/
structure Informed (km : Keymap) (settings : Settings) (down : Position → Bool)
    (arrived : List KeyEvent) (out : List Emission) (a : Arbiter) : Prop where
  settings : a.interpreter.settings = settings
  orderly : Orderly down a
  chronological : Chronological a
  scanned : Scanned km a
  fresh : ∀ r ∈ a.line, IsFresh r
  order : ∀ key, KeepsOrder key arrived out a
  placed : Placed arrived (finalEvents out) a.awaited

theorem isFresh_move (m : Move km a out b) (h : ∀ r ∈ a.line, IsFresh r) :
    ∀ r ∈ b.line, IsFresh r := by
  intro r hr pressed
  rcases fresh_move m r hr with kept | up
  · exact h r kept pressed
  · cases up.symm.trans pressed

theorem isFresh_arrival (arrival : Arrival km e a out b) (h : ∀ r ∈ a.line, IsFresh r) :
    ∀ r ∈ b.line, IsFresh r := by
  intro r hr pressed
  cases arrival with
  | join loose alone untyped =>
    rcases List.mem_append.mp hr with waits | last
    · exact h r waits pressed
    · rw [List.mem_singleton.mp last]
      rfl
  | tap hc hu own =>
    rcases List.mem_append.mp hr with waits | last
    · exact h r waits pressed
    · rw [List.mem_singleton.mp last] at pressed
      cases (up_of_isTapRelease own).symm.trans pressed

theorem kept_informed (km : Keymap) (settings : Settings) :
    Kept km isTimely (· ≠ Emission.overflow) (Informed km settings) where
  real := fun h _ hc => h.orderly.real_candidate hc
  stays := isTimely_move
  move := fun {_ _ _ _ out' _} m kept h => by
    have noOverflow : out' ≠ [.overflow] := ne_overflow_of_fine kept
    exact {
      settings := (settings_move m).trans h.settings
      orderly := orderly_move m h.orderly
      chronological := chronological_move m h.chronological
      scanned := scanned_move h.orderly m h.scanned
      fresh := isFresh_move m h.fresh
      order := fun key => keepsOrder_move h.orderly m noOverflow (h.order key)
      placed := placed_move h.orderly m noOverflow h.placed }
  arrival := fun arrival real next timely h => {
    settings := (settings_arrival arrival).trans h.settings
    orderly := orderly_arrival arrival real next h.orderly
    chronological := chronological_arrival arrival (isTimely_iff.mp timely) h.chronological
    scanned := scanned_arrival arrival h.scanned
    fresh := isFresh_arrival arrival h.fresh
    order := fun key => keepsOrder_arrival h.orderly arrival (h.order key)
    placed := placed_arrival h.orderly arrival (h.order _) h.placed }

theorem informed_start (km : Keymap) (settings : Settings) (layer : LayerNumber) (capacity : Nat) :
    Informed km settings allUp [] [] (start settings layer capacity) where
  settings := rfl
  orderly := orderly_of_nothing rfl rfl
  chronological := List.Pairwise.nil
  scanned := fun _ none => by cases none
  fresh := fun _ none => by cases none
  order := fun _ => rfl
  placed := fun pre x post split => by
    have none : [] = pre ++ x :: post := split
    simp at none

/-! ## Every state in which a record is tried -/

/-- What is known when a record is tried. -/
structure Told (km : Keymap) (settings : Settings) (down : Position → Bool)
    (arrived : List KeyEvent) (out : List Emission) (a : Arbiter) : Prop where
  informed : Informed km settings down arrived out a
  explained : Explained a

theorem ne_of_not_mem {y : Emission} (kept : y ∉ out) : ∀ x ∈ out, x ≠ y := by
  rintro x hx rfl
  exact kept hx

theorem told_advances (h : Advances km a out' b) (kept : Emission.overflow ∉ out')
    (told : Told km settings down arrived out a) : Told km settings down arrived (out ++ out') b := by
  induction h generalizing out with
  | refl a =>
    rw [List.append_nil]
    exact told
  | step advanced _ ih =>
    rw [List.mem_append, not_or] at kept
    rw [← List.append_assoc]
    have i := told.informed
    refine ih kept.2 ⟨?_, explained_advance? i.orderly i.fresh told.explained advanced⟩
    exact (kept_informed km settings).moves (advance?_moves advanced) (ne_of_not_mem kept.1) i

theorem told_accept (rested : a.Rested)
    (admitted : (e.isTick || e.pressed == !down e.key && a.isTimely e) = true)
    (ticks : e.isTick = true → e.pressed = false) (kept : Emission.overflow ∉ (a.accept km e).2)
    (told : Told km settings down arrived out a) :
    Told km settings (if e.isTick then down else e.after down) (arrived ++ realEvents [e])
      (out ++ (a.accept km e).2) (a.accept km e).1 := by
  have i := told.informed
  have next (real : e.isTick = false) : e.pressed = !down e.key := by
    rw [real, Bool.false_or, Bool.and_eq_true, beq_iff_eq] at admitted
    exact admitted.1
  have moves (tick : e.isTick = true) : Moves km a (a.accept km e).2 (a.accept km e).1 :=
    accept_tick_moves tick fun c hc => i.orderly.real_candidate hc
  refine ⟨?_, explained_accept i.orderly i.scanned told.explained next ticks⟩
  exact (kept_informed km settings).event moves (accept_passage rested) admitted
    (ne_of_not_mem kept) i

theorem told_run (es : List KeyEvent) (rested : a.Rested)
    (admitted : a.admits isTimely km down es = true)
    (ticks : ∀ e ∈ es, e.isTick = true → e.pressed = false)
    (kept : Emission.overflow ∉ (a.run km es).2) (told : Told km settings down arrived out a) :
    Told km settings (downAfter down es) (arrived ++ realEvents es) (out ++ (a.run km es).2)
      (a.run km es).1 := by
  refine keep_run es (fun e he down arrived out a rested admitted good before => ?_) rested admitted
    (ne_of_not_mem kept) told
  -- an event is handled by accepting it and then trying the line
  have split : (a.handle km e).2 = (a.accept km e).2 ++ ((a.accept km e).1.drain km).2 := rfl
  rw [split, List.forall_mem_append] at good
  have accepted := told_accept rested admitted (ticks e he) (fun lost => good.1 _ lost rfl) before
  have drained := told_advances (advances_drain (a.accept km e).1 km)
    (fun lost => good.2 _ lost rfl) accepted
  rw [split, ← List.append_assoc]
  exact drained

theorem told_start (km : Keymap) (settings : Settings) (layer : LayerNumber) (capacity : Nat) :
    Told km settings allUp [] [] (start settings layer capacity) :=
  ⟨informed_start km settings layer capacity, explained_of_free rfl⟩

/-! ## Causes -/

/-- A candidate is settled as a hold: an undecided one, or one that was tapped and turned out to be
a hold. -/
structure IsHold (a : Arbiter) (d : Dispatched) : Prop where
  pressed : d.given.event.pressed = true
  zero : d.settled.tap.count = 0
  candidate : 0 < d.given.tap.count ∨ a.undecided? = some d.given

/-- Why a press is a hold, as far as the events tell that arrived behind it. -/
inductive HoldCause (km : Keymap) (settings : Settings) (d : Dispatched) (after : List KeyEvent) :
    Prop where
  /-- An event lies outside its term. -/
  | late (x : KeyEvent) (hx : x ∈ after)
      (late : x.time.isWithin d.given.event.time settings.term = false)
  /-- Another key was pressed and released. -/
  | typed (x y : KeyEvent) (hx : x ∈ after) (hy : y ∈ after) (same : x.key = y.key)
      (other : x.key ≠ d.given.event.key) (down : x.pressed = true) (up : y.pressed = false)
  /-- The key has modifiers and a tap, and another key was pressed. -/
  | overruled (x : KeyEvent) (hx : x ∈ after)
      (has : km.HasModsTapKey settings d.given.event.key) (turned : 0 < d.given.tap.count)
      (other : x.key ≠ d.given.event.key) (down : x.pressed = true)

theorem HoldCause.mono {after after' : List KeyEvent} (h : HoldCause km settings d after)
    (sub : ∀ x ∈ after, x ∈ after') : HoldCause km settings d after' := by
  cases h with
  | late x hx late => exact .late x (sub x hx) late
  | typed x y hx hy same other down up => exact .typed x y (sub x hx) (sub y hy) same other down up
  | overruled x hx has turned other down => exact .overruled x (sub x hx) has turned other down

/-- An undecided candidate becomes a hold when the record `r` is tried. -/
theorem cause_of_undecided (i : Informed km settings down arrived out a)
    (undecided : a.undecided? = some c) (hd : Emission.dispatched d ∈ (a.attempt km r).emitted)
    (hold : IsHold a d) (hline : ∀ s ∈ a.line, s.event ∈ later) (hr : r.event ∈ later)
    (press : a.isTapRelease c r = true → c.tap.interrupted = true →
      a.backlog.hasOtherPress c.event.key = true) :
    d.given.event = c.event ∧ HoldCause km settings d later := by
  obtain ⟨hc, hu⟩ := of_undecided? undecided
  have term : a.term = settings.term := congrArg Settings.term i.settings
  rw [attempt_undecided hc hu] at hd
  have meets := meets_attemptUndecided km a c r
  generalize a.attemptUndecided km c r = t at meets hd
  cases meets with
  | late late =>
    -- the record that is tried lies outside the term
    obtain ⟨-, given, -⟩ := given_of_mem hd
    have event : d.given.event = c.event := congrArg Record.event given
    refine ⟨event, .late r.event hr ?_⟩
    rw [event, ← term]
    exact late
  | press inTerm down => cases hd
  | own inTerm up same =>
    -- the candidate is handed over as a tap, so it can only have been overruled
    obtain ⟨-, given, -⟩ := given_of_mem (r := c.withCount 1) hd
    have event : d.given.event = (c.withCount 1).event := congrArg Record.event given
    have one : d.given.tap.count = 1 := congrArg (fun s => s.tap.count) given
    have pos : 0 < d.given.tap.count := by omega
    obtain ⟨has, reason⟩ := overruled_of_mem (r := c.withCount 1) hd pos hold.zero
    have release : a.isTapRelease c r = true := by simp [isTapRelease, same, up, inTerm]
    have waits : a.backlog.hasOtherPress c.event.key = true := by
      rcases reason with interrupted | waits
      · exact press release interrupted
      · exact waits
    obtain ⟨s, hs, found⟩ := List.any_eq_true.mp waits
    simp only [Bool.and_eq_true, bne_iff_ne] at found
    refine ⟨event, .overruled s.event (hline s hs) ?_ pos (event ▸ found.2) found.1⟩
    rw [event, ← i.settings]
    exact has
  | typed up other opposite =>
    -- the other edge of the key that is released waits somewhere in line
    obtain ⟨-, given, -⟩ := given_of_mem hd
    have event : d.given.event = c.event := congrArg Record.event given
    obtain ⟨s, hs, found⟩ := List.any_eq_true.mp opposite
    simp only [Bool.and_eq_true, beq_iff_eq, up, bne_iff_ne, ne_eq, Bool.not_eq_false] at found
    refine ⟨event, .typed s.event r.event (hline s hs) hr found.1 ?_ found.2 up⟩
    rw [found.1, event]
    exact other
  | still up other => cases hd
  | pass up other =>
    obtain ⟨-, given, -⟩ := given_of_mem hd
    have pressed := hold.pressed
    rw [given] at pressed
    cases up.symm.trans pressed

/-- The first in line is tried. -/
theorem cause_of_waiting (told : Told km settings down arrived out a) (hl : a.line = r :: rest)
    (hd : Emission.dispatched d ∈ (a.attempt km r).emitted) (hold : IsHold a d) :
    ∃ post, a.awaited = d.given.event :: post ∧ d.given.event.isTick = false ∧
      HoldCause km settings d post := by
  have i := told.informed
  cases undecided : a.undecided? with
  | none =>
    -- a tap in front that turns out to be a hold was overruled by a press behind it
    have settled : Settled km a r _ := settled_attempt undecided (i.fresh r (by simp [hl]))
    have pos : 0 < d.given.tap.count :=
      hold.candidate.resolve_right fun some => by cases undecided.symm.trans some
    obtain ⟨event, has, waits⟩ := settled.overruled d hd hold.pressed pos hold.zero
    obtain ⟨s, hs, found⟩ := List.any_eq_true.mp waits
    simp only [Bool.and_eq_true, bne_iff_ne] at found
    have behind : s ∈ rest := by
      have whole : s ∈ r :: rest := hl ▸ hs
      rcases List.mem_cons.mp whole with rfl | behind
      · exact absurd rfl found.2
      · exact behind
    refine ⟨rest.map Record.event, ?_, ?_, ?_⟩
    · rw [awaited_of_free undecided, hl, event]
      rfl
    · rw [event]
      exact i.orderly.real_line (by simp [hl])
    · rw [i.settings] at has
      exact .overruled s.event (List.mem_map_of_mem behind) (event ▸ has) pos (event ▸ found.2) found.1
  | some c =>
    obtain ⟨hc, hu⟩ := of_undecided? undecided
    have press (own : a.isTapRelease c r = true) (interrupted : c.tap.interrupted = true) :
        a.backlog.hasOtherPress c.event.key = true := by
      rcases told.explained c undecided interrupted with press | ⟨u, found, late⟩
      · exact press
      · -- the first record of the key in line is the one in front
        rw [hl, List.find?_cons_of_pos (by simpa using key_of_isTapRelease own)] at found
        obtain rfl := Option.some.inj found
        cases own.symm.trans late
    have inFront : r.event ∈ a.line.map Record.event := List.mem_map_of_mem (by simp [hl])
    obtain ⟨event, cause⟩ := cause_of_undecided i undecided hd hold
      (fun s hs => List.mem_map_of_mem hs) inFront press
    refine ⟨_, ?_, ?_, cause⟩
    · rw [awaited_of_undecided hc hu, event]
    · rw [event]
      exact i.orderly.real_candidate hc

/-- If the release of an interrupted candidate arrives in time, the press that interrupted is in
line: no earlier release of the candidate is, because that would be in time as well. -/
theorem hasOtherPress_of_arriving (i : Informed km settings down arrived out a)
    (explained : Explained a) (undecided : a.undecided? = some c) (next : e.pressed = !down e.key)
    (timely : a.isTimely e = true) (own : a.isTapRelease c (.ofEvent e) = true)
    (interrupted : c.tap.interrupted = true) :
    a.backlog.hasOtherPress c.event.key = true := by
  rcases explained c undecided interrupted with press | ⟨u, found, late⟩
  · exact press
  obtain ⟨hc, hu⟩ := of_undecided? undecided
  have behind :
      (edges (e.after down) ((a.line ++ [Record.ofEvent e]).map Record.event) c.event.key).head? =
        some false := by
    have alternates := alternates_join i.orderly.alternates next
    rw [awaited_of_undecided hc hu, List.cons_append] at alternates
    have release := head?_edges alternates
    rw [(Record.isUndecided_iff.mp hu).1] at release
    rw [List.map_append]
    exact release
  have order : (c.event :: (a.line ++ [Record.ofEvent e]).map Record.event).Pairwise
      fun x y => y.time.isNotBefore x.time = true := by
    have held : a.heldEvents = c.event :: a.line.map Record.event := by simp [heldEvents, hc]
    have chronological := i.chronological
    rw [Chronological, held] at chronological
    rw [List.map_append, ← List.cons_append, ← held, List.pairwise_append, held]
    refine ⟨chronological, List.pairwise_singleton _ _, fun x hx y hy => ?_⟩
    rw [List.mem_singleton.mp hy]
    exact isTimely_iff.mp timely x (held ▸ hx)
  -- the release that is found first is `u`, which is too late
  obtain ⟨t, first, inTime⟩ :=
    find?_isTapRelease behind order (List.mem_append_right _ (List.mem_singleton_self _)) own
  rw [List.find?_append, found, Option.some_or] at first
  obtain rfl := Option.some.inj first
  cases inTime.symm.trans late

/-- An event is tried when it arrives. -/
theorem cause_of_arriving (rested : a.Rested)
    (admitted : (e.isTick || e.pressed == !down e.key && a.isTimely e) = true)
    (told : Told km settings down arrived out a)
    (hd : Emission.dispatched d ∈ (a.attempt km (.ofEvent e)).emitted) (hold : IsHold a d) :
    ∃ post, a.awaited = d.given.event :: post ∧ d.given.event.isTick = false ∧
      HoldCause km settings d (post ++ [e]) := by
  have i := told.informed
  cases undecided : a.undecided? with
  | none =>
    -- no other press waits, so no tap turns out to be a hold
    have settled : Settled km a (.ofEvent e) _ := settled_attempt undecided fun _ => rfl
    have pos : 0 < d.given.tap.count :=
      hold.candidate.resolve_right fun some => by cases undecided.symm.trans some
    obtain ⟨event, has, waits⟩ := settled.overruled d hd hold.pressed pos hold.zero
    obtain ⟨s, hs, -⟩ := List.any_eq_true.mp waits
    have empty : a.backlog.records = [] := rested undecided
    rw [empty] at hs
    cases hs
  | some c =>
    obtain ⟨hc, hu⟩ := of_undecided? undecided
    have realC : c.event.isTick = false := i.orderly.real_candidate hc
    have press (own : a.isTapRelease c (.ofEvent e) = true)
        (interrupted : c.tap.interrupted = true) : a.backlog.hasOtherPress c.event.key = true := by
      have same : e.key = c.event.key := key_of_isTapRelease own
      have real : e.isTick = false := by
        rw [KeyEvent.isTick, same]
        exact realC
      rw [real, Bool.false_or, Bool.and_eq_true, beq_iff_eq] at admitted
      exact hasOtherPress_of_arriving i told.explained undecided admitted.1 admitted.2 own interrupted
    have waits (s : Record) (hs : s ∈ a.line) : s.event ∈ a.line.map Record.event ++ [e] :=
      List.mem_append_left _ (List.mem_map_of_mem hs)
    have last : e ∈ a.line.map Record.event ++ [e] :=
      List.mem_append_right _ (List.mem_singleton_self e)
    obtain ⟨event, cause⟩ := cause_of_undecided i undecided hd hold waits last press
    refine ⟨a.line.map Record.event, ?_, ?_, cause⟩
    · rw [awaited_of_undecided hc hu, event]
    · rw [event]
      exact realC

/-! ## Runs -/

/-- The press `d` is a hold, and what has been received behind it tells why. Of its key, the events
that were received before it are those that are done. -/
def HasCause (km : Keymap) (settings : Settings) (d : Dispatched) (received : List KeyEvent)
    (out : List Emission) : Prop :=
  ∃ before after, received = before ++ d.given.event :: after ∧
    before.filter (fun e => e.key = d.given.event.key) =
      ((finalEvents out).filter fun e => e.key = d.given.event.key) ∧
    HoldCause km settings d after

/-- The first awaited event has a cause among the events received. -/
theorem hasCause_of_awaited {received : List KeyEvent}
    (placed : Placed (realEvents received) (finalEvents out) a.awaited)
    (first : a.awaited = d.given.event :: post) (real : d.given.event.isTick = false)
    (more : List KeyEvent) (cause : HoldCause km settings d (post ++ more)) :
    HasCause km settings d (received ++ more) out := by
  obtain ⟨before, after, split, behind, order⟩ := placed [] d.given.event post first
  obtain ⟨before', after', rfl, kept, same⟩ := exists_split_of_realEvents split real
  refine ⟨before', after' ++ more, by simp, ?_, cause.mono fun x hx => ?_⟩
  · rw [same, order, List.append_nil]
  · rcases List.mem_append.mp hx with early | last
    · exact List.mem_append_left _ (kept x (behind.subset early))
    · exact List.mem_append_right _ last

theorem hasCause_of_tries {first : Arbiter} {received : List KeyEvent}
    (tries : Tries km first received out a r) (rested : first.Rested)
    (admitted : first.admits isTimely km down received = true)
    (ticks : ∀ e ∈ received, e.isTick = true → e.pressed = false) (kept : Emission.overflow ∉ out)
    (told : Told km settings down [] [] first)
    (hd : Emission.dispatched d ∈ (a.attempt km r).emitted) (hold : IsHold a d) :
    HasCause km settings d received out := by
  cases tries with
  | arriving es e =>
    rw [admits_append, Bool.and_eq_true, admits, Bool.and_eq_true] at admitted
    have here := told_run es rested admitted.1
      (fun x hx => ticks x (List.mem_append_left _ hx)) kept told
    obtain ⟨post, awaited, real, cause⟩ :=
      cause_of_arriving (rested_run rested es) admitted.2.1 here hd hold
    exact hasCause_of_awaited here.informed.placed awaited real [e] cause
  | @waiting es e _ out' _ rest advances hl =>
    rw [admits_append, Bool.and_eq_true, admits, Bool.and_eq_true] at admitted
    rw [List.mem_append, List.mem_append, not_or, not_or] at kept
    have before := told_run es rested admitted.1
      (fun x hx => ticks x (List.mem_append_left _ hx)) kept.1 told
    have accepted := told_accept (rested_run rested es) admitted.2.1
      (ticks e (List.mem_append_right _ (List.mem_singleton_self e))) kept.2.1 before
    have here := told_advances advances kept.2.2 accepted
    obtain ⟨post, awaited, real, cause⟩ := cause_of_waiting here hl hd hold
    have events : realEvents (es ++ [e]) = realEvents es ++ realEvents [e] := List.filter_append _ _
    have placed := here.informed.placed
    rw [List.nil_append, List.nil_append, ← events, List.append_assoc] at placed
    have found := hasCause_of_awaited placed awaited real [] (by rwa [List.append_nil])
    rwa [List.append_nil] at found

/-- Without extensions: whenever a press that was undecided becomes a hold in a run without
overflow, or is handed over as a tap and turns out to be a hold, the events received so far tell
why. -/
theorem exists_cause_of_hold (km : Keymap) (settings : Settings) (layer : LayerNumber)
    (capacity : Nat) (es : List KeyEvent)
    (inOrder : timely km (start settings layer capacity) es = true)
    (ticks : ∀ e ∈ es, e.isTick = true → e.pressed = false)
    (kept : Emission.overflow ∉ ((start settings layer capacity).run km es).2) :
    let first := start settings layer capacity
    (∀ received out a r, received <+: es → Tries km first received out a r →
      ∀ d, Emission.dispatched d ∈ (a.attempt km r).emitted → IsHold a d →
        HasCause km settings d received out) ∧
    (∀ d, Emission.dispatched d ∈ (first.run km es).2 →
      ∃ received out a r, received <+: es ∧ Tries km first received out a r ∧
        Emission.dispatched d ∈ (a.attempt km r).emitted) ∧
    ∀ (η : Type) [Host η] (host : η),
      es.foldl (fun kb e => kb.process km e)
          (Keyboard.start settings layer capacity host NoHooks.none) =
        ⟨(first.run km es).1, (Outlet.mk host NoHooks.none []).emitAll (first.run km es).2⟩ := by
  intro first
  refine ⟨?_, fun d hd => exists_tries hd, fun η _ host => Keyboard.foldl_process _ km es rfl⟩
  intro received out a r start tries d hd hold
  have noOverflow : Emission.overflow ∉ out := fun lost => kept (tries.emitted_run start lost)
  have earlier : ∀ e ∈ received, e.isTick = true → e.pressed = false :=
    fun e he => ticks e (start.subset he)
  have admitted : first.admits isTimely km allUp received = true := by
    obtain ⟨later, rfl⟩ := start
    have whole : first.admits isTimely km allUp (received ++ later) = true := inOrder
    rw [admits_append, Bool.and_eq_true] at whole
    exact whole.1
  exact hasCause_of_tries tries (fun _ => rfl) admitted earlier noOverflow
    (told_start km settings layer capacity) hd hold

/-- A layer key is held down and another key is typed under it: the layer key is a hold when the
release of the other key arrives. -/
theorem exists_cause_of_layered_run :
    let km := Keymap.ofKeys fun key => if key = ⟨0, 0⟩ then 0x812c else 0x0004
    let pressed : List KeyEvent := [⟨⟨0, 0⟩, true, ⟨10⟩⟩, ⟨⟨0, 1⟩, true, ⟨20⟩⟩]
    let released : KeyEvent := ⟨⟨0, 1⟩, false, ⟨30⟩⟩
    let first := start .standard 0 8
    let c : Record := ⟨⟨⟨0, 0⟩, true, ⟨10⟩⟩, ⟨0, true⟩⟩
    let now := ((first.run km pressed).1.attempt km (.ofEvent released)).emitted
    timely km first (pressed ++ [released]) = true ∧
      (dispatchesOf ⟨0, 0⟩ now).map (fun d => (d.given, d.settled)) = [(c, c)] ∧
      ∀ d ∈ dispatchesOf ⟨0, 0⟩ now,
        HasCause km .standard d (pressed ++ [released]) (first.run km pressed).2 := by
  intro km pressed released first c now
  have inOrder : timely km first (pressed ++ [released]) = true := by decide +kernel
  have ticks : ∀ e ∈ pressed ++ [released], e.isTick = true → e.pressed = false := by decide
  have kept : Emission.overflow ∉ (first.run km (pressed ++ [released])).2 := by decide +kernel
  have one : (dispatchesOf ⟨0, 0⟩ now).map (fun d => (d.given, d.settled)) = [(c, c)] := by
    decide +kernel
  refine ⟨inOrder, one, fun d hd => ?_⟩
  have same : (d.given, d.settled) ∈ [(c, c)] := one ▸ List.mem_map_of_mem hd
  obtain ⟨given, settled⟩ := Prod.mk.inj (List.mem_singleton.mp same)
  have undecided : (first.run km pressed).1.undecided? = some c := by decide +kernel
  have hold : IsHold (first.run km pressed).1 d := by
    refine ⟨?_, ?_, Or.inr ?_⟩
    · rw [given]
    · rw [settled]
    · rw [given, undecided]
  have causes := (exists_cause_of_hold km .standard 0 8 _ inOrder ticks kept).1
  have tries : Tries km first (pressed ++ [released]) _ _ _ := .arriving pressed released
  exact causes _ _ _ _ List.prefix_rfl tries d (mem_dispatchesOf_iff.mp hd).1 hold

/-- A shift key is down when a layer key is pressed, and then it is released and pressed again. Both
wait, and although nothing was typed within the term, the layer key is a hold. -/
theorem hold_of_swapped_run :
    let km := Keymap.ofKeys fun key => if key = ⟨0, 0⟩ then 0x00e1 else 0x812c
    let es : List KeyEvent :=
      [⟨⟨0, 0⟩, true, ⟨10⟩⟩, ⟨⟨0, 1⟩, true, ⟨10⟩⟩, ⟨⟨0, 0⟩, false, ⟨20⟩⟩, ⟨⟨0, 0⟩, true, ⟨30⟩⟩]
    let first := start .standard 0 8
    let c : Record := ⟨⟨⟨0, 1⟩, true, ⟨10⟩⟩, ⟨0, true⟩⟩
    timely km first es = true ∧ Emission.overflow ∉ (first.run km es).2 ∧
      (first.run km (es.take 3)).1.undecided?.map Record.event = some c.event ∧
      (dispatchesOf ⟨0, 1⟩ (first.run km es).2).map (fun d => (d.given, d.settled)) = [(c, c)] ∧
      (∀ e ∈ es, e.time.isWithin c.event.time Settings.standard.term = true) ∧
      es.drop 2 = [⟨⟨0, 0⟩, false, ⟨20⟩⟩, ⟨⟨0, 0⟩, true, ⟨30⟩⟩] ∧
      ¬ km.HasModsTapKey .standard c.event.key := by
  intro km es first c
  refine ⟨by decide +kernel, by decide +kernel, by decide +kernel, by decide +kernel,
    by decide +kernel, rfl, ?_⟩
  rintro ⟨layers, mods, code, found⟩
  have here : first.interpreter.isModsTapKeyAt km c.event.key = true :=
    (first.interpreter.isModsTapKeyAt_iff km c.event.key).mpr
      ⟨mods, code, (Keymap.uniform_ofKeys _ _ _ _ layers).trans found⟩
  have none : first.interpreter.isModsTapKeyAt km c.event.key = false := by decide +kernel
  cases here.symm.trans none

end Arbiter

end TapHold
