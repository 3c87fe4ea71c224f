import TapHold.Proofs.Arbiter.Alone
import TapHold.Proofs.Arbiter.Turns
import TapHold.Proofs.Event.Strokes

/-!
# One tap key, struck again and again

Between two beats of a key the arbiter stands to it in one of five ways (`Stroking`): nothing can be
continued, the last stroke was a tap that may be continued, or the key is down and undecided, held,
or tapped. Each beat leads from one of them to another and hands over the first of the records that
are owed (`stroking_tick`, `stroking_press`, `stroking_release`). A tick may settle a hold, or drop
a tap that has become too old, before the next edge does; what is owed stays the same. So the counts
of the strokes follow from the times of their edges alone.
-/

set_option autoImplicit false

namespace TapHold

/-- The key depends on tap or hold whatever layers are on. -/
def Keymap.TapHoldEverywhere (km : Keymap) (settings : Settings) (key : Position) : Prop :=
  ∀ layers, ∃ action, km.resolve layers settings key = .ok action ∧ action.dependsOnTap = true

namespace Arbiter

variable {km : Keymap} {a : Arbiter} {key : Position} {rs : List Record} {since ms : Nat}
  {edges : List Beat}

theorem isTapHoldKey_of_everywhere (everywhere : km.TapHoldEverywhere a.interpreter.settings key)
    (real : key.isNowhere = false) : a.isTapHoldKey km key = true := by
  obtain ⟨action, bound, tapHold⟩ := everywhere a.interpreter.layers
  exact (Interpreter.isTapHoldKey_of_resolve real bound).trans tapHold

/-! ## One beat -/

/-- How an arbiter stands to a key that is struck: its candidate, the time of the last edge, the
edges that are yet to come, and the records that are owed, which are those of these edges and that
of a press about which nothing has been decided. -/
inductive Stroking (key : Position) (term : Nat) :
    Option Record → Nat → List Beat → List Record → Prop
  /-- Nothing can be continued. -/
  | rest (since : Nat) (strokes : List Stroke) :
    Stroking key term none since (strokes.flatMap Stroke.beats)
      (strokeRecords key term none strokes)
  /-- The last stroke was a tap. -/
  | tapped (s : Stroke) (n : Nat) (strokes : List Stroke) (pos : 1 ≤ n) (le : n ≤ Tap.maxCount)
    (short : s.release - s.press < term)
    (soon : Beat.Soon s.release (strokes.flatMap Stroke.beats)) :
    Stroking key term (some (s.released key n)) s.release (strokes.flatMap Stroke.beats)
      (strokeRecords key term (some (s, n)) strokes)
  /-- The key is down and undecided. -/
  | undecided (s : Stroke) (strokes : List Stroke) (soon : s.release < s.press + 2 ^ 15) :
    Stroking key term (some (s.pressed key 0)) s.press
      (.release s.release :: strokes.flatMap Stroke.beats)
      (s.pressed key (s.firstCount term) :: s.released key (s.firstCount term) ::
        strokeRecords key term (some (s, s.firstCount term)) strokes)
  /-- The key is down and held. -/
  | held (since : Nat) (s : Stroke) (strokes : List Stroke) :
    Stroking key term none since (.release s.release :: strokes.flatMap Stroke.beats)
      (s.released key 0 :: strokeRecords key term none strokes)
  /-- The key is down and tapped. -/
  | counted (s : Stroke) (n : Nat) (strokes : List Stroke) (pos : 1 ≤ n) (le : n ≤ Tap.maxCount)
    (soon : s.release < s.press + 2 ^ 15) :
    Stroking key term (some (s.pressed key n)) s.press
      (.release s.release :: strokes.flatMap Stroke.beats)
      (s.released key n :: strokeRecords key term (some (s, n)) strokes)

/-- The beat `x` is answered: the records handed over are the first of those that were owed, and for
the rest the arbiter stands to the key in some way again. -/
def KeepsPace (km : Keymap) (a : Arbiter) (key : Position) (x : Beat) (edges : List Beat)
    (rs : List Record) : Prop :=
  ∃ (c : Option Record) (since : Nat) (now later : List Record),
    a.handle km (x.event key) = a.carried km now c ∧ rs = now ++ later ∧ since ≤ x.ms ∧
      Stroking key a.term.toNat c since edges later

/-- Outside the term of an edge, more time than the term has passed. -/
theorem term_le_of_late {u t : Nat} (order : t ≤ u) (near : u < t + 2 ^ 15)
    (late : (Time.ofMillis u).isWithin (.ofMillis t) a.term = false) : a.term.toNat ≤ u - t := by
  rw [Time.isWithin_ofMillis order near, decide_eq_false_iff_not] at late
  exact Nat.le_of_not_lt late

theorem lt_term_of_within {u t : Nat} (order : t ≤ u) (near : u < t + 2 ^ 15)
    (within : (Time.ofMillis u).isWithin (.ofMillis t) a.term = true) : u - t < a.term.toNat := by
  rw [Time.isWithin_ofMillis order near, decide_eq_true_eq] at within
  exact within

/-- **A tick** settles a hold or drops a tap, or does nothing. -/
theorem stroking_tick (hl : a.line = []) (real : key.isNowhere = false)
    (h : Stroking key a.term.toNat a.candidate since edges rs) (order : since ≤ ms)
    (next : ∀ x ∈ edges.head?, ms ≤ x.ms) : a.KeepsPace km key (.tick ms) edges rs := by
  generalize hc : a.candidate = c at h
  have kept (own : ∀ d, c = some d → d.event.key = key) (alive : a.Unexpired (.ofMillis ms)) :
      a.handle km (.tick (.ofMillis ms)) = a.carried km [] c := by
    refine hc ▸ handle_tick_kept hl (fun d hd => ?_) alive
    rw [Record.isTick, KeyEvent.isTick, own d (hc.symm.trans hd)]
    exact real
  cases h with
  | rest since strokes =>
    exact ⟨none, since, [], _, kept (by rintro d ⟨⟩) (forall_candidate_of_none hc), rfl, order,
      .rest since strokes⟩
  | held since s strokes =>
    exact ⟨none, since, [], _, kept (by rintro d ⟨⟩) (forall_candidate_of_none hc), rfl, order,
      .held since s strokes⟩
  | counted s n strokes pos le soon =>
    have alive : a.Unexpired (.ofMillis ms) := fun d hd =>
      Option.some.inj (hc.symm.trans hd) ▸ Or.inr ⟨rfl, pos⟩
    exact ⟨_, s.press, [], _, kept (fun d hd => Option.some.inj hd ▸ rfl) alive, rfl, order,
      .counted s n strokes pos le soon⟩
  | tapped s n strokes pos le short soon =>
    cases within : (Time.ofMillis ms).isWithin (.ofMillis s.release) a.term with
    | true =>
      have alive : a.Unexpired (.ofMillis ms) := fun d hd =>
        Option.some.inj (hc.symm.trans hd) ▸ Or.inl within
      exact ⟨_, s.release, [], _, kept (fun d hd => Option.some.inj hd ▸ rfl) alive, rfl, order,
        .tapped s n strokes pos le short soon⟩
    | false =>
      -- the next press comes no earlier than the tick, so it would not have continued the tap
      have fresh : strokeRecords key a.term.toNat (some (s, n)) strokes =
          strokeRecords key a.term.toNat none strokes := by
        refine strokeRecords_of_fresh key _ fun t ht => ?_
        have first := press_mem_head? ht
        have later : ms ≤ t.press := next _ first
        have late := term_le_of_late order (later.trans_lt (soon _ first)) within
        exact Stroke.count_of_late (late.trans (Nat.sub_le_sub_right later _))
      exact ⟨none, s.release, [], _, handle_tick_lapsed hl hc real rfl within, fresh, order,
        .rest s.release strokes⟩
  | undecided s strokes soon =>
    cases within : (Time.ofMillis ms).isWithin (.ofMillis s.press) a.term with
    | true =>
      have alive : a.Unexpired (.ofMillis ms) := fun d hd =>
        Option.some.inj (hc.symm.trans hd) ▸ Or.inl within
      exact ⟨_, s.press, [], _, kept (fun d hd => Option.some.inj hd ▸ rfl) alive, rfl, order,
        .undecided s strokes soon⟩
    | false =>
      have later : ms ≤ s.release := next _ rfl
      have late := term_le_of_late order (later.trans_lt soon) within
      have long : a.term.toNat ≤ s.release - s.press := late.trans (Nat.sub_le_sub_right later _)
      refine ⟨none, s.press, [s.pressed key 0], _, handle_tick_hold hl hc real rfl within, ?_,
        order, .held s.press s strokes⟩
      rw [Stroke.firstCount_of_long long, strokeRecords_of_long long]
      rfl

/-- **A press** continues a tap that was released within the term, or it is undecided. -/
theorem stroking_press (hl : a.line = []) (real : key.isNowhere = false)
    (tapKey : a.isTapHoldKey km key = true)
    (h : Stroking key a.term.toNat a.candidate since (.press ms :: edges) rs) (order : since ≤ ms)
    (soon : Beat.Soon ms edges) : a.KeepsPace km key (.press ms) edges rs := by
  generalize hc : a.candidate = c at h
  generalize he : Beat.press ms :: edges = all at h
  cases h with
  | held since s strokes => cases he
  | undecided s strokes near => cases he
  | counted s n strokes pos le near => cases he
  | rest since strokes =>
    obtain ⟨t, rest, rfl, rfl, rfl⟩ := exists_of_press he
    exact ⟨some (t.pressed key 0), t.press, [], _, handle_press_alone hl hc rfl tapKey, rfl, le_rfl,
      .undecided t rest (soon _ rfl)⟩
  | tapped s n strokes pos le short near =>
    have gap : ms < s.release + 2 ^ 15 := near (.press ms) (by rw [← he]; rfl)
    obtain ⟨t, rest, rfl, rfl, rfl⟩ := exists_of_press he
    cases within : (Time.ofMillis t.press).isWithin (.ofMillis s.release) a.term with
    | true =>
      -- one more tap, and no more than can be counted
      have count := Stroke.count_of_soon pos short (lt_term_of_within order gap within)
      have next : Tap.next ⟨n, false⟩ = ⟨min (n + 1) Tap.maxCount, false⟩ := by
        simp only [Tap.next, Tap.mk.injEq, and_true]
        split <;> omega
      have handled := handle_again km (p := ⟨key, true, .ofMillis t.press⟩) hl hc rfl rfl pos
        real rfl rfl within
      rw [show (s.released key n).tap = ⟨n, false⟩ from rfl, next, ← count] at handled
      refine ⟨some (t.pressed key _), t.press, [t.pressed key _], _, handled, rfl, le_rfl,
        .counted t _ rest ?_ ?_ (soon _ rfl)⟩
      · rw [count]
        exact le_min (Nat.le_add_left 1 n) (by decide)
      · rw [count]
        exact min_le_right _ _
    | false =>
      have late := term_le_of_late order gap within
      refine ⟨some (t.pressed key 0), t.press, [], _,
        handle_press_lapsed hl hc rfl rfl tapKey within, ?_, le_rfl,
        .undecided t rest (soon _ rfl)⟩
      rw [strokeRecords, Stroke.count_of_late late]
      rfl

/-- **A release** settles what is undecided, and ends a tap or a hold. -/
theorem stroking_release (hl : a.line = []) (room : 0 < a.backlog.capacity)
    (real : key.isNowhere = false)
    (h : Stroking key a.term.toNat a.candidate since (.release ms :: edges) rs) (order : since ≤ ms)
    (soon : Beat.Soon ms edges) : a.KeepsPace km key (.release ms) edges rs := by
  generalize hc : a.candidate = c at h
  generalize he : Beat.release ms :: edges = all at h
  cases h with
  | rest since strokes => exact absurd he (release_ne_strokes ms edges strokes)
  | tapped s n strokes => exact absurd he (release_ne_strokes ms edges strokes)
  | held since s strokes =>
    obtain ⟨rfl, rfl⟩ : ms = s.release ∧ edges = _ := by simpa using he
    exact ⟨none, s.release, [s.released key 0], _, handle_release_alone hl hc real rfl, rfl, le_rfl,
      .rest s.release strokes⟩
  | undecided s strokes near =>
    obtain ⟨rfl, rfl⟩ : ms = s.release ∧ edges = _ := by simpa using he
    cases within : (Time.ofMillis s.release).isWithin (.ofMillis s.press) a.term with
    | true =>
      have short := lt_term_of_within order near within
      rw [Stroke.firstCount_of_short short]
      exact ⟨some (s.released key 1), s.release, [s.pressed key 1, s.released key 1], _,
        handle_release_tap hl hc room rfl real rfl rfl within, rfl, le_rfl,
        .tapped s 1 strokes le_rfl (by decide) short soon⟩
    | false =>
      have long := term_le_of_late order near within
      rw [Stroke.firstCount_of_long long, strokeRecords_of_long long]
      exact ⟨none, s.release, [s.pressed key 0, s.released key 0], _,
        handle_release_hold hl hc room rfl real rfl rfl within, rfl, le_rfl,
        .rest s.release strokes⟩
  | counted s n strokes pos le near =>
    obtain ⟨rfl, rfl⟩ : ms = s.release ∧ edges = _ := by simpa using he
    let release : KeyEvent := ⟨key, false, .ofMillis s.release⟩
    cases within : (Time.ofMillis s.release).isWithin (.ofMillis s.press) a.term with
    | true =>
      have short := lt_term_of_within order near within
      exact ⟨some (s.released key n), s.release, [s.released key n], _,
        handle_release_tapped (e := release) hl hc rfl rfl pos real rfl rfl within, rfl, le_rfl,
        .tapped s n strokes pos le short soon⟩
    | false =>
      have long := term_le_of_late order near within
      rw [strokeRecords_of_long long]
      exact ⟨none, s.release, [s.released key n], _,
        handle_release_tapped (e := release) hl hc rfl rfl pos real rfl rfl within, rfl, le_rfl,
        .rest s.release strokes⟩

/-! ## All beats -/

/-- Some beats are those of the strokes, with ticks anywhere: they come in the order of their times,
and each edge comes less than half the range of the stamps after the one before it. -/
structure Tells (strokes : List Stroke) (beats : List Beat) : Prop where
  edges : beats.filter Beat.isEdge = strokes.flatMap Stroke.beats
  sorted : beats.Pairwise fun x y => x.ms ≤ y.ms
  near : (strokes.flatMap Stroke.beats).IsChain fun x y => y.ms < x.ms + 2 ^ 15

/-- The strokes are told by their edges alone, too. -/
theorem Tells.withoutTicks {strokes : List Stroke} {beats : List Beat} (h : Tells strokes beats) :
    Tells strokes (strokes.flatMap Stroke.beats) :=
  ⟨filter_isEdge_strokes strokes, h.edges ▸ h.sorted.sublist List.filter_sublist, h.near⟩

/-- Each beat is answered. -/
theorem stroking_beat {x : Beat} {beats : List Beat} (hl : a.line = [])
    (room : 0 < a.backlog.capacity) (real : key.isNowhere = false)
    (tapKey : a.isTapHoldKey km key = true)
    (h : Stroking key a.term.toNat a.candidate since ((x :: beats).filter Beat.isEdge) rs)
    (order : since ≤ x.ms) (sorted : ∀ y ∈ beats, x.ms ≤ y.ms)
    (near : ((x :: beats).filter Beat.isEdge).IsChain fun x y => y.ms < x.ms + 2 ^ 15) :
    a.KeepsPace km key x (beats.filter Beat.isEdge) rs := by
  cases x with
  | tick ms =>
    refine stroking_tick hl real h order fun y hy => sorted y ?_
    exact (List.mem_filter.mp (List.mem_of_mem_head? hy)).1
  | press ms => exact stroking_press hl real tapKey h order (List.isChain_cons.mp near).1
  | release ms => exact stroking_release hl room real h order (List.isChain_cons.mp near).1

/-- All that is owed is handed over, and nothing else is. -/
theorem run_stroking {beats : List Beat} (hl : a.line = []) (room : 0 < a.backlog.capacity)
    (real : key.isNowhere = false)
    (everywhere : km.TapHoldEverywhere a.interpreter.settings key)
    (h : Stroking key a.term.toNat a.candidate since (beats.filter Beat.isEdge) rs)
    (order : ∀ x ∈ beats, since ≤ x.ms) (sorted : beats.Pairwise fun x y => x.ms ≤ y.ms)
    (near : (beats.filter Beat.isEdge).IsChain fun x y => y.ms < x.ms + 2 ^ 15) :
    ∃ c, a.run km (beats.map (Beat.event key)) = a.carried km rs c := by
  -- by induction on the beats: each of them hands over the first of what is owed before it
  induction beats generalizing a since rs with
  | nil =>
    have none : rs = [] := by
      generalize a.candidate = c at h
      generalize he : [].filter Beat.isEdge = edges at h
      cases h with
      | undecided | held | counted => cases he
      | rest since strokes | tapped s n strokes =>
        cases strokes with
        | nil => rfl
        | cons t rest => cases he
    exact ⟨a.candidate, by rw [none, carried_nil hl]; rfl⟩
  | cons x beats ih =>
    obtain ⟨first, others⟩ := List.pairwise_cons.mp sorted
    have tapKey := isTapHoldKey_of_everywhere everywhere real
    obtain ⟨c, since', now, later, handled, rfl, soon, next⟩ :=
      stroking_beat hl room real tapKey h (order x List.mem_cons_self) first near
    have rest : (beats.filter Beat.isEdge).IsChain fun x y => y.ms < x.ms + 2 ^ 15 := by
      rw [List.filter_cons] at near
      split at near
      · exact near.tail
      · exact near
    rw [← term_carried a km now c] at next
    rw [← settings_carried a km now c] at everywhere
    obtain ⟨d, told⟩ := ih (a := (a.carried km now c).1) rfl room everywhere next
      (fun y hy => soon.trans (first y hy)) others rest
    refine ⟨d, ?_⟩
    rw [List.map_cons, run, handled, carried_append a km now later c d, told]

/-- What is handed over of one key, if nothing has interrupted it. -/
theorem dispatchesOf_carryOut (i : Interpreter) (km : Keymap) (real : key.isNowhere = false)
    (own : ∀ r ∈ rs, r.event.key = key ∧ r.tap.interrupted = false) :
    (dispatchesOf key (i.carryOut km rs).2).map (fun d => (d.given, d.settled, d.synthetic)) =
      rs.map fun r => (r, r, false) := by
  induction rs generalizing i with
  | nil => rfl
  | cons r rs ih =>
    obtain ⟨⟨same, calm⟩, others⟩ := List.forall_mem_cons.mp own
    have notTick : r.isTick = false := by
      rw [Record.isTick, KeyEvent.isTick, same]
      exact real
    have firm : Interpreter.isOverruled r false = false := by
      simp [Interpreter.isOverruled, calm]
    have settled : (i.dispatch km r false).record = r := by
      rw [Interpreter.record_dispatch i km r false notTick, firm, Bool.and_false]
      rfl
    rw [Interpreter.carryOut, ← List.singleton_append, dispatchesOf_append,
      dispatchesOf_singleton_of_eq same, List.map_append, ih _ others, List.map_cons, settled]
    rfl

theorem length_carryOut (i : Interpreter) (km : Keymap) (rs : List Record) :
    (i.carryOut km rs).2.length = rs.length := by
  induction rs generalizing i with
  | nil => rfl
  | cons r rs ih => exact congrArg Nat.succ (ih _)

/-- **The counts of strokes.** A key depends on tap or hold in all layers. There is no candidate,
nothing is in line, and there is room for one record; then the key is struck a number of times, with
ticks anywhere. The press and the release of each stroke are dispatched once, in order, as they came
and with the count of the stroke, and so they are settled; nothing else is dispatched, and nothing
waits. Without the ticks the same is dispatched, and the interpreter ends in the same state. -/
theorem counts_of_strokes (km : Keymap) (a : Arbiter) (key : Position) (strokes : List Stroke)
    (beats : List Beat) (idle : a.candidate = none) (empty : a.line = [])
    (room : 0 < a.backlog.capacity) (real : key.isNowhere = false)
    (everywhere : km.TapHoldEverywhere a.interpreter.settings key) (told : Tells strokes beats) :
    let rs := strokeRecords key a.term.toNat none strokes
    let result := a.run km (beats.map (Beat.event key))
    let bare := a.run km ((strokes.flatMap Stroke.beats).map (Beat.event key))
    rs.map Record.event = (strokes.flatMap Stroke.beats).map (Beat.event key) ∧
      (dispatchesOf key result.2).map (fun d => (d.given, d.settled, d.synthetic)) =
        rs.map (fun r => (r, r, false)) ∧
      result.2.length = rs.length ∧ result.1.line = [] ∧
      result.2 = bare.2 ∧ result.1.interpreter = bare.1.interpreter := by
  intro rs result bare
  have run {xs : List Beat} (told : Tells strokes xs) :
      ∃ c, a.run km (xs.map (Beat.event key)) = a.carried km rs c := by
    have start : Stroking key a.term.toNat a.candidate 0 (xs.filter Beat.isEdge) rs := by
      rw [idle, told.edges]
      exact .rest 0 strokes
    refine run_stroking empty room real everywhere start (fun _ _ => Nat.zero_le _) told.sorted ?_
    rw [told.edges]
    exact told.near
  obtain ⟨c, ran⟩ := run told
  obtain ⟨d, ranBare⟩ := run told.withoutTicks
  have out : result.2 = (a.interpreter.carryOut km rs).2 := congrArg Prod.snd ran
  refine ⟨event_strokeRecords key _ none strokes, ?_, ?_, ?_, ?_, ?_⟩
  · rw [out]
    exact dispatchesOf_carryOut _ km real fun r => calm_of_mem_strokeRecords
  · rw [out, length_carryOut]
  · exact congrArg (fun x => x.1.line) ran
  · exact out.trans (congrArg Prod.snd ranBare).symm
  · exact (congrArg (fun x => x.1.interpreter) ran).trans
      (congrArg (fun x => x.1.interpreter) ranBare).symm

/-- Two taps in a row, the stamps wrapping around between them; a tick drops the second one, and
another tick settles a hold. The tap after the hold is a first one. -/
theorem counts_of_two_taps_hold_tap :
    let km := Keymap.ofKeys fun _ => 0x2104
    let key : Position := ⟨0, 0⟩
    let a := start .standard 0 1
    let beats : List Beat := [.press 65500, .release 65530, .press 65560, .tick 65600,
      .release 65620, .tick 65900, .press 66000, .tick 66300, .release 66400, .press 66500,
      .release 66600]
    (dispatchesOf key (a.run km (beats.map (Beat.event key))).2).map
        (fun d => (d.given.event.pressed, d.settled.tap.count)) =
      [(true, 1), (false, 1), (true, 2), (false, 2), (true, 0), (false, 0), (true, 1),
        (false, 1)] := by
  intro km key a beats
  have bound : km.resolve (.start 0) Settings.standard key =
      .ok (.modsTap ⟨.left, 1⟩ (.key 4)) := by decide +kernel
  have everywhere : km.TapHoldEverywhere a.interpreter.settings key := fun layers =>
    ⟨_, (Keymap.uniform_ofKeys _ _ key layers (.start 0)).trans bound, rfl⟩
  have told : Tells [⟨65500, 65530⟩, ⟨65560, 65620⟩, ⟨66000, 66400⟩, ⟨66500, 66600⟩] beats :=
    ⟨rfl, by decide, by decide⟩
  obtain ⟨-, dispatched, -⟩ := counts_of_strokes km a key _ beats rfl rfl (by decide) (by decide)
    everywhere told
  have shown := congrArg (List.map fun x : Record × Record × Bool =>
    (x.1.event.pressed, x.2.1.tap.count)) dispatched
  rw [List.map_map, List.map_map] at shown
  exact shown.trans (by decide +kernel)

end Arbiter

end TapHold
