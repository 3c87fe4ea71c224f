import TapHold.Proofs.Arbiter.Counted
import TapHold.Proofs.Arbiter.Turns

/-!
# Presses and releases agree on the tap

Where the layers do not change the kind of a key with modifiers, the record that follows the press
of a key has the count with which the press was settled (`Dispatched.Pairs`): none if the press was
a hold, or was tapped and turned out to be a hold, and otherwise the number of taps in a row. That
record is the release of the key, or the one that the arbiter makes for its tap.

The count of a release that is still awaited stands in line, or with the candidate (`DueWith`).
`PassesOn` says what a step means for it.
-/

set_option autoImplicit false

namespace TapHold

/-- What may follow a record of a key, with the count that it has after a press. -/
structure Dispatched.Pairs (x y : Dispatched) : Prop extends x.Precedes y where
  count : x.given.event.pressed = true → y.given.tap.count = x.settled.tap.count

namespace Arbiter

variable {km : Keymap} {settings : Settings} {a b : Arbiter} {c r : Record} {rest : List Record}
  {out : List Emission} {down down' : Position → Bool} {arrived : List KeyEvent} {e : KeyEvent}
  {key : Position} {t : Tap} {d : Dispatched} {ds : List Dispatched} {n : Nat}

/-! ## No press is overruled late -/

/-- Where the layers do not change the kind of a key with modifiers, no tap after the first turns
out to be a hold. -/
theorem isCalm_move (o : Orderly down a) (q : Quiet km a) (m : Move km a out b)
    (kept : ∀ x ∈ out, x ≠ Emission.overflow) : ∀ x ∈ out, x.IsCalm key := by
  intro x hx
  refine ⟨kept x hx, ?_⟩
  rintro d rfl -
  rcases emits_move o m (fun lost => kept _ (lost ▸ List.mem_singleton_self _) rfl) with
    ⟨rfl, -⟩ | ⟨r, synthetic, -, -, one, -⟩
  · cases hx
  rw [one, List.mem_singleton] at hx
  obtain rfl := Emission.dispatched.inj hx
  rw [← Bool.not_eq_true]
  intro late
  obtain ⟨-, c, e, es, hc, pos, front, pressed, same, modsTap, press⟩ := late_move o m one late
  rw [same, q.once hc pos (same ▸ modsTap) front pressed same] at press
  cases press

/-! ## Counts on their way -/

/-- The release of a key is due, and wherever its count stands it is `n`. -/
structure DueWith (down : Position → Bool) (a : Arbiter) (key : Position) (n : Nat) : Prop where
  due : Due down a key (decide (0 < n))
  line : ∀ s ∈ a.line, s.event.key = key → 0 < s.tap.count → s.tap.count = n
  held : ∀ t, HeldTap a key t → t.count = n

/-- What a step means for the counts of a key. -/
structure PassesOn (down : Position → Bool) (a : Arbiter) (out : List Emission)
    (down' : Position → Bool) (b : Arbiter) (key : Position) : Prop where
  turn : Turn down a out down' b key
  due : ∀ tapped, Due down a key tapped → Due down' b key tapped ∨ Released out key tapped
  press : ∀ d, out = [.dispatched d] → d.given.event.key = key → d.given.event.pressed = true →
    Due down' b key (decide (0 < d.settled.tap.count)) ∧
      ∀ s ∈ b.line, s.event.key = key → 0 < s.tap.count → s.tap = d.settled.tap
  line : ∀ s ∈ b.line, s.event.key = key → 0 < s.tap.count →
    s ∈ a.line ∨ ∃ d, d.given.event.pressed = true ∧ d.given.event.key = key ∧ out = [.dispatched d]

/-- A release that is dispatched has the count that was due. -/
theorem DueWith.count_of_release (h : DueWith down a key n) (passes : PassesOn down a out down' b key)
    (hd : out = [.dispatched d]) (isKey : d.given.event.key = key)
    (up : d.given.event.pressed = false) : d.given.tap.count = n := by
  -- a made release has the count of the tap it ends; the key's own has it from the line or the tap
  cases passes.turn with
  | other none next held =>
    rw [hd, dispatchesOf_singleton_of_eq isKey] at none
    cases none
  | made x one isKey synthetic up next source held =>
    obtain rfl := Emission.eq_of_dispatched (one.symm.trans hd)
    exact h.held _ source
  | own x one isKey real before next source held =>
    obtain rfl := Emission.eq_of_dispatched (one.symm.trans hd)
    rcases source up with waits | tapping
    · by_cases counted : 0 < x.given.tap.count
      · exact h.line x.given waits isKey counted
      -- the release of a hold has no count, so none is due
      rcases passes.due _ h.due with due | ⟨y, hy, -, -, isTap⟩
      · have press := due.next
        rw [next, up] at press
        cases press
      · obtain rfl := Emission.eq_of_dispatched (hd.symm.trans hy)
        rw [decide_eq_decide] at isTap
        omega
    · exact h.held _ tapping

/-- What is due for a key of which no record is dispatched stays due, with its count. -/
theorem DueWith.keep (h : DueWith down a key n) (passes : PassesOn down a out down' b key)
    (none : dispatchesOf key out = [])
    (held : ∀ t, HeldTap b key t → HeldTap a key t) : DueWith down' b key n where
  due := by
    rcases passes.due _ h.due with due | ⟨d, hd, isKey, -⟩
    · exact due
    · rw [hd, dispatchesOf_singleton_of_eq isKey] at none
      cases none
  line := by
    intro s hs isKey counted
    rcases passes.line s hs isKey counted with waits | ⟨d, -, isKey', hd⟩
    · exact h.line s waits isKey counted
    · rw [hd, dispatchesOf_singleton_of_eq isKey'] at none
      cases none
  held := fun t ht => h.held t (held t ht)

/-- The press of a key makes its release due, with the count of the press. -/
theorem dueWith_of_press (passes : PassesOn down a out down' b key) (hd : out = [.dispatched d])
    (isKey : d.given.event.key = key) (pressed : d.given.event.pressed = true)
    (held : ∀ t, HeldTap b key t → d.settled.tap = t) :
    DueWith down' b key d.settled.tap.count where
  due := (passes.press d hd isKey pressed).1
  line := fun s hs same counted =>
    congrArg Tap.count ((passes.press d hd isKey pressed).2 s hs same counted)
  held := fun t ht => (congrArg Tap.count (held t ht)).symm

/-- The counts of the dispatched records of a key match, and so does the one that is due. -/
structure Matched (down : Position → Bool) (a : Arbiter) (key : Position) (ds : List Dispatched) :
    Prop where
  chain : ds.IsChain fun x y =>
    x.given.event.pressed = true → y.given.tap.count = x.settled.tap.count
  due : ∀ x, ds.getLast? = some x → x.given.event.pressed = true →
    DueWith down a key x.settled.tap.count

theorem Matched.push (h : Matched down a key ds)
    (count : ∀ x, ds.getLast? = some x → x.given.event.pressed = true →
      d.given.tap.count = x.settled.tap.count)
    (due : d.given.event.pressed = true → DueWith down' b key d.settled.tap.count) :
    Matched down' b key (ds ++ [d]) where
  chain := by
    refine h.chain.append (List.isChain_singleton d) ?_
    intro x hx y hy
    obtain rfl : d = y := Option.some.inj hy
    exact count x hx
  due := by
    intro x hx
    obtain rfl : d = x := Option.some.inj (List.getLast?_concat.symm.trans hx)
    exact due

theorem Matched.step (h : Matched down a key ds) (takes : Takes down a key ds)
    (passes : PassesOn down a out down' b key) : Matched down' b key (ds ++ dispatchesOf key out) := by
  have released {d : Dispatched} (hd : out = [.dispatched d]) (isKey : d.given.event.key = key)
      (up : d.given.event.pressed = false) : ∀ x, ds.getLast? = some x →
        x.given.event.pressed = true → d.given.tap.count = x.settled.tap.count := by
    intro x hx pressed
    exact (h.due x hx pressed).count_of_release passes hd isKey up
  cases passes.turn with
  | other none next held =>
    rw [none, List.append_nil]
    exact ⟨h.chain, fun x hx pressed => (h.due x hx pressed).keep passes none held⟩
  | made d one isKey synthetic up next source held =>
    rw [one, dispatchesOf_singleton_of_eq isKey]
    exact h.push (released one isKey up) fun pressed => by cases up.symm.trans pressed
  | own d one isKey real before next source held =>
    rw [one, dispatchesOf_singleton_of_eq isKey]
    cases pressed : d.given.event.pressed with
    | false =>
      exact h.push (released one isKey pressed) fun isPress => by cases pressed.symm.trans isPress
    | true =>
      refine h.push (fun x hx isPress => ?_) fun _ =>
        dueWith_of_press passes one isKey pressed fun t ht => (held t ht).2
      -- no press follows a press
      have edge := before.symm.trans takes.next
      rw [hx, nextEdge, isPress, pressed] at edge
      cases edge

/-! ## Every step passes the counts on -/

/-- When a press is dispatched, all that stands of its key in line stood behind it, or takes part in
its tap. -/
theorem line_of_press (o : Orderly down a) (m : Move km a out b) (hd : out = [.dispatched d])
    (pressed : d.given.event.pressed = true) :
    ∃ x xs, a.undecided?.toList ++ a.line = x :: xs ∧ x.event.key = d.given.event.key ∧
      ∀ s ∈ b.line, s ∈ xs ∨ s.tap = d.settled.tap := by
  cases presses_of_move o m hd pressed with
  | @hold c effect real hc hu =>
    refine ⟨c, a.line, by rw [undecided?_eq_some hc hu]; rfl, rfl, fun s hs => Or.inl ?_⟩
    rwa [line_withCandidate, line_dispatch] at hs
  | @tap c r rest effect real hc hu hl own =>
    refine ⟨c, a.line, by rw [undecided?_eq_some hc hu]; rfl, rfl, fun s hs => ?_⟩
    rcases List.mem_cons.mp hs with rfl | behind
    · exact Or.inr rfl
    · exact Or.inl (hl ▸ List.mem_cons_of_mem r behind)
  | @pass r rest effect real free hl zero =>
    exact ⟨r, rest, by rw [free, hl]; rfl, rfl, fun s hs => Or.inl hs⟩
  | @startTap r rest effect real free hl own =>
    refine ⟨r, rest, by rw [free, hl]; rfl, rfl, fun s hs => ?_⟩
    rcases mem_modifyFirstIn hs with kept | ⟨t, -, -, rfl⟩
    · exact Or.inl kept
    · exact Or.inr rfl
  | @again c r rest effect real hc up pos calm hl same =>
    have free := undecided?_of_decided hc (Record.isUndecided_of_up up)
    exact ⟨r, rest, by rw [free, hl]; rfl, rfl, fun s hs => Or.inl hs⟩

/-- Behind a record of a key no other has a count. -/
theorem CountedFirst.zero {rs : List Record} {s : Record} (h : CountedFirst (r :: rs)) (hs : s ∈ rs)
    (same : r.event.key = s.event.key) : s.tap.count = 0 :=
  (List.pairwise_cons.mp h).1 s hs same

theorem passesOn_move (o : Orderly down a) (ch : Chronological a) (q : Quiet km a)
    (counted : Counted a) (m : Move km a out b) (kept : ∀ x ∈ out, x ≠ Emission.overflow) (key : Position) :
    PassesOn down a out down b key where
  turn := turn_move o m (isCalm_move o q m kept)
  due := fun tapped due =>
    due_move o m (fun lost => kept _ (lost ▸ List.mem_singleton_self _) rfl) due
  press := by
    rintro d hd rfl pressed
    constructor
    · cases settled : d.settled.tap.count with
      | zero => exact due_of_hold o ch q counted m hd pressed settled
      | succ n =>
        rw [decide_eq_true (Nat.succ_pos n)]
        exact due_of_tap o ch m hd pressed (by omega)
    · -- behind the first record of a key none has a count, so a count was given by this press
      intro s hs same pos
      obtain ⟨x, xs, front, isKey, line⟩ := line_of_press o m hd pressed
      rw [Counted, front] at counted
      rcases line s hs with behind | taken
      · exact absurd (counted.zero behind (isKey.trans same.symm)) (Nat.ne_of_gt pos)
      · exact taken
  line := by
    intro s hs isKey pos
    rcases line_move m s hs with waits | ⟨c, held, undecided, own, rfl, -⟩
    · exact Or.inl waits
    · refine Or.inr ⟨_, ?_, ?_, emitted_dispatch (r := c.withCount 1) a km (o.real _ held) false⟩
      · exact (Record.isUndecided_iff.mp undecided).1
      · exact (key_of_isTapRelease own).symm.trans isKey

theorem passesOn_arrival (everywhere : km.ModsTapsEverywhere a.interpreter.settings)
    (o : Orderly down a) (ch : Chronological a) (scanned : Scanned km a) (counted : Counted a)
    (arrival : Arrival km e a out b) (real : e.isTick = false) (next : e.pressed = !down e.key)
    (late : ∀ x ∈ a.heldEvents, e.time.isNotBefore x.time = true) (key : Position) :
    PassesOn down a out (e.after down) b key where
  turn := turn_arrival o arrival next key
  due := fun tapped due => Or.inl (due_arrival o arrival next due)
  press := by
    rintro d hd rfl pressed
    constructor
    · cases settled : d.settled.tap.count with
      | zero => exact due_of_hold_arrival o counted arrival next hd settled
      | succ n =>
        rw [decide_eq_true (Nat.succ_pos n)]
        rcases due_of_tap_arrival o ch scanned arrival real next late hd (by omega) with
          due | ⟨has, other, -⟩
        · exact due
        · have modsTap := (a.interpreter.isModsTapKeyAt_iff km d.given.event.key).mpr
            (everywhere d.given.event.key has a.interpreter.layers)
          cases other.symm.trans modsTap
    · intro s hs same pos
      cases arrival with
      | join loose alone => cases hd
      | @tap c hc hu own =>
        obtain ⟨effect, rfl⟩ := eq_of_dispatchTap (o.real_candidate hc) hd
        rw [counted_of_undecided hc hu] at counted
        rcases List.mem_append.mp hs with waits | last
        · exact absurd (counted.zero waits same.symm) (Nat.ne_of_gt pos)
        · rw [List.mem_singleton.mp last]
  line := by
    intro s hs isKey pos
    cases arrival with
    | join loose alone =>
      rcases List.mem_append.mp hs with waits | last
      · exact Or.inl waits
      · rw [List.mem_singleton.mp last] at pos
        exact absurd pos (Nat.lt_irrefl 0)
    | @tap c hc hu own =>
      rcases List.mem_append.mp hs with waits | last
      · exact Or.inl waits
      · rw [List.mem_singleton.mp last] at isKey
        have real : c.isTick = false := o.real_candidate hc
        refine Or.inr ⟨_, (Record.isUndecided_iff.mp hu).1, ?_,
          emitted_dispatch (r := c.withCount 1) a km real false⟩
        exact (key_of_isTapRelease own).symm.trans isKey

/-! ## Runs -/

/-- What holds of the counts of all keys while events are processed. -/
structure Paired (km : Keymap) (settings : Settings) (down : Position → Bool)
    (arrived : List KeyEvent) (out : List Emission) (a : Arbiter) : Prop where
  orderly : Orderly down a
  inTurns : ∀ key, InTurns key down arrived out a
  settings : a.interpreter.settings = settings
  quiet : Quiet km a
  chronological : Chronological a
  scanned : Scanned km a
  counted : Counted a
  matched : ∀ key, Matched down a key (dispatchesOf key out)

theorem kept_paired (everywhere : km.ModsTapsEverywhere settings) :
    Kept km isTimely (· ≠ Emission.overflow) (Paired km settings) where
  real := fun h _ hc => h.orderly.real_candidate hc
  stays := isTimely_move
  move := fun {_ _ _ a _ _} m kept h => by
    have here : km.ModsTapsEverywhere a.interpreter.settings := h.settings ▸ everywhere
    exact {
      orderly := orderly_move m h.orderly
      inTurns := fun key =>
        (kept_inTurns km key).move m (isCalm_move h.orderly h.quiet m kept) (h.inTurns key)
      settings := (settings_move m).trans h.settings
      quiet := quiet_move here h.orderly m h.quiet
      chronological := chronological_move m h.chronological
      scanned := scanned_move h.orderly m h.scanned
      counted := counted_move h.orderly h.chronological m h.counted
      matched := fun key => by
        rw [dispatchesOf_append]
        exact (h.matched key).step (h.inTurns key).takes
          (passesOn_move h.orderly h.chronological h.quiet h.counted m kept key) }
  arrival := fun {_ _ _ a _ _ _} arrival real next timely h => by
    have here : km.ModsTapsEverywhere a.interpreter.settings := h.settings ▸ everywhere
    have late := isTimely_iff.mp timely
    exact {
      orderly := orderly_arrival arrival real next h.orderly
      inTurns := fun key => (kept_inTurns km key).arrival arrival real next rfl (h.inTurns key)
      settings := (settings_arrival arrival).trans h.settings
      quiet := quiet_arrival here h.orderly arrival
      chronological := chronological_arrival arrival late h.chronological
      scanned := scanned_arrival arrival h.scanned
      counted := counted_arrival here h.orderly h.chronological h.scanned arrival next late
        h.counted
      matched := fun key => by
        rw [dispatchesOf_append]
        exact (h.matched key).step (h.inTurns key).takes
          (passesOn_arrival here h.orderly h.chronological h.scanned h.counted arrival real next late
            key) }

theorem paired_start (km : Keymap) (settings : Settings) (layer : LayerNumber) (capacity : Nat) :
    Paired km settings allUp [] [] (start settings layer capacity) where
  orderly := orderly_of_nothing rfl rfl
  inTurns := fun key => inTurns_start key settings layer capacity
  settings := rfl
  quiet := fun _ none => by cases none
  chronological := List.Pairwise.nil
  scanned := fun _ none => by cases none
  counted := List.Pairwise.nil
  matched := fun _ => ⟨List.isChain_nil, fun _ none => by cases none⟩

/-- Records in turn whose counts match are pairs. -/
theorem Matched.isChain_pairs (h : Matched down a key ds) (turns : ds.IsChain Dispatched.Precedes) :
    ds.IsChain Dispatched.Pairs := by
  have count := h.chain
  rw [List.isChain_iff_getElem] at turns count ⊢
  exact fun i hi => ⟨turns i hi, count i hi⟩

/-- Without extensions and overflows, and where the layers do not change the kind of a key with
modifiers, the records of each key are handed over in turn, a press first, and what follows a press
has the count with which the press was settled. It is the release of the key, or the one that the
arbiter makes for its tap and that the release of the key follows. The others are the first events
of the key that came, in order. -/
theorem isChain_pairs_of_run (everywhere : km.ModsTapsEverywhere settings) (layer : LayerNumber)
    (capacity : Nat) (es : List KeyEvent)
    (timely : timely km (start settings layer capacity) es = true)
    (kept : Emission.overflow ∉ ((start settings layer capacity).run km es).2) :
    let done := ((start settings layer capacity).run km es).2
    let last := ((start settings layer capacity).run km es).1
    (∀ key : Position,
      (dispatchesOf key done).IsChain Dispatched.Pairs ∧
      (∀ d, (dispatchesOf key done).head? = some d →
        d.given.event.pressed = true ∧ d.synthetic = false) ∧
      ((dispatchesOf key done).filter fun d => !d.synthetic).map (fun d => d.given.event) <+:
        (realEvents es).filter fun e => e.key = key) ∧
    ∀ (η : Type) [Host η] (host : η),
      es.foldl (fun kb e => kb.process km e)
          (Keyboard.start settings layer capacity host NoHooks.none) =
        ⟨last, (Outlet.mk host NoHooks.none []).emitAll done⟩ := by
  intro done last
  refine ⟨fun key => ?_, fun η _ host => Keyboard.foldl_process _ km es rfl⟩
  have rested : (start settings layer capacity).Rested := fun _ => rfl
  have fine : ∀ x ∈ done, x ≠ Emission.overflow := by
    rintro x hx rfl
    exact kept hx
  have h := (kept_paired everywhere).run es rested timely fine
    (paired_start km settings layer capacity)
  have turns := h.inTurns key
  exact ⟨(h.matched key).isChain_pairs turns.takes.chain, turns.takes.first, turns.isPrefix⟩

/-- A key that is control when held is tapped, then held down while another key is typed. Its first
release has the count of its first press; the second press waits and is settled as a hold. -/
theorem isChain_pairs_of_held_run :
    let km := Keymap.ofKeys fun key => if key = ⟨0, 0⟩ then 0x2104 else 0x0005
    let es : List KeyEvent :=
      [⟨⟨0, 0⟩, true, ⟨10⟩⟩, ⟨⟨0, 0⟩, false, ⟨20⟩⟩, ⟨⟨0, 1⟩, true, ⟨30⟩⟩, ⟨⟨0, 1⟩, false, ⟨40⟩⟩,
        ⟨⟨0, 0⟩, true, ⟨50⟩⟩, ⟨⟨0, 1⟩, true, ⟨60⟩⟩, ⟨⟨0, 1⟩, false, ⟨70⟩⟩, ⟨⟨0, 0⟩, false, ⟨80⟩⟩]
    let done := ((start .standard 0 8).run km es).2
    km.ModsTapsEverywhere .standard ∧ timely km (start .standard 0 8) es = true ∧
      Emission.overflow ∉ done ∧
      (dispatchesOf ⟨0, 0⟩ done).map (fun d => (d.given.event.pressed, d.settled.tap.count)) =
        [(true, 1), (false, 1), (true, 0), (false, 0)] ∧
      (dispatchesOf ⟨0, 0⟩ done).IsChain Dispatched.Pairs := by
  intro km es done
  have everywhere : km.ModsTapsEverywhere .standard :=
    (Keymap.uniform_ofKeys _ _).modsTapsEverywhere
  have inOrder : timely km (start .standard 0 8) es = true := by decide +kernel
  have kept : Emission.overflow ∉ done := by decide +kernel
  have pairs := (isChain_pairs_of_run everywhere 0 8 es inOrder kept).1 ⟨0, 0⟩
  exact ⟨everywhere, inOrder, kept, by decide +kernel, pairs.1⟩

end Arbiter

end TapHold
