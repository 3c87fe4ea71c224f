import TapHold.Host.CallLog
import TapHold.Keymap.Tables
import TapHold.Proofs.Keyboard.Traced

/-!
# An undecided press has not been dispatched

What is handed over of a key is always the event that comes next after those of its key that were
dispatched for the last time (`AtPlace`), and so is the undecided candidate. Hence its press has not
been handed over yet, unless as a tap after the first that turned out to be a hold
(`undispatched_of_undecided`): such a press stays the candidate, where any other press that is
handed over is dispatched for the last time (`dispatched_undecided`).
-/

set_option autoImplicit false

namespace TapHold

/-- The events of a key that came since everything was dropped for the last time. -/
def eventsOf (key : Position) (notes : List Note) : List KeyEvent :=
  (arrivals (sinceDrop notes)).filter fun e => e.key = key

/-- How many of them have been dispatched for the last time. -/
def finished (key : Position) (notes : List Note) : Nat :=
  ((finalEvents (emissions (sinceDrop notes))).filter fun e => e.key = key).length

namespace Arbiter

variable {km : Keymap} {down : Position → Bool} {arrived es : List KeyEvent} {out : List Emission}
  {a b : Arbiter} {e : KeyEvent} {d : Dispatched}

/-- The events of every key keep their order. -/
structure InOrder (down : Position → Bool) (arrived : List KeyEvent) (out : List Emission)
    (a : Arbiter) : Prop where
  orderly : Orderly down a
  order : ∀ key, KeepsOrder key arrived out a

/-- The record is the event of its key that comes next after those that were dispatched for the last
time. -/
def AtPlace : Law := fun arrived out d => d.synthetic = false →
  (arrived.filter fun e => e.key = d.given.event.key)[((finalEvents out).filter fun e =>
    e.key = d.given.event.key).length]? = some d.given.event

/-- The first event that is left of a key stands behind those that were dispatched for the last
time. -/
theorem getElem?_of_first {key : Position} {done : List KeyEvent}
    (order : (done ++ es).filter (fun e => e.key = key) = arrived.filter fun e => e.key = key)
    (first : (es.filter fun e => e.key = key).head? = some e) :
    (arrived.filter fun e => e.key = key)[(done.filter fun e => e.key = key).length]? = some e := by
  rw [← order, List.filter_append, List.getElem?_append_right (Nat.le_refl _), Nat.sub_self,
    ← List.head?_eq_getElem?]
  exact first

/-- What comes later changes no place. -/
theorem getElem?_append_of_some {α : Type} {xs : List α} {n : Nat} {x : α} (ys : List α)
    (h : xs[n]? = some x) : (xs ++ ys)[n]? = some x := by
  obtain ⟨less, -⟩ := List.getElem?_eq_some_iff.mp h
  rw [List.getElem?_append_left less]
  exact h

/-- A record that a move hands over is the first awaited event of its key. -/
theorem first_awaited (o : Orderly down a) (m : Move km a [.dispatched d] b)
    (real : d.synthetic = false) :
    (a.awaited.filter fun e => e.key = d.given.event.key).head? = some d.given.event := by
  have one : dispatchedEvents [.dispatched d] = [d.given.event] := by
    simp [dispatchedEvents, Emission.event?, real]
  have flow := flow_move o m
  generalize b.awaited = left at flow
  cases flow with
  | inOrder h =>
    rw [h, one, List.singleton_append, List.filter_cons_of_pos (by simp)]
    rfl
  | overtake h one' up other =>
    obtain rfl := List.singleton_inj.mp (one.symm.trans one')
    have none : List.filter (fun s : KeyEvent => decide (s.key = d.given.event.key)) _ = [] :=
      List.filter_eq_nil_iff.mpr fun s hs => by simpa using other s hs
    rw [h, List.filter_append, none, List.nil_append, List.filter_cons_of_pos (by simp)]
    rfl
  | twice h one' pressed hc pos same modsTap press late =>
    obtain rfl := List.singleton_inj.mp (one.symm.trans one')
    rw [h, List.filter_cons_of_pos (by simp)]
    rfl

theorem first_arriving (o : Orderly down a) (arrival : Arrival km e a [.dispatched d] b)
    (real : d.synthetic = false) :
    ((a.awaited ++ [e]).filter fun e => e.key = d.given.event.key).head? = some d.given.event := by
  have one : dispatchedEvents [.dispatched d] = [d.given.event] := by
    simp [dispatchedEvents, Emission.event?, real]
  rw [flow_arrival o arrival, one, List.singleton_append, List.filter_cons_of_pos (by simp)]
  rfl

theorem traced_inOrder (km : Keymap) : Traced km (fun _ _ => true) InOrder AtPlace where
  real := fun h _ hc => h.orderly.real_candidate hc
  stays := fun _ admitted => admitted
  move := fun {_ _ _ _ out' _} m fine h => by
    have kept : out' ≠ [.overflow] := ne_overflow_of_fine fine
    exact ⟨orderly_move m h.orderly, fun key => keepsOrder_move h.orderly m kept (h.order key)⟩
  arrival := fun arrival real next _ h =>
    ⟨orderly_arrival arrival real next h.orderly,
      fun key => keepsOrder_arrival h.orderly arrival (h.order key)⟩
  drop := fun {_ _ _ _ b} _ hc hl _ => by
    have empty : b.awaited = [] := by
      rw [awaited_of_free (undecided?_of_none hc), hl]
      rfl
    refine ⟨orderly_of_nothing hc hl, fun key => ?_⟩
    rw [KeepsOrder, empty]
    rfl
  interpreter := fun _ h _ =>
    ⟨⟨h.orderly.real, h.orderly.fresh, h.orderly.alternates, h.orderly.tapped⟩, h.order⟩
  handed := fun m h real => getElem?_of_first (h.order _) (first_awaited h.orderly m real)
  arriving := fun {_ arrived _ a d _ e} arrival _ _ _ h real => by
    refine getElem?_of_first ?_ (first_arriving h.orderly arrival real)
    rw [← List.append_assoc, List.filter_append, h.order, ← List.filter_append]
  more := fun es h real => by
    rw [List.filter_append]
    exact getElem?_append_of_some _ (h real)

theorem inOrder_start (settings : Settings) (layer : LayerNumber) (capacity : Nat) :
    InOrder allUp [] [] (start settings layer capacity) where
  orderly := orderly_of_nothing rfl rfl
  order := fun _ => rfl

end Arbiter

/-- A record of the key that is neither made by the arbiter nor dispatched again counts. -/
theorem finished_lt_of_final {pre post : List Note} {d : Dispatched} (final : d.isFinal = true)
    (kept : ∀ n ∈ post, n.drops = false) :
    finished d.given.event.key pre <
      finished d.given.event.key (pre ++ .emitted (.dispatched d) :: post) := by
  have calm : ∀ n ∈ Note.emitted (.dispatched d) :: post, n.drops = false :=
    List.forall_mem_cons.mpr ⟨rfl, kept⟩
  have one : finalEvents (emissions (.emitted (.dispatched d) :: post)) =
      d.given.event :: finalEvents (emissions post) := by
    show finalEvents ([.dispatched d] ++ emissions post) = _
    rw [finalEvents_append, finalEvents_singleton, if_pos final]
    rfl
  unfold finished
  rw [sinceDrop_append pre calm, emissions_append, finalEvents_append, one, List.filter_append,
    List.length_append, List.filter_cons_of_pos (by simp), List.length_cons]
  omega

namespace Keyboard

/-- Without extensions, the press of an undecided candidate is the event of its key that comes next
after those that were dispatched for the last time. Every record that was handed over since the last
drop, and that the arbiter did not make, was in the same way the next event of its key. It is never
handed over again, nor does it become the candidate, because from then on it counts among those that
were dispatched for the last time; the exception is a tap after the first that turned out to be a
hold. -/
theorem undispatched_of_undecided {η : Type} [Host η] (km : Keymap) (settings : Settings)
    (layer : LayerNumber) (capacity : Nat) (host : η) (calls : List (Call η))
    (turns : (start settings layer capacity host NoHooks.none).admitsCalls (fun _ _ => true) km
      allUp calls = true) :
    let first := start settings layer capacity host NoHooks.none
    let told := first.journal km calls
    (∀ c, (calls.foldl (call km) first).arbiter.candidate = some c → c.isUndecided = true →
      (eventsOf c.event.key told)[finished c.event.key told]? = some c.event) ∧
    ∀ pre d mid post, told = pre ++ .emitted (.dispatched d) :: (mid ++ post) →
      (∀ n ∈ mid ++ post, n.drops = false) → d.synthetic = false →
        (eventsOf d.given.event.key told)[finished d.given.event.key pre]? = some d.given.event ∧
          (d.isLateHold = false → finished d.given.event.key pre <
            finished d.given.event.key (pre ++ .emitted (.dispatched d) :: mid)) := by
  intro first told
  have trace := (Arbiter.traced_inOrder km).calls settings layer capacity host calls turns
    (Arbiter.inOrder_start settings layer capacity)
  refine ⟨fun c hc hu => ?_, fun pre d mid post split kept real => ⟨?_, fun notLate => ?_⟩⟩
  · -- the undecided candidate is the first awaited event of all
    refine Arbiter.getElem?_of_first (trace.now.order c.event.key) ?_
    rw [Arbiter.awaited_of_undecided hc hu, List.filter_cons_of_pos (by simp)]
    rfl
  · have place : (eventsOf d.given.event.key pre)[finished d.given.event.key pre]? =
        some d.given.event := trace.each pre d (mid ++ post) split real
    have longer : eventsOf d.given.event.key told = eventsOf d.given.event.key pre ++
        (arrivals (mid ++ post)).filter fun e => e.key = d.given.event.key := by
      have calm : ∀ n ∈ Note.emitted (.dispatched d) :: (mid ++ post), n.drops = false :=
        List.forall_mem_cons.mpr ⟨rfl, kept⟩
      have later : arrivals (.emitted (.dispatched d) :: (mid ++ post)) = arrivals (mid ++ post) :=
        rfl
      rw [eventsOf, split, sinceDrop_append pre calm, arrivals_append, List.filter_append, later]
      rfl
    rw [longer]
    exact Arbiter.getElem?_append_of_some _ place
  · have final : d.isFinal = true := by simp [Dispatched.isFinal, real, notLate]
    exact finished_lt_of_final final fun n hn => kept n (List.mem_append_left _ hn)

/-- A key that is control when held is typed around a plain key: its tap is a hold, and when it goes
down again, that press is undecided and comes after all that was handed over. -/
theorem undispatched_of_scanned_run :
    let km := Keymap.ofKeys fun key =>
      if key = ⟨0, 0⟩ then 0x812c else if key = ⟨0, 1⟩ then 0x2104 else 0x0005
    let calls : List (Call CallLog) :=
      [.event ⟨⟨0, 0⟩, true, ⟨10⟩⟩, .event ⟨⟨0, 1⟩, true, ⟨20⟩⟩, .event ⟨⟨0, 2⟩, true, ⟨30⟩⟩,
        .event ⟨⟨0, 1⟩, false, ⟨40⟩⟩, .event ⟨⟨0, 1⟩, true, ⟨50⟩⟩]
    let first := start .standard 0 8 CallLog.empty NoHooks.none
    let told := first.journal km calls
    let c : Record := ⟨⟨⟨0, 1⟩, true, ⟨50⟩⟩, ⟨0, false⟩⟩
    let pressed : KeyEvent := ⟨⟨0, 1⟩, true, ⟨20⟩⟩
    let hold : Dispatched :=
      ⟨⟨pressed, ⟨1, false⟩⟩, ⟨pressed, ⟨0, false⟩⟩, .request (.call (.addModifiers 1)), false⟩
    first.admitsCalls (fun _ _ => true) km allUp calls = true ∧
      (calls.foldl (call km) first).arbiter.candidate = some c ∧ c.isUndecided = true ∧
      told = told.take 5 ++ .emitted (.dispatched hold) :: (told.drop 6 ++ []) ∧
      (eventsOf ⟨0, 1⟩ told)[finished ⟨0, 1⟩ told]? = some c.event ∧
      (eventsOf ⟨0, 1⟩ told)[finished ⟨0, 1⟩ (told.take 5)]? = some pressed ∧
      finished ⟨0, 1⟩ (told.take 5) <
        finished ⟨0, 1⟩ (told.take 5 ++ .emitted (.dispatched hold) :: told.drop 6) := by
  intro km calls first told c pressed hold
  have turns : first.admitsCalls (fun _ _ => true) km allUp calls = true := by decide +kernel
  have candidate : (calls.foldl (call km) first).arbiter.candidate = some c := by decide +kernel
  have split : told = told.take 5 ++ .emitted (.dispatched hold) :: (told.drop 6 ++ []) := by
    decide +kernel
  have kept : ∀ n ∈ told.drop 6 ++ [], n.drops = false := by decide +kernel
  obtain ⟨next, handed⟩ :=
    undispatched_of_undecided km .standard 0 8 CallLog.empty calls turns
  obtain ⟨place, before⟩ := handed _ hold _ [] split kept rfl
  exact ⟨turns, candidate, rfl, split, next c candidate rfl, place, before rfl⟩

/-- A key is tapped while layers go on behind it, so that its second tap finds it bound to control:
the tap is a hold, since another press waits, and yet its press stays the undecided candidate. -/
theorem dispatched_undecided :
    let table : List (List (List Word)) :=
      [[[0x812c, 0x822c, 0x842d, 0x83f5, 0x0005]], [[1, 1, 1, 1, 1]], [[1, 1, 1, 1, 1]],
        [[1, 1, 0x2104, 1, 1]]]
    let km := Tables.keymap ⟨table, []⟩
    let calls : List (Call CallLog) :=
      [.event ⟨⟨0, 0⟩, true, ⟨0⟩⟩, .event ⟨⟨0, 1⟩, true, ⟨10⟩⟩, .event ⟨⟨0, 2⟩, true, ⟨20⟩⟩,
        .event ⟨⟨0, 3⟩, true, ⟨30⟩⟩, .event ⟨⟨0, 2⟩, false, ⟨40⟩⟩, .event ⟨⟨0, 2⟩, true, ⟨50⟩⟩,
        .event ⟨⟨0, 4⟩, true, ⟨60⟩⟩, .tick ⟨210⟩]
    let first := start .standard 0 8 CallLog.empty NoHooks.none
    let told := first.journal km calls
    let pressed : KeyEvent := ⟨⟨0, 2⟩, true, ⟨50⟩⟩
    let hold : Dispatched :=
      ⟨⟨pressed, ⟨2, false⟩⟩, ⟨pressed, ⟨0, false⟩⟩, .request (.call (.addModifiers 1)), false⟩
    first.admitsCalls Arbiter.isTimely km allUp calls = true ∧ (arrivals told).count pressed = 1 ∧
      Note.emitted (.dispatched hold) ∈ told ∧
      (calls.foldl (call km) first).arbiter.candidate = some ⟨pressed, ⟨0, true⟩⟩ := by
  decide +kernel

end Keyboard

end TapHold
