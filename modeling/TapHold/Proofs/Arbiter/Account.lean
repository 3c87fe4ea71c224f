import TapHold.Proofs.Arbiter.Quiet
import TapHold.Proofs.Event.Ledger
import TapHold.Proofs.Keyboard.NoHooks

/-!
# No event is lost, dispatched twice or reordered for its key

What an arbiter has dispatched, and after it what it still awaits, is a ledger of all arrivals
(`Tally`). Every move and every arrival keeps the ledger (`tally_move`, `tally_arrival`), and so it
is right after every run in which the backlog does not overflow (`exists_ledger_of_run`).
-/

set_option autoImplicit false

namespace TapHold

/-- Whether the edges of every key come in turn. Ticks may come at any time. -/
def inTurn (down : Position → Bool) : List KeyEvent → Bool
  | [] => true
  | e :: es =>
    if e.isTick then inTurn down es else e.pressed == !down e.key && inTurn (e.after down) es

/-- The events that are no ticks. -/
def realEvents (es : List KeyEvent) : List KeyEvent := es.filter fun e => !e.isTick

namespace Arbiter

variable {km : Keymap} {settings : Settings} {a b : Arbiter} {out out' : List Emission}
  {down : Position → Bool} {arrived : List KeyEvent} {e : KeyEvent}

/-- The dispatched and the awaited events are the arrivals. -/
def Tally (arrived : List KeyEvent) (out : List Emission) (a : Arbiter) : Prop :=
  ∃ done waiting : List Entry, Account arrived done waiting ∧
    done.map Prod.fst = dispatchedEvents out ∧ waiting.map Prod.fst = a.awaited

/-- What holds while events are processed. -/
structure Accounted (km : Keymap) (settings : Settings) (down : Position → Bool)
    (arrived : List KeyEvent) (out : List Emission) (a : Arbiter) : Prop where
  settings : a.interpreter.settings = settings
  orderly : Orderly down a
  quiet : Quiet km a
  history : History down arrived
  tally : Tally arrived out a

/-- The entries of a list of events that was cut in two are cut at the same place. -/
theorem exists_entries_append {entries : List Entry} {es fs : List KeyEvent}
    (h : entries.map Prod.fst = es ++ fs) :
    ∃ xs ys : List Entry, entries = xs ++ ys ∧ xs.map Prod.fst = es ∧ ys.map Prod.fst = fs :=
  List.map_eq_append_iff.mp h

theorem tally_move (acc : Accounted km settings down arrived out a) (m : Move km a out' b)
    (kept : Emission.overflow ∉ out') : Tally arrived (out ++ out') b := by
  obtain ⟨done, waiting, account, hdone, hwaiting⟩ := acc.tally
  unfold Tally
  rw [dispatchedEvents_append, ← hdone]
  have flow := flow_move acc.orderly m
  generalize b.awaited = left at flow ⊢
  cases flow with
  | inOrder h =>
    obtain ⟨xs, ys, rfl, hxs, hys⟩ := exists_entries_append (hwaiting.trans h)
    refine ⟨done ++ xs, ys, account.dispatch, ?_, hys⟩
    rw [List.map_append, hxs]
  | overtake h one up other =>
    obtain ⟨xs, ys, rfl, hxs, hys⟩ := exists_entries_append (hwaiting.trans h)
    obtain ⟨x, zs, rfl, rfl, hzs⟩ := List.map_eq_cons_iff.mp hys
    refine ⟨done ++ [x], xs ++ zs, account.overtake acc.history up ?_, ?_, ?_⟩
    · intro s hs
      exact other s.1 (hxs ▸ List.mem_map_of_mem hs)
    · rw [List.map_append, one]
      rfl
    · rw [List.map_append, hxs, hzs]
  | twice h one pressed hc pos same modsTap press =>
    have none := acc.quiet.once hc pos (same ▸ modsTap) h pressed same
    rw [same, none] at press
    cases press
  | lost => exact absurd (List.mem_singleton_self _) kept

theorem accounted_move (everywhere : km.ModsTapsEverywhere settings)
    (acc : Accounted km settings down arrived out a) (m : Move km a out' b)
    (kept : Emission.overflow ∉ out') : Accounted km settings down arrived (out ++ out') b where
  settings := (settings_move m).trans acc.settings
  orderly := orderly_move m acc.orderly
  quiet := quiet_move (acc.settings ▸ everywhere) acc.orderly m acc.quiet
  history := acc.history
  tally := tally_move acc m kept

theorem accounted_moves (everywhere : km.ModsTapsEverywhere settings) (m : Moves km a out' b)
    (kept : Emission.overflow ∉ out') (acc : Accounted km settings down arrived out a) :
    Accounted km settings down arrived (out ++ out') b := by
  induction m generalizing out with
  | refl a =>
    rw [List.append_nil]
    exact acc
  | step m _ ih =>
    rw [List.mem_append, not_or] at kept
    rw [← List.append_assoc]
    exact ih kept.2 (accounted_move everywhere acc m kept.1)

theorem tally_arrival (acc : Accounted km settings down arrived out a)
    (arrival : Arrival km e a out' b) : Tally (arrived ++ [e]) (out ++ out') b := by
  obtain ⟨done, waiting, account, hdone, hwaiting⟩ := acc.tally
  have joined : (waiting ++ [(e, arrived.length)]).map Prod.fst = dispatchedEvents out' ++ b.awaited := by
    rw [List.map_append, hwaiting]
    exact flow_arrival acc.orderly arrival
  obtain ⟨xs, ys, split, hxs, hys⟩ := exists_entries_append joined
  have longer := account.join e
  rw [split] at longer
  refine ⟨done ++ xs, ys, longer.dispatch, ?_, hys⟩
  rw [List.map_append, dispatchedEvents_append, hdone, hxs]

theorem accounted_arrival (everywhere : km.ModsTapsEverywhere settings)
    (acc : Accounted km settings down arrived out a) (arrival : Arrival km e a out' b)
    (real : e.isTick = false) (next : e.pressed = !down e.key) :
    Accounted km settings (e.after down) (arrived ++ [e]) (out ++ out') b where
  settings := (settings_arrival arrival).trans acc.settings
  orderly := orderly_arrival arrival real next acc.orderly
  quiet := quiet_arrival (acc.settings ▸ everywhere) acc.orderly arrival
  history := acc.history.join next
  tally := tally_arrival acc arrival

theorem accounted_passage (everywhere : km.ModsTapsEverywhere settings)
    (acc : Accounted km settings down arrived out a) (p : Passage km e a out' b)
    (kept : Emission.overflow ∉ out') (real : e.isTick = false)
    (next : e.pressed = !down e.key) :
    Accounted km settings (e.after down) (arrived ++ [e]) (out ++ out') b := by
  obtain ⟨a₁, a₂, out₁, out₂, out₃, before, arrival, after, rfl⟩ := p
  simp only [List.mem_append, not_or] at kept
  have first := accounted_moves everywhere before kept.1 acc
  have second := accounted_arrival everywhere first arrival real next
  have third := accounted_moves everywhere after kept.2.2 second
  simpa only [List.append_assoc] using third

/-- The account is right after every run that does not overflow. -/
theorem accounted_run (everywhere : km.ModsTapsEverywhere settings) (es : List KeyEvent)
    (rested : a.Rested) (acc : Accounted km settings down arrived out a)
    (turns : inTurn down es = true) (kept : Emission.overflow ∉ (a.run km es).2) :
    ∃ down', Accounted km settings down' (arrived ++ realEvents es) (out ++ (a.run km es).2)
      (a.run km es).1 := by
  induction es generalizing a down arrived out with
  | nil =>
    refine ⟨down, ?_⟩
    rw [show realEvents [] = [] from rfl, List.append_nil]
    show Accounted km settings down arrived (out ++ []) a
    rw [List.append_nil]
    exact acc
  | cons e es ih =>
    have split : (a.run km (e :: es)).2 = (a.handle km e).2 ++ ((a.handle km e).1.run km es).2 := rfl
    rw [split, List.mem_append, not_or] at kept
    rw [split, ← List.append_assoc]
    unfold inTurn at turns
    cases real : e.isTick with
    | true =>
      rw [if_pos real] at turns
      have chain : Moves km a (a.handle km e).2 (a.handle km e).1 :=
        handle_tick_moves real fun c hc => acc.orderly.real_candidate hc
      have same : realEvents (e :: es) = realEvents es := by simp [realEvents, real]
      rw [same]
      exact ih (rested_handle a km e) (accounted_moves everywhere chain kept.1 acc) turns kept.2
    | false =>
      rw [if_neg (by simp [real]), Bool.and_eq_true, beq_iff_eq] at turns
      have passage : Passage km e a (a.handle km e).2 (a.handle km e).1 :=
        handle_passage rested real
      have more : arrived ++ realEvents (e :: es) = (arrived ++ [e]) ++ realEvents es := by
        simp [realEvents, real]
      rw [more]
      exact ih (rested_handle a km e)
        (accounted_passage everywhere acc passage kept.1 real turns.1) turns.2 kept.2

theorem accounted_start (km : Keymap) (settings : Settings) (layer : LayerNumber) (capacity : Nat) :
    Accounted km settings allUp [] [] (start settings layer capacity) where
  settings := rfl
  orderly := orderly_of_nothing rfl rfl
  quiet := fun _ hc => by cases hc
  history := history_nil
  tally := ⟨[], [], Account.nil, rfl, rfl⟩

/-- The records that a keyboard without extensions has dispatched, and after them the undecided
candidate and the waiting records, hold every event that came exactly once, and those of one key in
the order in which they came. What is dispatched before an earlier event is a release, and its own
press was dispatched before it. -/
theorem exists_ledger_of_run (everywhere : km.ModsTapsEverywhere settings) (layer : LayerNumber)
    (capacity : Nat) (es : List KeyEvent) (turns : inTurn allUp es = true)
    (kept : Emission.overflow ∉ ((start settings layer capacity).run km es).2) :
    let done := ((start settings layer capacity).run km es).2
    let last := ((start settings layer capacity).run km es).1
    (∃ ledger : List Entry,
      ledger.map Prod.fst = dispatchedEvents done ++ last.awaited ∧
      ledger.Perm (realEvents es).zipIdx ∧
      ledger.Pairwise (fun x y => x.1.key = y.1.key → x.2 < y.2) ∧
      ∀ (pre : List Entry) (x : Entry) (post : List Entry), ledger = pre ++ x :: post →
        ∀ y ∈ post, y.2 < x.2 →
          pre.length < (dispatchedEvents done).length ∧ x.1.pressed = false ∧
            ∃ p ∈ pre, IsPressOf (realEvents es).zipIdx p x) ∧
    ∀ (η : Type) [Host η] (host : η),
      es.foldl (fun kb e => kb.process km e)
          (Keyboard.start settings layer capacity host NoHooks.none) =
        ⟨last, (Outlet.mk host NoHooks.none []).emitAll done⟩ := by
  intro done last
  refine ⟨?_, fun η _ host => Keyboard.foldl_process _ km es rfl⟩
  have rested : (start settings layer capacity).Rested := fun _ => rfl
  obtain ⟨down, acc⟩ := accounted_run everywhere es rested
    (accounted_start km settings layer capacity) turns kept
  obtain ⟨dispatched, waiting, account, hdone, hwaiting⟩ := acc.tally
  rw [List.nil_append] at account hdone
  refine ⟨dispatched ++ waiting, ?_, account.complete, account.keyOrder, ?_⟩
  · rw [List.map_append, hdone, hwaiting]
  · intro pre x post split y hy less
    have count : (dispatchedEvents done).length = dispatched.length := by
      rw [← hdone, List.length_map]
    rcases Account.split_append split with ⟨mid, hd, rfl⟩ | ⟨mid, hw, rfl⟩
    · refine ⟨?_, account.overtaking pre x mid hd y hy less⟩
      rw [count, hd]
      simp
    · -- the awaited entries are in the order of their arrival
      have sorted := account.sorted
      rw [hw] at sorted
      have behind := (List.pairwise_cons.mp (List.pairwise_append.mp sorted).2.1).1
      exact absurd less (Nat.not_lt_of_lt (behind y hy))

/-- The release of a plain key overtakes the press of a key that is control when held. -/
theorem exists_ledger_of_overtaking_run :
    let km := Keymap.ofKeys fun key => if key = ⟨0, 1⟩ then 0x2104 else 0x0005
    let es : List KeyEvent :=
      [⟨⟨0, 0⟩, true, ⟨10⟩⟩, ⟨⟨0, 1⟩, true, ⟨20⟩⟩, ⟨⟨0, 0⟩, false, ⟨30⟩⟩]
    let result := (start .standard 0 8).run km es
    km.ModsTapsEverywhere .standard ∧ inTurn allUp es = true ∧ Emission.overflow ∉ result.2 ∧
      dispatchedEvents result.2 = [⟨⟨0, 0⟩, true, ⟨10⟩⟩, ⟨⟨0, 0⟩, false, ⟨30⟩⟩] ∧
      ∃ ledger : List Entry, ledger.map Prod.fst = dispatchedEvents result.2 ++ result.1.awaited ∧
        ledger.Perm (realEvents es).zipIdx := by
  intro km es result
  have everywhere : km.ModsTapsEverywhere .standard :=
    (Keymap.uniform_ofKeys _ _).modsTapsEverywhere
  have turns : inTurn allUp es = true := by decide
  have kept : Emission.overflow ∉ result.2 := by decide +kernel
  obtain ⟨⟨ledger, events, complete, -⟩, -⟩ := exists_ledger_of_run everywhere 0 8 es turns kept
  exact ⟨everywhere, turns, kept, by decide +kernel, ledger, events, complete⟩

end Arbiter

end TapHold
