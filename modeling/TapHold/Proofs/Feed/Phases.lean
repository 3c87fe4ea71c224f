import TapHold.Feed
import TapHold.Host.CallLog
import TapHold.Proofs.Keyboard.Journal

/-!
# Phases of a fed keyboard

Between two polls scans are offered to the feed of a keyboard and taken back from it, and control
messages are raised (`Feed.Act`). A feed is a bounded queue, `Feed.Passes` being the contract of one
(`passes`). It is first in, first out: what waits and what is accepted is what is taken back and
what still waits, in this order (`scans_append_accepted`). Of the messages the latest stands
(`control_acts`).

A poll leaves nothing in the feed: it hands over the scans that wait, and then the message
(`poll_eq`). So a keyboard that is polled phase after phase does what it does when the scans that
were accepted and not taken back are processed one by one, and it is reset, by direct calls
(`keyboard_phases`). What is processed in the place of a scan is said by its two bytes and by the
clock alone (`Scan.Tells`).
-/

set_option autoImplicit false

namespace TapHold

/-! ## What a scan tells -/

theorem Time.toNat_ofMillis (ms : Nat) : (Time.ofMillis ms).ms.toNat = ms % 65536 :=
  BitVec.toNat_ofNat ms 16

namespace Scan

/-- What a scan that is handed over when the clock shows `ms` milliseconds means. -/
structure Tells (s : Scan) (ms : Nat) (e : KeyEvent) : Prop where
  /-- A stamp is as much of the clock as sixteen bits hold. -/
  stamp : e.time.ms.toNat = ms % 65536
  /-- Where no switch has changed, time passes: no key has the place, and nothing is pressed. -/
  tick : s = ⟨0xff, 0xff⟩ → e.key = ⟨0xff, 0xff⟩ ∧ e.pressed = false
  /-- Any other scan is a press or a release of the key at the place of its switch. -/
  edge : s ≠ ⟨0xff, 0xff⟩ → e.key.row.toNat = s.rowByte.toNat % 128 ∧ e.key.col = s.col ∧
    (e.pressed = true ↔ 128 ≤ s.rowByte.toNat)

theorem event_of_eq_unchanged {s : Scan} (none : s = unchanged) (now : Time) :
    s.event now = .tick now :=
  if_pos (beq_iff_eq.mpr none)

theorem event_of_ne_unchanged {s : Scan} (some : s ≠ unchanged) (now : Time) :
    s.event now = ⟨⟨s.row, s.col⟩, s.isDown, now⟩ :=
  if_neg fun none => some (beq_iff_eq.mp none)

theorem toNat_row (s : Scan) : s.row.toNat = s.rowByte.toNat % 128 := by
  rw [row, BitVec.toNat_and]
  exact Nat.and_two_pow_sub_one_eq_mod s.rowByte.toNat 7

theorem isDown_iff (s : Scan) : s.isDown = true ↔ 128 ≤ s.rowByte.toNat := by
  rw [isDown, BitVec.msb_eq_decide, decide_eq_true_eq]

/-- The event of a scan is what it tells. -/
theorem tells_event (s : Scan) (ms : Nat) : s.Tells ms (s.event (.ofMillis ms)) := by
  by_cases h : s = unchanged
  · rw [event_of_eq_unchanged h]
    exact ⟨Time.toNat_ofMillis ms, fun _ => ⟨rfl, rfl⟩, fun some => absurd h some⟩
  · rw [event_of_ne_unchanged h]
    exact ⟨Time.toNat_ofMillis ms, fun none => absurd none h,
      fun _ => ⟨s.toNat_row, rfl, s.isDown_iff⟩⟩

/-- A switch that is reported down or up is a press or a release of the key at its place. -/
theorem event_ofSwitch {row col : Byte} {down : Bool} (small : row.toNat < 128)
    (some : ofSwitch row col down ≠ unchanged) (now : Time) :
    (ofSwitch row col down).event now = ⟨⟨row, col⟩, down, now⟩ := by
  -- the row does not use the top bit, and a switch that is down sets no other
  have low : row &&& 0x7f#8 = row := by
    apply BitVec.eq_of_toNat_eq
    rw [BitVec.toNat_and]
    exact (Nat.and_two_pow_sub_one_eq_mod row.toNat 7).trans (Nat.mod_eq_of_lt small)
  have same : (ofSwitch row col down).row = row := by
    show (row ||| _) &&& 0x7f#8 = row
    rw [BitVec.and_or_distrib_right, low]
    cases down <;> exact BitVec.or_zero
  have way : (ofSwitch row col down).isDown = down := by
    have top : row.msb = false := BitVec.msb_eq_false_iff_two_mul_lt.mpr (by omega)
    show (row ||| _).msb = down
    rw [BitVec.msb_or, top]
    cases down <;> rfl
  rw [event_of_ne_unchanged some, same, way]
  rfl

end Scan

namespace Feed

/-! ## Between two polls -/

/-- What is done with a feed between two polls. -/
inductive Act where
  /-- A scan is offered, by one who is told whether it was accepted or by one who is not. Where
  there is no room for it, it is dropped. -/
  | offer (s : Scan)
  /-- The oldest scan is taken back. -/
  | take
  /-- A control message is raised. -/
  | signal (c : Control)
deriving DecidableEq

/-- The feed after an act. -/
def act (f : Feed) : Act → Feed
  | .offer s => (f.offer s).1
  | .take => f.take.1
  | .signal c => f.signal c

/-- The scan that an act puts into the feed, if the feed accepts it. -/
def accepted? (f : Feed) : Act → Option Scan
  | .offer s => if (f.offer s).2 then some s else none
  | _ => none

/-- The scan that an act takes back. -/
def takenBack? (f : Feed) : Act → Option Scan
  | .take => f.take.2
  | _ => none

/-- The control message that an act raises. -/
def Act.control? : Act → Option Control
  | .signal c => some c
  | _ => none

/-- The scans that the feed accepts, in order. -/
def accepted (f : Feed) : List Act → List Scan
  | [] => []
  | x :: xs => (f.accepted? x).toList ++ (f.act x).accepted xs

/-- The scans that are taken back, in order. -/
def takenBack (f : Feed) : List Act → List Scan
  | [] => []
  | x :: xs => (f.takenBack? x).toList ++ (f.act x).takenBack xs

/-- The latest control message that acts raise. -/
def latest (xs : List Act) : Option Control := (xs.filterMap Act.control?).getLast?

theorem capacity_act (f : Feed) (x : Act) : (f.act x).capacity = f.capacity := by
  cases x with
  | offer s =>
    show (f.offer s).1.capacity = _
    unfold offer
    split <;> rfl
  | take => rfl
  | signal c => rfl

/-- The contract of a queue of scans with room for `capacity` of them: what it accepts and what it
gives back, in order, when it is left with `left` after acts that find `waiting` in it. -/
inductive Passes (capacity : Nat) :
    (waiting : List Scan) → List Act → (accepted taken left : List Scan) → Prop where
  | nil (waiting : List Scan) : Passes capacity waiting [] [] [] waiting
  /-- Where there is room a scan is accepted, and it waits behind the others. -/
  | accept {waiting accepted taken left : List Scan} {xs : List Act} (s : Scan)
      (room : waiting.length < capacity)
      (rest : Passes capacity (waiting ++ [s]) xs accepted taken left) :
      Passes capacity waiting (.offer s :: xs) (s :: accepted) taken left
  /-- Only a scan for which there is no room is dropped. -/
  | drop {waiting accepted taken left : List Scan} {xs : List Act} (s : Scan)
      (full : capacity ≤ waiting.length)
      (rest : Passes capacity waiting xs accepted taken left) :
      Passes capacity waiting (.offer s :: xs) accepted taken left
  /-- What is taken back is the scan that has waited longest. -/
  | take {waiting accepted taken left : List Scan} {xs : List Act} (s : Scan)
      (rest : Passes capacity waiting xs accepted taken left) :
      Passes capacity (s :: waiting) (.take :: xs) accepted (s :: taken) left
  | takeNone {accepted taken left : List Scan} {xs : List Act}
      (rest : Passes capacity [] xs accepted taken left) :
      Passes capacity [] (.take :: xs) accepted taken left
  /-- The message waits beside the queue. -/
  | signal {waiting accepted taken left : List Scan} {xs : List Act} (c : Control)
      (rest : Passes capacity waiting xs accepted taken left) :
      Passes capacity waiting (.signal c :: xs) accepted taken left

theorem offer_of_room {f : Feed} (room : f.scans.length < f.capacity) (s : Scan) :
    f.offer s = ({ f with scans := f.scans ++ [s] }, true) :=
  if_pos room

theorem offer_of_full {f : Feed} (full : f.capacity ≤ f.scans.length) (s : Scan) :
    f.offer s = (f, false) :=
  if_neg (Nat.not_lt.mpr full)

/-- A feed keeps the contract of a bounded queue. -/
theorem passes (f : Feed) (xs : List Act) :
    Passes f.capacity f.scans xs (f.accepted xs) (f.takenBack xs) (xs.foldl act f).scans := by
  -- by induction on the acts: the first one finds what waits in the feed, the others the rest
  induction xs generalizing f with
  | nil => exact .nil f.scans
  | cons x xs ih =>
    have rest := ih (f.act x)
    rw [capacity_act] at rest
    cases x with
    | offer s =>
      rcases Nat.lt_or_ge f.scans.length f.capacity with room | full
      · have accepted : f.accepted? (.offer s) = some s := by simp [accepted?, offer_of_room room]
        have after : (f.act (.offer s)).scans = f.scans ++ [s] := by simp [act, offer_of_room room]
        rw [after] at rest
        rw [Feed.accepted, accepted]
        exact .accept s room rest
      · have accepted : f.accepted? (.offer s) = none := by simp [accepted?, offer_of_full full]
        have after : (f.act (.offer s)).scans = f.scans := by simp [act, offer_of_full full]
        rw [after] at rest
        rw [Feed.accepted, accepted]
        exact .drop s full rest
    | take =>
      -- whether there is one to take
      obtain ⟨capacity, _ | ⟨s, scans⟩, control⟩ := f
      · exact .takeNone rest
      · exact .take s rest
    | signal c => exact .signal c rest

/-- What waits and what a queue accepts is what it gives back and what it is left with. -/
theorem Passes.append {capacity : Nat} {waiting accepted taken left : List Scan} {xs : List Act}
    (h : Passes capacity waiting xs accepted taken left) : waiting ++ accepted = taken ++ left := by
  induction h with
  | nil waiting => exact List.append_nil waiting
  | accept s room rest ih => rw [← ih, List.append_assoc, List.singleton_append]
  | drop s full rest ih => exact ih
  | take s rest ih => exact congrArg (s :: ·) ih
  | takeNone rest ih => exact ih
  | signal c rest ih => exact ih

theorem control_act (f : Feed) (x : Act) : (f.act x).control = x.control?.or f.control := by
  cases x with
  | offer s =>
    show (f.offer s).1.control = f.control
    unfold offer
    split <;> rfl
  | take => rfl
  | signal c => rfl

theorem capacity_acts (f : Feed) (xs : List Act) : (xs.foldl act f).capacity = f.capacity := by
  induction xs generalizing f with
  | nil => rfl
  | cons x xs ih => exact (ih (f.act x)).trans (f.capacity_act x)

/-- **First in, first out.** What waits and what is accepted is what is taken back and what waits in
the end. -/
theorem scans_append_accepted (f : Feed) (xs : List Act) :
    f.scans ++ f.accepted xs = f.takenBack xs ++ (xs.foldl act f).scans :=
  (f.passes xs).append

/-- What an empty feed accepts is what is taken back and, behind it, what waits in the end. -/
theorem accepted_empty (capacity : Nat) (xs : List Act) :
    (empty capacity).accepted xs =
      (empty capacity).takenBack xs ++ (xs.foldl act (.empty capacity)).scans :=
  scans_append_accepted (empty capacity) xs

/-- The latest message stands. -/
theorem control_acts (f : Feed) (xs : List Act) :
    (xs.foldl act f).control = (latest xs).or f.control := by
  induction xs generalizing f with
  | nil => rfl
  | cons x xs ih =>
    rw [List.foldl_cons, ih, control_act, ← Option.or_assoc]
    congr 1
    unfold latest
    rw [List.filterMap_cons]
    cases x.control? with
    | none => exact Option.or_none
    | some c => cases xs.filterMap Act.control? <;> simp [List.getLast?_cons]

end Feed

/-! ## One poll -/

/-- The call of a keyboard that a control message stands for; an exit is the end of the poll. -/
def Control.calls {η : Type} : Control → List (Keyboard.Call η)
  | .reset => [.reset]
  | .exit => []

namespace Keyboard

variable {η χ : Type} [Host η] [Hooks χ]

/-- The calls that scans and then a control message stand for. -/
def callsOf (now : Time) (scans : List Scan) (control : Option Control) : List (Call η) :=
  (scans.map fun s => .event (s.event now)) ++ control.toList.flatMap Control.calls

/-- A poll hands over every scan that waits, in order, and then the message. Nothing is left in the
feed, and the poll ends in an exit if the message says so. -/
theorem poll_eq (kb : Keyboard η χ) (km : Keymap) (f : Feed) (now : Time) :
    kb.poll km f now = ⟨(callsOf now f.scans f.control).foldl (call km) kb, .empty f.capacity,
      f.control == some .exit⟩ := by
  fun_induction poll kb km f now with
  | case1 kb f none =>
    obtain ⟨capacity, _ | ⟨s, rest⟩, _ | c⟩ := f <;> cases none
    rfl
  | case2 kb f s rest some less ih =>
    obtain ⟨capacity, _ | ⟨s', scans⟩, control⟩ := f
    · cases control <;> cases some
    · cases some
      exact ih
  | case3 kb f rest some less ih =>
    obtain ⟨capacity, _ | ⟨s', scans⟩, _ | c⟩ := f <;> cases some
    exact ih
  | case4 kb f rest some =>
    obtain ⟨capacity, _ | ⟨s', scans⟩, _ | c⟩ := f <;> cases some
    rfl

end Keyboard

/-! ## Phase after phase -/

/-- What happens up to a poll, and the clock at the poll in milliseconds. -/
structure Phase where
  acts : List Feed.Act
  ms : Nat

namespace Phase

/-- The scans that are handed over at the end of a phase that begins with nothing in the feed: of
those that the feed accepts, the first have been taken back. -/
def handed (capacity : Nat) (x : Phase) : List Scan :=
  ((Feed.empty capacity).accepted x.acts).drop ((Feed.empty capacity).takenBack x.acts).length

/-- The calls of the keyboard that a phase stands for. -/
def calls {η : Type} (capacity : Nat) (x : Phase) : List (Keyboard.Call η) :=
  Keyboard.callsOf (.ofMillis x.ms) (x.handed capacity) (Feed.latest x.acts)

/-- What waits at the end of a phase is handed over. -/
theorem scans_acts (capacity : Nat) (x : Phase) :
    (x.acts.foldl Feed.act (.empty capacity)).scans = x.handed capacity := by
  rw [handed, Feed.accepted_empty, List.drop_left]

/-- The feed of a phase is a bounded queue that is left with what is handed over. -/
theorem passes (capacity : Nat) (x : Phase) :
    Feed.Passes capacity [] x.acts ((Feed.empty capacity).accepted x.acts)
      ((Feed.empty capacity).takenBack x.acts) (x.handed capacity) := by
  rw [← x.scans_acts capacity]
  exact (Feed.empty capacity).passes x.acts

/-- The calls of a phase: what the scans tell that are handed over, and behind them a reset if the
message says so. -/
theorem tells_calls {η : Type} (capacity : Nat) (x : Phase) :
    ∃ events : List KeyEvent, List.Forall₂ (fun s e => s.Tells x.ms e) (x.handed capacity) events ∧
      x.calls (η := η) capacity = events.map .event ++
        if Feed.latest x.acts = some .reset then [.reset] else [] := by
  refine ⟨(x.handed capacity).map fun s => s.event (.ofMillis x.ms), ?_, ?_⟩
  · rw [List.forall₂_map_right_iff, List.forall₂_same]
    exact fun s _ => s.tells_event x.ms
  · rw [calls, Keyboard.callsOf, List.map_map]
    congr 1
    rcases Feed.latest x.acts with _ | _ | _ <;> rfl

end Phase

namespace Keyboard

variable {η χ : Type} [Host η] [Hooks χ]

/-- A phase: its acts on the feed that the last poll has left, and then a poll. -/
def phase (km : Keymap) (p : Polled η χ) (x : Phase) : Polled η χ :=
  p.keyboard.poll km (x.acts.foldl Feed.act p.feed) (.ofMillis x.ms)

theorem phase_eq (km : Keymap) {p : Polled η χ} {capacity : Nat} (empty : p.feed = .empty capacity)
    (x : Phase) :
    phase km p x = ⟨(x.calls capacity).foldl (call km) p.keyboard, .empty capacity,
      Feed.latest x.acts == some .exit⟩ := by
  have control : (x.acts.foldl Feed.act (.empty capacity)).control = Feed.latest x.acts := by
    rw [Feed.control_acts]
    exact Option.or_none
  have room : (x.acts.foldl Feed.act (.empty capacity)).capacity = capacity :=
    Feed.capacity_acts _ _
  rw [phase, empty, poll_eq, x.scans_acts capacity, control, room]
  rfl

/-- **A fed keyboard is a keyboard that is called.** Phase after phase, scans are offered to a feed
of any capacity and taken back, messages are raised, and the keyboard is polled. After all phases
the keyboard is where it comes to by the direct calls of each phase in turn, the feed is empty, and
a poll ends in an exit if the latest message of its phase is one.

In every phase the feed accepts and gives back what a bounded queue does, which leaves the scans
that are accepted and not taken back, in order. The calls of the phase process one event for each of
these, the one that the scan tells at the clock of the phase, and behind them there is one reset if
the latest message is a reset. -/
theorem keyboard_phases (km : Keymap) (kb : Keyboard η χ) (capacity : Nat) (xs : List Phase) :
    let polled := xs.foldl (phase km) ⟨kb, .empty capacity, false⟩
    polled.keyboard = (xs.flatMap (Phase.calls capacity)).foldl (call km) kb ∧
      polled.feed = .empty capacity ∧
      (∀ x, (phase km polled x).exited = true ↔ Feed.latest x.acts = some .exit) ∧
      ∀ x : Phase,
        let accepted := (Feed.empty capacity).accepted x.acts
        let taken := (Feed.empty capacity).takenBack x.acts
        let handed := x.handed capacity
        accepted = taken ++ handed ∧ Feed.Passes capacity [] x.acts accepted taken handed ∧
        ∃ events : List KeyEvent, List.Forall₂ (fun s e => s.Tells x.ms e) handed events ∧
          (x.calls capacity : List (Call η)) = events.map .event ++
            if Feed.latest x.acts = some .reset then [.reset] else [] := by
  intro polled
  -- each phase finds the feed as empty as the last poll has left it
  have reached (p : Polled η χ) (empty : p.feed = .empty capacity) :
      (xs.foldl (phase km) p).keyboard =
          (xs.flatMap (Phase.calls capacity)).foldl (call km) p.keyboard ∧
        (xs.foldl (phase km) p).feed = .empty capacity := by
    induction xs generalizing p with
    | nil => exact ⟨rfl, empty⟩
    | cons x xs ih =>
      have first := phase_eq km empty x
      rw [List.foldl_cons, List.flatMap_cons, List.foldl_append]
      have next := ih (phase km p x) (by rw [first])
      rw [first] at next ⊢
      exact next
  obtain ⟨keyboard, feed⟩ := reached ⟨kb, .empty capacity, false⟩ rfl
  refine ⟨keyboard, feed, fun x => ?_, fun x => ?_⟩
  · rw [phase_eq km feed x]
    exact beq_iff_eq
  · exact ⟨(x.passes capacity).append, x.passes capacity, x.tells_calls capacity⟩

/-- There is room for two scans. In the first phase a press is taken back again, another press and
its release wait, a third one is dropped, and a reset takes the place of an exit. The clock has
wrapped once. In the second phase no switch has changed, and the keyboard is told to exit; the clock
has wrapped twice. The key is a letter, which goes down and up. -/
theorem phases_of_press_release_tick :
    let km := Keymap.ofKeys fun _ => 4
    let kb : Keyboard CallLog NoHooks := start .standard 0 8 .empty .none
    let first : Phase := ⟨[.offer (.ofSwitch 0 1 true), .take, .offer (.ofSwitch 0 0 true),
      .signal .exit, .offer (.ofSwitch 0 0 false), .offer (.ofSwitch 0 1 true), .signal .reset],
      65546⟩
    let second : Phase := ⟨[.offer .unchanged, .signal .exit], 135000⟩
    let polled := [first, second].foldl (phase km) ⟨kb, .empty 2, false⟩
    let calls : List (Call CallLog) := [.event ⟨⟨0, 0⟩, true, ⟨10⟩⟩, .event ⟨⟨0, 0⟩, false, ⟨10⟩⟩,
      .reset, .event ⟨⟨0xff, 0xff⟩, false, ⟨3928⟩⟩]
    polled.keyboard = calls.foldl (call km) kb ∧ polled.feed = .empty 2 ∧
      (phase km polled second).exited = true ∧ (phase km polled first).exited = false ∧
      polled.keyboard.outlet.host.calls =
        [.register 4, .unregister 4, .clearKeys, .setModifiers 0] ∧
      Feed.Passes 2 [] first.acts [.ofSwitch 0 1 true, .ofSwitch 0 0 true, .ofSwitch 0 0 false]
        [.ofSwitch 0 1 true] [.ofSwitch 0 0 true, .ofSwitch 0 0 false] := by
  intro km kb first second polled calls
  obtain ⟨keyboard, feed, exited, phases⟩ := keyboard_phases km kb 2 [first, second]
  obtain ⟨_, passes, _⟩ := phases first
  have all : [first, second].flatMap (Phase.calls 2) = calls := by
    -- numbers are not computed under names
    subst first second calls
    rfl
  have polled_eq : polled.keyboard = calls.foldl (call km) kb := keyboard.trans (by rw [all])
  refine ⟨polled_eq, feed, (exited second).mpr rfl, ?_, ?_, passes⟩
  · rw [← Bool.not_eq_true, exited first]
    decide
  · rw [polled_eq]
    decide +kernel

end Keyboard

end TapHold
