import TapHold.Proofs.Arbiter.Counted
import TapHold.Proofs.Keyboard.Held

/-!
# No modifier is stuck

On a keymap that no layer changes, everything that is down goes up again, modifiers as well
(`modifiers_of_run`). Some key holds the item, as a tap or as a hold, and its release is due as one
of the same kind (`Answers`). A tap keeps its kind until the release because the release gets the
count of its press; a hold does because no count is left over for its release from earlier taps
(`Counted`), and because no press of it is dispatched twice (`Quiet`).
-/

set_option autoImplicit false

namespace TapHold

namespace Arbiter

variable {km : Keymap} {settings : Settings} {a b : Arbiter} {out : List Emission} {x : Item}
  {down down' : Position → Bool} {o : Outlet ReportHost NoHooks} {key : Position}

/-- The release of the key is due, and it is of the kind that lifts the item. -/
def Answers (km : Keymap) (settings : Settings) (down : Position → Bool) (a : Arbiter)
    (key : Position) (x : Item) : Prop :=
  ∃ (tapped : Bool) (action : Action), (∀ layers, km.resolve layers settings key = .ok action) ∧
    action.holds settings tapped x = true ∧ Due down a key tapped

/-- A key goes on to answer for an item when no release of it lifts the item. -/
theorem Answers.keep (h : Answers km settings down a key x) (s : Step km down a out down' b)
    (kept : ∀ tapped action, Released out key tapped →
      (∀ layers, km.resolve layers settings key = .ok action) →
        action.holds settings tapped x = false) :
    Answers km settings down' b key x := by
  obtain ⟨tapped, action, bound, holds, due⟩ := h
  rcases s.due key tapped due with after | released
  · exact ⟨tapped, action, bound, holds, after⟩
  · cases (kept tapped action released bound).symm.trans holds

/-- The press of a key answers for the items that it puts down. -/
theorem answers_of_press (uniform : km.Uniform settings)
    (same : a.interpreter.settings = settings) (s : Step km down a out down' b) {d : Dispatched}
    (hd : out = [.dispatched d]) (pressed : d.given.event.pressed = true)
    (hold : d.settled.tap.count = 0 → Due down' b d.given.event.key false) {action : Action}
    (bound : a.interpreter.resolve km d.given.event.key = .ok action)
    (holds : action.holds settings (decide (0 < d.settled.tap.count)) x = true) :
    Answers km settings down' b d.given.event.key x := by
  subst same
  refine ⟨decide (0 < d.settled.tap.count), action,
    fun layers => (uniform _ layers _).trans bound, holds, ?_⟩
  by_cases counted : 0 < d.settled.tap.count
  · rw [decide_eq_true counted]
    rcases s.tapped d hd pressed counted with due | ⟨has, other, -⟩
    · exact due
    · -- such a key has a key code when tapped on every layer
      have modsTap := (a.interpreter.isModsTapKeyAt_iff km d.given.event.key).mpr
        (uniform.modsTapsEverywhere d.given.event.key has a.interpreter.layers)
      cases other.symm.trans modsTap
  · rw [decide_eq_false counted]
    exact hold (Nat.eq_zero_of_not_pos counted)

/-- After a step some key answers for every item that is down, if one did so before. -/
theorem answers_step (uniform : km.Uniform settings) (same : a.interpreter.settings = settings)
    (s : Step km down a out down' b)
    (hold : ∀ d, out = [.dispatched d] → d.given.event.pressed = true →
      d.settled.tap.count = 0 → Due down' b d.given.event.key false)
    (before : o.host.held.has x = true → ∃ key, Answers km settings down a key x)
    (after : (o.emitAll out).host.held.has x = true) :
    ∃ key, Answers km settings down' b key x := by
  rcases held_step s.emits after with ⟨rfl, -, held⟩ | ⟨r, synthetic, rfl, real, -, cause⟩
  · obtain ⟨key, answers⟩ := before held
    refine ⟨key, answers.keep s fun tapped action released => ?_⟩
    obtain ⟨d, hd, -⟩ := released
    cases hd
  rcases cause with ⟨pressed, action, bound, holds⟩ | ⟨held, kept⟩
  · rw [same] at holds
    exact ⟨_, answers_of_press uniform same s rfl pressed (hold _ rfl pressed) bound holds⟩
  · obtain ⟨key, answers⟩ := before held
    refine ⟨key, answers.keep s fun tapped action released bound => ?_⟩
    obtain ⟨d, hd, rfl, up, rfl⟩ := released
    obtain rfl := Emission.eq_of_dispatched hd
    subst same
    exact kept up action (bound a.interpreter.layers)

/-- What holds at all times of a keyboard whose keymap no layer changes. -/
structure Balanced (km : Keymap) (settings : Settings) (down : Position → Bool) (a : Arbiter)
    (o : Outlet ReportHost NoHooks) : Prop where
  fixed : a.interpreter.settings = settings
  orderly : Orderly down a
  chronological : Chronological a
  scanned : Scanned km a
  quiet : Quiet km a
  counted : Counted a
  owed : ∀ x : Item, o.host.held.has x = true → ∃ key, Answers km settings down a key x

theorem balanced_of_nothing (same : a.interpreter.settings = settings) (hc : a.candidate = none)
    (hl : a.line = []) (nothing : ∀ x, o.host.held.has x = false) :
    Balanced km settings down a o where
  fixed := same
  orderly := orderly_of_nothing hc hl
  chronological := by simp [Chronological, heldEvents, hc, hl]
  scanned := fun c h => by cases (undecided?_of_none hc).symm.trans h
  quiet := fun c h => by cases hc.symm.trans h
  counted := by
    rw [counted_of_free (undecided?_of_none hc), hl]
    exact List.Pairwise.nil
  owed := fun x held => by cases (nothing x).symm.trans held

theorem Balanced.everywhere (h : Balanced km settings down a o) (uniform : km.Uniform settings) :
    km.ModsTapsEverywhere a.interpreter.settings := by
  rw [h.fixed]
  exact uniform.modsTapsEverywhere

theorem invariant_balanced {km : Keymap} {settings : Settings} (uniform : km.Uniform settings) :
    Invariant km (Balanced km settings) where
  orderly := fun t => t.orderly
  move := by
    intro down a out b o m t
    refine ⟨(settings_move m).trans t.fixed, orderly_move m t.orderly,
      chronological_move m t.chronological, scanned_move t.orderly m t.scanned,
      quiet_move (t.everywhere uniform) t.orderly m t.quiet,
      counted_move t.orderly t.chronological m t.counted, fun x held => ?_⟩
    by_cases kept : out = [.overflow]
    · -- an overflow lifts everything
      subst kept
      cases (Outlet.has_overflow x).symm.trans held
    · exact answers_step uniform t.fixed (step_move t.orderly t.chronological m kept)
        (fun d => due_of_hold t.orderly t.chronological t.quiet t.counted m) (t.owed x) held
  arrival := by
    intro down a out b o e arrival real next late t
    have everywhere := t.everywhere uniform
    have s := step_arrival t.orderly t.chronological t.scanned arrival real next late
    exact ⟨(settings_arrival arrival).trans t.fixed, orderly_arrival arrival real next t.orderly,
      chronological_arrival arrival late t.chronological, scanned_arrival arrival t.scanned,
      quiet_arrival everywhere t.orderly arrival,
      counted_arrival everywhere t.orderly t.chronological t.scanned arrival next late t.counted,
      fun x => answers_step uniform t.fixed s
        (fun d hd _ => due_of_hold_arrival t.orderly t.counted arrival next hd) (t.owed x)⟩
  reset := fun t => balanced_of_nothing t.fixed rfl rfl Outlet.has_reset
  read := fun n t =>
    ⟨t.fixed, t.orderly, t.chronological, t.scanned, t.quiet, t.counted, t.owed⟩

end Arbiter

namespace Keyboard

/-- Whenever all keys are up, nothing waits and no candidate is undecided, the host holds no
modifier, if no layer changes the keymap. -/
theorem modifiers_of_run {km : Keymap} {settings : Settings} (uniform : km.Uniform settings)
    (layer : LayerNumber) (capacity channel : Nat) (xs : List Stimulus)
    (admitted : (start settings layer capacity (.empty channel) NoHooks.none).admitsAll km allUp xs)
    (up : ∀ key, xs.foldl Stimulus.after allUp key = false) :
    let last := xs.foldl (step km) (start settings layer capacity (.empty channel) NoHooks.none)
    last.arbiter.backlog.size = 0 →
      (∀ c, last.arbiter.candidate = some c → c.isUndecided = false) →
        last.outlet.host.held.modifiers = 0 := by
  intro last empty decided
  have balanced : Arbiter.Balanced km settings (xs.foldl Stimulus.after allUp) last.arbiter
      last.outlet :=
    (Arbiter.invariant_balanced uniform).run xs admitted rfl (fun _ => rfl)
      (Arbiter.balanced_of_nothing rfl rfl rfl Held.has_nothing)
  apply Held.modifiers_eq_zero_of_has
  intro bit
  rw [← Bool.not_eq_true]
  intro held
  obtain ⟨key, tapped, action, -, -, due⟩ := balanced.owed (.modifier bit) held
  exact Arbiter.not_atRest_of_head due.next (Arbiter.atRest_of_settled (up key) empty decided)

/-- A key under shift is struck while another key is held as control, and released after it. -/
theorem modifiers_of_shifted_run :
    let km := Keymap.ofKeys fun key => if key = ⟨0, 0⟩ then 0x2104 else 0x0205
    let xs : List Stimulus :=
      [.event ⟨⟨0, 0⟩, true, ⟨10⟩⟩, .tick ⟨300⟩, .event ⟨⟨0, 1⟩, true, ⟨310⟩⟩, .read 2,
        .event ⟨⟨0, 0⟩, false, ⟨320⟩⟩, .event ⟨⟨0, 1⟩, false, ⟨330⟩⟩]
    let first := start .standard 0 8 (.empty 8) NoHooks.none
    km.Uniform .standard ∧ first.admitsAll km allUp xs = true ∧
      ((xs.take 4).foldl (step km) first).outlet.host.held.modifiers = 1 ∧
      (xs.foldl (step km) first).outlet.host.held.modifiers = 0 := by
  intro km xs first
  have uniform : km.Uniform .standard := Keymap.uniform_ofKeys _ _
  have admitted : first.admitsAll km allUp xs = true := by decide +kernel
  have up : ∀ key, xs.foldl Stimulus.after allUp key = false := by
    intro key
    show (if key = ⟨0, 1⟩ then false else if key = ⟨0, 0⟩ then false else
      if key = ⟨0, 1⟩ then true else if key = ⟨0, 0⟩ then true else false) = false
    split_ifs <;> rfl
  have none : (xs.foldl (step km) first).arbiter.candidate = none := by decide +kernel
  exact ⟨uniform, admitted, by decide +kernel,
    modifiers_of_run uniform 0 8 8 xs admitted up (by decide +kernel)
      fun c hc => by cases none.symm.trans hc⟩

end Keyboard

end TapHold
