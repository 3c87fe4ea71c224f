import TapHold.Host.CallLog
import TapHold.Proofs.Keyboard.Journal

/-!
# Extensions without a budget

Extensions may queue an event whenever they are called, and then nothing bounds the events of a
keyboard that is never left alone: queued events can call extensions again. Whether the processing
of an event ends is a matter of the keyboard then. `Keyboard.Empties` and `Keyboard.Runs` say that
it does, call by call.

`Rationed` extensions do what others do as long as they have not used up a ration of events. A run
that ends has queued finitely many events, so it is a run of rationed extensions, which have a
budget (`Keyboard.exists_ration`). All that holds of extensions with a budget, whatever the budget
is, holds of such runs.
-/

set_option autoImplicit false

namespace TapHold

/-- Extensions with states `χ` that may still queue `left` events. -/
structure Rationed (χ : Type) where
  hooks : χ
  left : Nat

variable {η χ : Type}

namespace HookProgram

/-- The program with a ration of events. When the ration is used up, the program goes on as if there
were no room for any more of them. -/
def ration : HookProgram χ → Nat → HookProgram (Rationed χ)
  | .done hooks, left => .done ⟨hooks, left⟩
  | .call c next, left => .call c (next.ration left)
  | .modifiers next, left => .modifiers fun bits => (next bits).ration left
  | .inject _ next, 0 => (next false).ration 0
  | .inject e next, left + 1 => .inject e fun accepted => (next accepted).ration left

theorem ration_within (p : HookProgram χ) (left : Nat) :
    (p.ration left).Within Rationed.left left := by
  induction p generalizing left with
  | done hooks => exact Nat.le_refl left
  | call c next ih => exact ih left
  | modifiers next ih => exact fun bits => ih bits left
  | inject e next ih =>
    cases left with
    | zero => exact ih false 0
    | succ left => exact ⟨Nat.succ_pos left, fun accepted => ih accepted left⟩

end HookProgram

instance [Extensions χ] : Hooks (Rationed χ) where
  answer s c := (Extensions.answer s.hooks c).ration s.left
  unknown s code := { s with hooks := Extensions.unknown s.hooks code }
  budget := Rationed.left
  answer_within s c := (Extensions.answer s.hooks c).ration_within s.left
  unknown_budget _ _ := Nat.le_refl _

/-! ## Enough of a ration -/

section Suffices

variable {α β γ : Type} {f : α → β} {g : β → γ} {a : Nat → α} {b : Nat → β} {c : Nat → γ}

/-- From `a` with a ration that is large enough `f` leads to `b` with what is left of it. -/
def Suffices (f : α → β) (a : Nat → α) (b : Nat → β) : Prop :=
  ∃ n, ∀ left, f (a (n + left)) = b left

/-- Where nothing is queued, any ration will do. -/
theorem Suffices.of_eq (same : ∀ left, f (a left) = b left) : Suffices f a b := by
  refine ⟨0, fun left => ?_⟩
  rw [Nat.zero_add]
  exact same left

/-- The rations of two steps add up. -/
theorem Suffices.then (first : Suffices f a b) (next : Suffices g b c) :
    Suffices (fun x => g (f x)) a c := by
  obtain ⟨n, first⟩ := first
  obtain ⟨m, next⟩ := next
  refine ⟨n + m, fun left => ?_⟩
  rw [Nat.add_assoc]
  exact (congrArg g (first (m + left))).trans (next left)

end Suffices

/-! ## Outlets -/

namespace Outlet

/-- The outlet with a ration for its extensions. -/
def rationed (o : Outlet η χ) (left : Nat) : Outlet η (Rationed χ) :=
  ⟨o.host, ⟨o.hooks, left⟩, o.injected⟩

theorem inject_rationed (o : Outlet η χ) (before : Rationed χ) (e : KeyEvent) :
    (Outlet.mk o.host before o.injected).inject e =
      (⟨(o.inject e).1.host, before, (o.inject e).1.injected⟩, (o.inject e).2) := by
  unfold inject
  split <;> rfl

variable [Host η]

/-- A program comes to the same with a ration that is large enough. The extensions from before it
make no difference. -/
theorem exists_ration_runProgram (p : HookProgram χ) (o : Outlet η χ) :
    ∃ n, ∀ (left : Nat) (before : Rationed χ),
      (Outlet.mk o.host before o.injected).runProgram (p.ration (n + left)) =
        (o.runProgram p).rationed left := by
  induction p generalizing o with
  | done hooks =>
    refine ⟨0, fun left before => ?_⟩
    rw [Nat.zero_add]
    rfl
  | call c next ih => exact ih (o.call c)
  | modifiers next ih => exact ih (Host.modifiers o.host) o
  | inject e next ih =>
    -- one more than what the rest of the program takes
    obtain ⟨n, enough⟩ := ih (o.inject e).2 (o.inject e).1
    refine ⟨n + 1, fun left before => ?_⟩
    rw [Nat.add_right_comm]
    show ((Outlet.mk o.host before o.injected).inject e).1.runProgram
      ((next ((Outlet.mk o.host before o.injected).inject e).2).ration (n + left)) = _
    rw [inject_rationed]
    exact enough left before

variable [Extensions χ]

theorem suffices_emit (o : Outlet η χ) (x : Emission) :
    Suffices (·.emit x) o.rationed (o.emit x).rationed := by
  cases x with
  | overflow => exact .of_eq fun left => rfl
  | dispatched d =>
    show Suffices (·.perform d.effect) o.rationed (o.perform d.effect).rationed
    cases d.effect with
    | request r => exact .of_eq fun left => rfl
    | unknown code => exact .of_eq fun left => rfl
    | hook c =>
      obtain ⟨n, enough⟩ := exists_ration_runProgram (Extensions.answer o.hooks c) o
      exact ⟨n, fun left => enough left _⟩

theorem suffices_emitAll (o : Outlet η χ) (out : List Emission) :
    Suffices (·.emitAll out) o.rationed (o.emitAll out).rationed := by
  induction out generalizing o with
  | nil => exact .of_eq fun left => rfl
  | cons x out ih => exact (o.suffices_emit x).then (ih (o.emit x))

end Outlet

/-! ## Keyboards -/

namespace Keyboard

variable [Host η]

section Runs

variable [Extensions χ] {km : Keymap} {kb kb' kb'' : Keyboard η χ}

/-- The queued events are processed one after another until none is left. -/
inductive Empties (km : Keymap) : Keyboard η χ → Keyboard η χ → Prop where
  | done {kb : Keyboard η χ} (none : kb.outlet.injected = []) : Empties km kb kb
  | next {kb kb' : Keyboard η χ} {e : KeyEvent} {rest : List KeyEvent}
      (some : kb.outlet.injected = e :: rest)
      (others : Empties km ((kb.withInjected rest).handle km e) kb') : Empties km kb kb'

/-- A call is made, and it ends. -/
inductive Returns (km : Keymap) (kb : Keyboard η χ) : Call η → Keyboard η χ → Prop where
  | event {e : KeyEvent} {kb' : Keyboard η χ} (ends : Empties km (kb.handle km e) kb') :
      Returns km kb (.event e) kb'
  | tick {now : Time} {kb' : Keyboard η χ} (ends : Empties km (kb.handle km (.tick now)) kb') :
      Returns km kb (.tick now) kb'
  | reset : Returns km kb .reset kb.reset
  | settings (s : Settings) : Returns km kb (.settings s) (kb.withSettings s)
  | layers (l : Layers) : Returns km kb (.layers l) (kb.withLayers l)
  | host (h : η) : Returns km kb (.host h) (kb.withHost h)

/-- Calls are made one after another, and each of them ends. -/
inductive Runs (km : Keymap) : Keyboard η χ → List (Call η) → Keyboard η χ → Prop where
  | nil {kb : Keyboard η χ} : Runs km kb [] kb
  | cons {kb kb' kb'' : Keyboard η χ} {c : Call η} {cs : List (Call η)}
      (first : Returns km kb c kb') (rest : Runs km kb' cs kb'') : Runs km kb (c :: cs) kb''

/-- The keyboard with a ration for its extensions. -/
def rationed (kb : Keyboard η χ) (left : Nat) : Keyboard η (Rationed χ) :=
  ⟨kb.arbiter, kb.outlet.rationed left⟩

theorem suffices_handle (kb : Keyboard η χ) (km : Keymap) (e : KeyEvent) :
    Suffices (·.handle km e) kb.rationed (kb.handle km e).rationed := by
  obtain ⟨n, enough⟩ := kb.outlet.suffices_emitAll (kb.arbiter.handle km e).2
  exact ⟨n, fun left => congrArg (Keyboard.mk _) (enough left)⟩

theorem suffices_empties (h : Empties km kb kb') :
    Suffices (·.processInjected km) kb.rationed kb'.rationed := by
  induction h with
  | done none => exact .of_eq fun left => processInjected_of_nil km none
  | @next kb kb' e rest some others ih =>
    -- the first of the queued events is handled, and then the others
    obtain ⟨n, enough⟩ := ((kb.withInjected rest).suffices_handle km e).then ih
    refine ⟨n, fun left => ?_⟩
    have queued : (kb.rationed (n + left)).outlet.injected = e :: rest := some
    exact (processInjected_of_cons km queued).trans (enough left)

theorem suffices_returns {c : Call η} (h : Returns km kb c kb') :
    Suffices (·.call km c) kb.rationed kb'.rationed := by
  cases h with
  | event ends => exact (kb.suffices_handle km _).then (suffices_empties ends)
  | tick ends => exact (kb.suffices_handle km _).then (suffices_empties ends)
  | reset | settings | layers | host => exact .of_eq fun left => rfl

/-- **A run that ends is a run with a budget.** Whatever the extensions are, there is a ration with
which they do the same, and any more than that is left over. -/
theorem exists_ration {cs : List (Call η)} (h : Runs km kb cs kb') :
    ∃ n, ∀ left, cs.foldl (call km) (kb.rationed (n + left)) = kb'.rationed left := by
  show Suffices (fun x => cs.foldl (call km) x) kb.rationed kb'.rationed
  induction h with
  | nil => exact .of_eq fun left => rfl
  | cons first rest ih => exact (suffices_returns first).then ih

end Runs

/-! ## With a budget every run ends -/

section Ends

variable [Hooks χ] (km : Keymap)

theorem empties_processInjected (kb : Keyboard η χ) : Empties km kb (kb.processInjected km) := by
  fun_induction processInjected kb km with
  | case1 kb none => exact .done none
  | case2 kb e rest some less ih => exact .next some ih

theorem returns_call (kb : Keyboard η χ) (c : Call η) : Returns km kb c (kb.call km c) := by
  cases c with
  | event e => exact .event (empties_processInjected km _)
  | tick now => exact .tick (empties_processInjected km _)
  | reset => exact .reset
  | settings s => exact .settings s
  | layers l => exact .layers l
  | host h => exact .host h

/-- Where the extensions have a budget, calls can be made in any number. -/
theorem runs_calls (kb : Keyboard η χ) (cs : List (Call η)) :
    Runs km kb cs (cs.foldl (call km) kb) := by
  induction cs generalizing kb with
  | nil => exact .nil
  | cons c cs ih => exact .cons (returns_call km kb c) (ih (kb.call km c))

end Ends

end Keyboard

/-! ## A macro that is played again and again -/

/-- Extensions that type a key whenever a macro is called by a press, and count these calls. Nothing
bounds the number of events that they queue. -/
structure Typist where
  key : Position
  played : Nat

instance : Extensions Typist where
  answer s c :=
    if c.kind = .playMacro ∧ c.record.event.pressed = true then
      .inject ⟨s.key, true, c.record.event.time⟩ fun _ =>
        .inject ⟨s.key, false, c.record.event.time⟩ fun _ => .done { s with played := s.played + 1 }
    else .done s
  unknown s _ := s

/-- A macro on one key types the other. -/
example :
    let km : Keymap := fun _ key => if key = ⟨0, 0⟩ then 0xc000 else 0x0004
    let kb : Keyboard CallLog Typist := .start .standard 0 8 .empty ⟨⟨0, 1⟩, 0⟩
    ∃ kb', Keyboard.Runs km kb [.event ⟨⟨0, 0⟩, true, ⟨10⟩⟩] kb' ∧
      kb'.outlet.host.calls = [.register 4, .unregister 4] ∧ kb'.outlet.hooks.played = 1 := by
  intro km kb
  let asked := kb.handle km ⟨⟨0, 0⟩, true, ⟨10⟩⟩
  let pressed := (asked.withInjected [⟨⟨0, 1⟩, false, ⟨10⟩⟩]).handle km ⟨⟨0, 1⟩, true, ⟨10⟩⟩
  let released := (pressed.withInjected []).handle km ⟨⟨0, 1⟩, false, ⟨10⟩⟩
  have queued : asked.outlet.injected = [⟨⟨0, 1⟩, true, ⟨10⟩⟩, ⟨⟨0, 1⟩, false, ⟨10⟩⟩] := by
    decide +kernel
  have left : pressed.outlet.injected = [⟨⟨0, 1⟩, false, ⟨10⟩⟩] := by decide +kernel
  have none : released.outlet.injected = [] := by decide +kernel
  exact ⟨released, .cons (.event (.next queued (.next left (.done none)))) .nil, by decide +kernel,
    by decide +kernel⟩

end TapHold
