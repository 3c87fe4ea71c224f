import TapHold.Hook.Basic

/-!
# Extensions given as scripts

A script is a list of acts that is played when a certain extension is called, a limited number of
times. The hooks keep a log of every call and of the result of every act.
-/

set_option autoImplicit false

namespace TapHold

/-- One act of a script. -/
inductive ScriptAct where
  | call (c : HostCall)
  | readModifiers
  /-- Queues an edge of a key, `delay` milliseconds after the event of the call. -/
  | inject (key : Position) (pressed : Bool) (delay : Word)
deriving DecidableEq

/-- Whether the act queues an event. -/
def ScriptAct.isInject : ScriptAct → Bool
  | .inject _ _ _ => true
  | _ => false

/-- Acts to be played when an extension is called. -/
structure Script where
  kind : HookKind
  id : Byte
  /-- The edge of the key at which the script is played; both where there is none. -/
  edge : Option Bool
  /-- How many more times the script is played. -/
  times : Nat
  acts : List ScriptAct
deriving DecidableEq

namespace Script

/-- Whether a call plays the script. -/
def answers (s : Script) (c : HookCall) : Bool :=
  s.kind == c.kind && s.id == c.id && decide (0 < s.times) &&
    s.edge.all fun pressed => pressed == c.record.event.pressed

/-- The script after a call. -/
def after (s : Script) (c : HookCall) : Script :=
  if s.answers c then { s with times := s.times - 1 } else s

/-- The acts that a call plays. -/
def played (s : Script) (c : HookCall) : List ScriptAct :=
  if s.answers c then s.acts else []

/-- The number of events that the script can still queue. -/
def budget (s : Script) : Nat := s.times * s.acts.countP ScriptAct.isInject

theorem budget_after (s : Script) (c : HookCall) :
    (s.played c).countP ScriptAct.isInject + (s.after c).budget = s.budget := by
  unfold played after
  split
  next h =>
    have pos : 0 < s.times := by
      simp only [answers, Bool.and_eq_true, decide_eq_true_eq] at h
      exact h.1.2
    obtain ⟨n, hn⟩ : ∃ n, s.times = n + 1 := ⟨s.times - 1, by omega⟩
    simp only [budget, hn, Nat.add_sub_cancel, Nat.succ_mul]
    omega
  next => simp

end Script

/-- What scripted hooks remember. -/
inductive ScriptNote where
  | called (c : HookCall)
  | unknown (code : Word)
  | performed (c : HostCall)
  | readModifiers (bits : Byte)
  | injected (accepted : Bool)
deriving DecidableEq

/-- Scripts, and the notes about what happened so far, oldest first. -/
structure ScriptHooks where
  scripts : List Script
  notes : List ScriptNote
deriving DecidableEq

namespace ScriptHooks

/-- The hooks with one more note. -/
def note (s : ScriptHooks) (n : ScriptNote) : ScriptHooks := { s with notes := s.notes ++ [n] }

/-- The number of events that the scripts can still queue. -/
def budget (s : ScriptHooks) : Nat := s.scripts.foldr (fun script n => script.budget + n) 0

/-- The program that plays acts for an event at time `now`. -/
def play (now : Time) : List ScriptAct → ScriptHooks → HookProgram ScriptHooks
  | [], s => .done s
  | .call c :: acts, s => .call c (play now acts (s.note (.performed c)))
  | .readModifiers :: acts, s =>
    .modifiers fun bits => play now acts (s.note (.readModifiers bits))
  | .inject key pressed delay :: acts, s =>
    .inject ⟨key, pressed, now.after delay⟩ fun accepted =>
      play now acts (s.note (.injected accepted))

/-- The hooks after a call and before its acts. -/
def called (s : ScriptHooks) (c : HookCall) : ScriptHooks :=
  ⟨s.scripts.map (Script.after · c), s.notes ++ [.called c]⟩

/-- Plays every script that answers the call, in order. -/
def answer (s : ScriptHooks) (c : HookCall) : HookProgram ScriptHooks :=
  play c.record.event.time (s.scripts.flatMap (Script.played · c)) (s.called c)

theorem play_within (now : Time) (acts : List ScriptAct) (s : ScriptHooks) (n : Nat)
    (h : acts.countP ScriptAct.isInject + s.budget ≤ n) : (play now acts s).Within budget n := by
  induction acts generalizing s n with
  | nil => exact Nat.le_trans (Nat.le_add_left _ _) h
  | cons act acts ih =>
    rw [List.countP_cons] at h
    cases act with
    | call c => exact ih (s.note _) n h
    | readModifiers => exact fun bits => ih (s.note _) n h
    | inject key pressed delay =>
      change _ + 1 + _ ≤ n at h
      exact ⟨by omega, fun accepted => ih (s.note _) (n - 1) (by
        change _ + s.budget ≤ n - 1
        omega)⟩

theorem budget_called (s : ScriptHooks) (c : HookCall) :
    (s.scripts.flatMap (Script.played · c)).countP ScriptAct.isInject + (s.called c).budget =
      s.budget := by
  simp only [called, budget]
  induction s.scripts with
  | nil => rfl
  | cons script rest ih =>
    have first := script.budget_after c
    simp only [List.flatMap_cons, List.countP_append, List.map_cons, List.foldr_cons] at ih ⊢
    omega

instance : Hooks ScriptHooks where
  answer := answer
  unknown s code := s.note (.unknown code)
  budget := budget
  answer_within s c := by
    exact play_within _ _ _ _ (Nat.le_of_eq (budget_called s c))
  unknown_budget _ _ := Nat.le_refl _

end ScriptHooks

end TapHold
