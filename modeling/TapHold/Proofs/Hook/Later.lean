import TapHold.Hook.Script
import TapHold.Proofs.Interpreter.Later

/-!
# Extensions called at a later time

An extension is told the time of a record. It may remember it, but all that it may do with it is to
queue events some time after it: called for the same record `k` milliseconds later, it does the
same, and what it queues is `k` milliseconds later as well (`Hooks.Relative`). The states of the
extension need not be the same, since they may hold records; how two of them correspond is a
parameter.
-/

set_option autoImplicit false

namespace TapHold

/-- The second program does what the first one does, but for what it queues, which is `k`
milliseconds later. The states in which the programs end correspond by `R`. -/
inductive HookProgram.Later {χ : Type} (k : Word) (R : χ → χ → Prop) :
    HookProgram χ → HookProgram χ → Prop where
  | done {s t : χ} : R s t → Later k R (.done s) (.done t)
  | call (c : HostCall) {p q : HookProgram χ} : Later k R p q → Later k R (.call c p) (.call c q)
  | modifiers {p q : Byte → HookProgram χ} : (∀ bits, Later k R (p bits) (q bits)) →
      Later k R (.modifiers p) (.modifiers q)
  | inject (e : KeyEvent) {p q : Bool → HookProgram χ} :
      (∀ accepted, Later k R (p accepted) (q accepted)) →
      Later k R (.inject e p) (.inject (e.later k) q)

/-- The extensions reckon from the time of the record that they are called for: in corresponding
states and for a record `k` milliseconds later they do the same `k` milliseconds later. -/
structure Hooks.Relative {χ : Type} [Hooks χ] (k : Word) (R : χ → χ → Prop) : Prop where
  answer : ∀ {s t : χ} (c : HookCall), R s t →
    (Extensions.answer s c).Later k R (Extensions.answer t (c.later k))
  unknown : ∀ {s t : χ} (code : Word), R s t →
    R (Extensions.unknown s code) (Extensions.unknown t code)

variable (k : Word)

/-- Where there are no extensions, no time matters. -/
theorem NoHooks.relative : Hooks.Relative k (@Eq NoHooks) where
  answer := fun _ same => .done same
  unknown := fun _ same => same

/-! ## Scripts -/

/-- The same note, where a call was for a record `k` milliseconds later. -/
def ScriptNote.later : ScriptNote → ScriptNote
  | .called c => .called (c.later k)
  | n => n

namespace ScriptHooks

/-- The same scripts, with notes of records `k` milliseconds later. -/
def later (s : ScriptHooks) : ScriptHooks := { s with notes := s.notes.map (ScriptNote.later k) }

theorem note_later (s : ScriptHooks) (n : ScriptNote) :
    (s.later k).note (n.later k) = (s.note n).later k := by
  simp only [note, later, List.map_append, List.map_cons, List.map_nil]

theorem later_play (now : Time) (acts : List ScriptAct) (s : ScriptHooks) :
    (play now acts s).Later k (fun s t => t = s.later k) (play (now.after k) acts (s.later k)) := by
  induction acts generalizing s with
  | nil => exact .done rfl
  | cons act acts ih =>
    cases act with
    | call c =>
      have noted := note_later k s (.performed c)
      exact .call c (noted ▸ ih (s.note (.performed c)))
    | readModifiers =>
      refine .modifiers fun bits => ?_
      have noted := note_later k s (.readModifiers bits)
      exact noted ▸ ih (s.note (.readModifiers bits))
    | inject key pressed delay =>
      unfold play
      rw [now.after_right_comm k delay]
      refine .inject ⟨key, pressed, now.after delay⟩ fun accepted => ?_
      have noted := note_later k s (.injected accepted)
      exact noted ▸ ih (s.note (.injected accepted))

theorem called_later (s : ScriptHooks) (c : HookCall) :
    (s.later k).called (c.later k) = (s.called c).later k := by
  have after : (Script.after · (c.later k)) = (Script.after · c) := rfl
  simp only [called, later, after, List.map_append, List.map_cons, List.map_nil, ScriptNote.later]

/-- A script queues its events after the time of the record, and the notes only hold the records. -/
theorem relative : Hooks.Relative k fun s t : ScriptHooks => t = s.later k where
  answer := by
    rintro s _ c rfl
    have played := later_play k c.record.event.time (s.scripts.flatMap (Script.played · c))
      (s.called c)
    rw [← called_later] at played
    exact played
  unknown := by
    rintro s _ code rfl
    exact note_later k s (.unknown code)

end ScriptHooks

end TapHold
