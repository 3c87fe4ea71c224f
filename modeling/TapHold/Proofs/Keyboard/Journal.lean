import Mathlib.Data.List.DropRight
import TapHold.Proofs.Arbiter.Turns
import TapHold.Proofs.Keyboard.NoHooks

/-!
# The journal of a keyboard

Whatever is done with a keyboard, its journal tells in order which events come to the arbiter, those
among them that extensions have queued, and what leaves it. A reset and an overflow drop all that
waits; `sinceDrop` is what is told after the last of them.

`Lasting` collects what has to be shown of an invariant for the handling of one event, which is
enough for all that can be done with a keyboard and for any extensions (`Lasting.calls`).
-/

set_option autoImplicit false

namespace TapHold

/-- What happens at the arbiter of a keyboard. -/
inductive Note where
  /-- An event comes. -/
  | came (e : KeyEvent)
  /-- Something leaves the arbiter. -/
  | emitted (x : Emission)
  /-- Everything is let go and forgotten. -/
  | reset
deriving DecidableEq

namespace Note

/-- Whether all that waits is dropped. -/
def drops : Note → Bool
  | .came _ => false
  | .emitted x => x == .overflow
  | .reset => true

/-- The event that comes, unless it is a tick. -/
def event? : Note → Option KeyEvent
  | .came e => if e.isTick then none else some e
  | _ => none

/-- What leaves the arbiter. -/
def emission? : Note → Option Emission
  | .emitted x => some x
  | _ => none

end Note

/-- The events that came, in order, without the ticks. -/
def arrivals (notes : List Note) : List KeyEvent := notes.filterMap Note.event?

/-- What left the arbiter, in order. -/
def emissions (notes : List Note) : List Emission := notes.filterMap Note.emission?

/-- What happened after everything was dropped for the last time. -/
def sinceDrop (notes : List Note) : List Note := notes.rtakeWhile fun n => !n.drops

@[simp] theorem arrivals_append (notes notes' : List Note) :
    arrivals (notes ++ notes') = arrivals notes ++ arrivals notes' := List.filterMap_append

@[simp] theorem emissions_append (notes notes' : List Note) :
    emissions (notes ++ notes') = emissions notes ++ emissions notes' := List.filterMap_append

/-- Nothing has happened yet after a drop. -/
theorem sinceDrop_concat_of_drops (notes : List Note) {n : Note} (h : n.drops = true) :
    sinceDrop (notes ++ [n]) = [] := List.rtakeWhile_concat_neg _ notes n (by simp [h])

/-- What happens without a drop is told in addition. -/
theorem sinceDrop_append {more : List Note} (notes : List Note) (h : ∀ n ∈ more, n.drops = false) :
    sinceDrop (notes ++ more) = sinceDrop notes ++ more := by
  induction more using List.reverseRecOn with
  | nil => simp
  | append_singleton more n ih =>
    rw [List.forall_mem_append] at h
    have last : (!n.drops) = true := by simp [h.2 n (List.mem_singleton_self n)]
    rw [← List.append_assoc, sinceDrop, List.rtakeWhile_concat_pos _ _ n last, ← List.append_assoc]
    congr 1
    exact ih h.1

/-- The handling of one event: the event comes, and then all the rest leaves. -/
def handled (e : KeyEvent) (out : List Emission) : List Note := .came e :: out.map .emitted

@[simp] theorem arrivals_handled (e : KeyEvent) (out : List Emission) :
    arrivals (handled e out) = realEvents [e] := by
  have none : arrivals (out.map Note.emitted) = [] := by
    rw [arrivals, List.filterMap_map]
    exact List.filterMap_eq_nil_iff.mpr fun x _ => rfl
  show arrivals ([Note.came e] ++ out.map Note.emitted) = _
  rw [arrivals_append, none, List.append_nil]
  cases tick : e.isTick <;> simp [arrivals, Note.event?, realEvents, tick]

@[simp] theorem emissions_handled (e : KeyEvent) (out : List Emission) :
    emissions (handled e out) = out := by
  show emissions (out.map Note.emitted) = out
  rw [emissions, List.filterMap_map]
  exact List.filterMap_some

/-- Without an overflow nothing is dropped. -/
theorem drops_handled {e : KeyEvent} {out : List Emission} (kept : Emission.overflow ∉ out) :
    ∀ n ∈ handled e out, n.drops = false := by
  intro n hn
  rcases List.mem_cons.mp hn with rfl | left
  · rfl
  · obtain ⟨x, hx, rfl⟩ := List.mem_map.mp left
    exact beq_eq_false_iff_ne.mpr (ne_of_mem_of_not_mem hx kept)

/-- The events that came, after one more was handled without an overflow. -/
theorem arrivals_sinceDrop_handled (told : List Note) {e : KeyEvent} {out : List Emission}
    (kept : Emission.overflow ∉ out) :
    arrivals (sinceDrop (told ++ handled e out)) = arrivals (sinceDrop told) ++ realEvents [e] := by
  rw [sinceDrop_append told (drops_handled kept), arrivals_append, arrivals_handled]

/-- What was emitted, after one more event was handled without an overflow. -/
theorem emissions_sinceDrop_handled (told : List Note) {e : KeyEvent} {out : List Emission}
    (kept : Emission.overflow ∉ out) :
    emissions (sinceDrop (told ++ handled e out)) = emissions (sinceDrop told) ++ out := by
  rw [sinceDrop_append told (drops_handled kept), emissions_append, emissions_handled]

/-- An overflow at the end of the handling of an event drops everything. -/
theorem sinceDrop_handled_overflow (told : List Note) (e : KeyEvent) (out : List Emission) :
    sinceDrop (told ++ handled e (out ++ [.overflow])) = [] := by
  rw [handled, List.map_append, ← List.cons_append, ← List.append_assoc]
  exact sinceDrop_concat_of_drops _ rfl

namespace Keyboard

variable {η χ : Type} [Host η] [Hooks χ]

/-- What can be done with a keyboard. -/
inductive Call (η : Type) where
  | event (e : KeyEvent)
  | tick (now : Time)
  | reset
  | settings (s : Settings)
  | layers (l : Layers)
  | host (h : η)

/-- The keyboard after a call. -/
def call (km : Keymap) (kb : Keyboard η χ) : Call η → Keyboard η χ
  | .event e => kb.process km e
  | .tick now => kb.tick km now
  | .reset => kb.reset
  | .settings s => kb.withSettings s
  | .layers l => kb.withLayers l
  | .host h => kb.withHost h

/-- Nothing is queued between two calls. -/
theorem injected_call {km : Keymap} {kb : Keyboard η χ} (c : Call η)
    (none : kb.outlet.injected = []) :
    (kb.call km c).outlet.injected = [] := by
  cases c with
  | event e => exact injected_processInjected _ km
  | tick now => exact injected_processInjected _ km
  | reset => rfl
  | settings | layers | host => exact none

theorem injected_calls {km : Keymap} {kb : Keyboard η χ} (cs : List (Call η))
    (none : kb.outlet.injected = []) :
    (cs.foldl (call km) kb).outlet.injected = [] := by
  induction cs generalizing kb with
  | nil => exact none
  | cons c cs ih => exact ih (injected_call c none)

/-- What happens while the queued events are processed. -/
def injectedNotes (km : Keymap) (kb : Keyboard η χ) : List Note :=
  match h : kb.outlet.injected with
  | [] => []
  | e :: rest =>
    have := debt_handle_lt km h
    handled e ((kb.withInjected rest).arbiter.handle km e).2 ++
      injectedNotes km ((kb.withInjected rest).handle km e)
termination_by kb.outlet.debt

theorem injectedNotes_of_nil {kb : Keyboard η χ} (km : Keymap)
    (none : kb.outlet.injected = []) : kb.injectedNotes km = [] := by
  unfold injectedNotes
  split
  · rfl
  · rename_i some
    cases none.symm.trans some

theorem injectedNotes_of_cons {kb : Keyboard η χ} {e : KeyEvent} {rest : List KeyEvent}
    (km : Keymap) (some : kb.outlet.injected = e :: rest) :
    kb.injectedNotes km = handled e ((kb.withInjected rest).arbiter.handle km e).2 ++
      ((kb.withInjected rest).handle km e).injectedNotes km := by
  rw [injectedNotes]
  split
  · rename_i none
    cases none.symm.trans some
  · rename_i some'
    obtain ⟨rfl, rfl⟩ := List.cons.inj (some.symm.trans some')
    rfl

/-- What happens while an event is processed. -/
def processNotes (km : Keymap) (kb : Keyboard η χ) (e : KeyEvent) : List Note :=
  handled e (kb.arbiter.handle km e).2 ++ injectedNotes km (kb.handle km e)

/-- What happens at a call. -/
def notes (km : Keymap) (kb : Keyboard η χ) : Call η → List Note
  | .event e => processNotes km kb e
  | .tick now => processNotes km kb (.tick now)
  | .reset => [.reset]
  | .settings _ => []
  | .layers _ => []
  | .host _ => []

/-- What happens at a list of calls. -/
def journal (km : Keymap) (kb : Keyboard η χ) : List (Call η) → List Note
  | [] => []
  | c :: cs => kb.notes km c ++ journal km (kb.call km c) cs

end Keyboard

/-- An invariant of an arbiter and its journal that nothing breaks. -/
structure Lasting (km : Keymap) (inv : List Note → Arbiter → Prop) : Prop where
  handle : ∀ {told a} (e : KeyEvent), inv told a →
    inv (told ++ handled e (a.handle km e).2) (a.handle km e).1
  reset : ∀ {told a}, inv told a → inv (told ++ [.reset]) a.reset
  interpreter : ∀ {told a} (i : Interpreter), inv told a → inv told { a with interpreter := i }

namespace Lasting

variable {η χ : Type} [Host η] [Hooks χ] {km : Keymap} {inv : List Note → Arbiter → Prop}
  {told : List Note} {kb : Keyboard η χ}

theorem injected (h : Lasting km inv) (start : inv told kb.arbiter) :
    inv (told ++ kb.injectedNotes km) (kb.processInjected km).arbiter := by
  fun_induction Keyboard.processInjected kb km generalizing told with
  | case1 kb none =>
    rw [kb.injectedNotes_of_nil km none, List.append_nil]
    exact start
  | case2 kb e rest some less ih =>
    have queued : inv told (kb.withInjected rest).arbiter := start
    rw [kb.injectedNotes_of_cons km some, ← List.append_assoc]
    exact ih (h.handle e queued)

theorem process (h : Lasting km inv) (e : KeyEvent) (start : inv told kb.arbiter) :
    inv (told ++ kb.processNotes km e) (kb.process km e).arbiter := by
  have handled : inv (told ++ handled e (kb.arbiter.handle km e).2) (kb.handle km e).arbiter :=
    h.handle e start
  rw [Keyboard.processNotes, ← List.append_assoc]
  exact h.injected handled

theorem call (h : Lasting km inv) (c : Keyboard.Call η) (start : inv told kb.arbiter) :
    inv (told ++ kb.notes km c) (kb.call km c).arbiter := by
  cases c with
  | event e => exact h.process e start
  | tick now => exact h.process (.tick now) start
  | reset => exact h.reset start
  | settings s =>
    rw [Keyboard.notes, List.append_nil]
    exact h.interpreter _ start
  | layers l =>
    rw [Keyboard.notes, List.append_nil]
    exact h.interpreter _ start
  | host state =>
    rw [Keyboard.notes, List.append_nil]
    exact start

/-- What lasts at every call lasts at a list of calls. -/
theorem calls (h : Lasting km inv) (cs : List (Keyboard.Call η)) (start : inv told kb.arbiter) :
    inv (told ++ kb.journal km cs) (cs.foldl (Keyboard.call km) kb).arbiter := by
  induction cs generalizing kb told with
  | nil =>
    rw [Keyboard.journal, List.append_nil]
    exact start
  | cons c cs ih =>
    rw [Keyboard.journal, ← List.append_assoc]
    exact ih (h.call c start)

end Lasting

end TapHold
