import TapHold.Proofs.Arbiter.Overflow
import TapHold.Proofs.Keyboard.Journal

/-!
# Laws for every record that a keyboard hands over

An invariant of a keyboard without extensions speaks of the events that came and of what was emitted
since everything was dropped for the last time; a law speaks of a record by what came and was
emitted before it. `Traced` collects what has to be shown of them for a single move and a single
arrival, which is enough for every list of calls: the invariant holds at the end, and every record
in the journal obeys the law (`Traced.calls`).
-/

set_option autoImplicit false

namespace TapHold

/-- What is to hold of a record by the events that came and by what was emitted before it. -/
abbrev Law := List KeyEvent → List Emission → Dispatched → Prop

namespace Arbiter

variable {km : Keymap} {ok : Arbiter → KeyEvent → Bool}
  {inv : (Position → Bool) → List KeyEvent → List Emission → Arbiter → Prop} {law : Law}
  {down : Position → Bool} {arrived : List KeyEvent} {out out' : List Emission} {a b : Arbiter}
  {e : KeyEvent} {d : Dispatched} {told : List Note}

/-- An invariant that lasts from one drop to the next, and a law for the records that are handed
over. -/
structure Traced (km : Keymap) (ok : Arbiter → KeyEvent → Bool)
    (inv : (Position → Bool) → List KeyEvent → List Emission → Arbiter → Prop) (law : Law) : Prop
    extends Kept km ok (· ≠ .overflow) inv where
  /-- Nothing is held any more. -/
  drop : ∀ {down arrived out a b}, inv down arrived out a → b.candidate = none → b.line = [] →
    b.term = a.term → inv down [] [] b
  /-- The layers change, or settings other than the term. -/
  interpreter : ∀ {down arrived out a} (i : Interpreter), inv down arrived out a →
    i.settings.term = a.term → inv down arrived out { a with interpreter := i }
  handed : ∀ {down arrived out a d b}, Move km a [.dispatched d] b → inv down arrived out a →
    law arrived out d
  arriving : ∀ {down arrived out a d b e}, Arrival km e a [.dispatched d] b → e.isTick = false →
    e.pressed = !down e.key → ok a e = true → inv down arrived out a → law (arrived ++ [e]) out d
  more : ∀ {arrived out d} (es : List KeyEvent), law arrived out d → law (arrived ++ es) out d

/-- Every record that is emitted obeys the law. -/
def Obeys (law : Law) (arrived : List KeyEvent) (out out' : List Emission) : Prop :=
  ∀ pre d post, out' = pre ++ .dispatched d :: post → law arrived (out ++ pre) d

/-! ## Small steps -/

theorem emitted_dispatch_cases (a : Arbiter) (km : Keymap) (r : Record) (s : Bool) :
    (a.dispatch km r s).emitted = [] ∨ ∃ x, (a.dispatch km r s).emitted = [x] := by
  cases real : r.isTick with
  | true => exact Or.inl (congrArg Handover.emitted (dispatch_of_tick a km real s))
  | false => exact Or.inr ⟨_, emitted_dispatch a km real s⟩

/-- A move emits at most one thing. -/
theorem emitted_move (m : Move km a out b) : out = [] ∨ ∃ x, out = [x] := by
  cases m with
  | lapse | interrupt | start => exact Or.inl rfl
  | hold | pass | overtake | again | release | displace => exact emitted_dispatch_cases a km _ _
  | tap | startTap => exact emitted_dispatch_cases a km _ _
  | overflow => exact Or.inr ⟨_, rfl⟩

theorem emitted_arrival (arrival : Arrival km e a out b) : out = [] ∨ ∃ x, out = [x] := by
  cases arrival with
  | join => exact Or.inl rfl
  | tap => exact emitted_dispatch_cases a km _ _

/-- A record that a small step emits is all that it emits. -/
theorem obeys_single (small : out' = [] ∨ ∃ x, out' = [x])
    (each : ∀ d, out' = [.dispatched d] → law arrived out d) : Obeys law arrived out out' := by
  intro pre d post split
  rcases small with rfl | ⟨x, rfl⟩
  · exact absurd split (by simp)
  · cases pre with
    | nil =>
      rw [List.append_nil]
      obtain rfl := (List.cons.inj split).1
      exact each d rfl
    | cons y pre => exact absurd split (by simp)

theorem Obeys.append {out₁ out₂ : List Emission} (first : Obeys law arrived out out₁)
    (last : Obeys law arrived (out ++ out₁) out₂) : Obeys law arrived out (out₁ ++ out₂) := by
  intro pre d post split
  rcases Account.split_append split with ⟨mid, rfl, -⟩ | ⟨mid, rfl, rfl⟩
  · exact first pre d mid rfl
  · rw [← List.append_assoc]
    exact last mid d post rfl

theorem obeys_nil : Obeys law arrived out [] := fun pre d post split => absurd split (by simp)

namespace Traced

theorem fine (calm : Emission.overflow ∉ out') : ∀ x ∈ out', x ≠ Emission.overflow :=
  fun _ hx => ne_of_mem_of_not_mem hx calm

theorem obeys_moves (h : Traced km ok inv law) (m : Moves km a out' b)
    (calm : Emission.overflow ∉ out') (before : inv down arrived out a) :
    Obeys law arrived out out' := by
  induction m generalizing out with
  | refl => exact obeys_nil
  | step m _ ih =>
    rw [List.mem_append, not_or] at calm
    refine Obeys.append (obeys_single (emitted_move m) ?_) ?_
    · rintro d rfl
      exact h.handed m before
    · exact ih calm.2 (h.move m (fine calm.1) before)

theorem obeys_passage (h : Traced km ok inv law) (p : Passage km e a out' b)
    (calm : Emission.overflow ∉ out') (real : e.isTick = false) (next : e.pressed = !down e.key)
    (admitted : ok a e = true) (before : inv down arrived out a) :
    Obeys law (arrived ++ [e]) out out' := by
  obtain ⟨a₁, a₂, out₁, out₂, out₃, first, arrival, last, rfl⟩ := p
  rw [List.mem_append, List.mem_append, not_or, not_or] at calm
  have still : ok a₁ e = true := first.keep (p := fun d => ok d e = true) h.stays admitted
  have here := h.moves first (fine calm.1) before
  refine Obeys.append ?_ (Obeys.append (obeys_single (emitted_arrival arrival) ?_) ?_)
  · exact fun pre d post split => h.more [e] (h.obeys_moves first calm.1 before pre d post split)
  · rintro d rfl
    exact h.arriving arrival real next still here
  · exact h.obeys_moves last calm.2.2 (h.arrival arrival real next still here)

end Traced

/-! ## Events -/

/-- The invariant holds, and every record in the journal obeys the law. -/
structure Trace (inv : (Position → Bool) → List KeyEvent → List Emission → Arbiter → Prop)
    (law : Law) (down : Position → Bool) (told : List Note) (a : Arbiter) : Prop where
  rested : a.Rested
  now : inv down (arrivals (sinceDrop told)) (emissions (sinceDrop told)) a
  each : ∀ pre d post, told = pre ++ .emitted (.dispatched d) :: post →
    law (arrivals (sinceDrop pre)) (emissions (sinceDrop pre)) d

/-- A record that is emitted while an event is handled is emitted after the event has come. -/
theorem split_handled {pre post : List Note}
    (split : handled e out = pre ++ .emitted (.dispatched d) :: post) :
    ∃ out₁ out₂, out = out₁ ++ .dispatched d :: out₂ ∧ pre = handled e out₁ := by
  cases pre with
  | nil => cases split
  | cons n pre =>
    obtain ⟨rfl, rest⟩ := List.cons.inj split
    obtain ⟨out₁, tail, rfl, rfl, htail⟩ := List.map_eq_append_iff.mp rest
    obtain ⟨x, out₂, rfl, hx, -⟩ := List.map_eq_cons_iff.mp htail
    obtain rfl := Note.emitted.inj hx
    exact ⟨out₁, out₂, rfl, rfl⟩

/-- What is told in addition is told of an event that has been handled. -/
theorem Trace.each_handled (t : Trace inv law down told a)
    (new : ∀ pre d post, out' = pre ++ .dispatched d :: post →
      Emission.overflow ∉ pre ∧ law (arrivals (sinceDrop told) ++ realEvents [e])
        (emissions (sinceDrop told) ++ pre) d) :
    ∀ pre d post, told ++ handled e out' = pre ++ .emitted (.dispatched d) :: post →
      law (arrivals (sinceDrop pre)) (emissions (sinceDrop pre)) d := by
  intro pre d post split
  rcases Account.split_append split with ⟨mid, rfl, -⟩ | ⟨mid, found, rfl⟩
  · exact t.each pre d mid rfl
  · obtain ⟨out₁, out₂, rfl, rfl⟩ := split_handled found
    obtain ⟨calm, said⟩ := new out₁ d out₂ rfl
    rw [sinceDrop_append _ (drops_handled calm), arrivals_append, emissions_append,
      arrivals_handled, emissions_handled]
    exact said

/-- Handling an event keeps the invariant and the law. -/
theorem Trace.handle (h : Traced km ok inv law) (t : Trace inv law down told a)
    (admitted : (e.isTick || e.pressed == !down e.key && ok a e) = true) :
    Trace inv law (if e.isTick then down else e.after down) (told ++ handled e (a.handle km e).2)
      (a.handle km e).1 := by
  have rested := rested_handle a km e
  cases tick : e.isTick with
  | true =>
    have noTick : ∀ c, a.candidate = some c → c.isTick = false := h.real t.now
    have calm : Emission.overflow ∉ (a.handle km e).2 := overflow_notMem_handle tick noTick
    have chain : Moves km a (a.handle km e).2 (a.handle km e).1 := handle_tick_moves tick noTick
    have none : realEvents [e] = [] := by simp [realEvents, tick]
    refine ⟨rested, ?_, t.each_handled fun pre d post split => ⟨?_, ?_⟩⟩
    · rw [arrivals_sinceDrop_handled _ calm, emissions_sinceDrop_handled _ calm, none,
        List.append_nil]
      exact h.moves chain (Traced.fine calm) t.now
    · exact fun lost => calm (split ▸ List.mem_append_left _ lost)
    · rw [none, List.append_nil]
      exact h.obeys_moves chain calm t.now pre d post split
  | false =>
    rw [tick, Bool.false_or, Bool.and_eq_true, beq_iff_eq] at admitted
    have one : realEvents [e] = [e] := by simp [realEvents, tick]
    have passes : Passes km e a (a.handle km e).2 (a.handle km e).1 := handle_passes t.rested tick
    generalize (a.handle km e).1 = b at passes rested ⊢
    generalize (a.handle km e).2 = out at passes ⊢
    cases passes with
    | kept calm passage =>
      refine ⟨rested, ?_, t.each_handled fun pre d post split => ⟨?_, ?_⟩⟩
      · rw [arrivals_sinceDrop_handled _ calm, emissions_sinceDrop_handled _ calm, one]
        exact h.passage passage (Traced.fine calm) tick admitted.1 admitted.2 t.now
      · exact fun lost => calm (split ▸ List.mem_append_left _ lost)
      · rw [one]
        exact h.obeys_passage passage calm tick admitted.1 admitted.2 t.now pre d post split
    | @lost out b calm passage =>
      -- what is emitted before the overflow obeys the law, and nothing is held afterwards
      have last := h.passage passage (Traced.fine calm) tick admitted.1 admitted.2 t.now
      refine ⟨rested, ?_, t.each_handled fun pre d post split => ?_⟩
      · rw [sinceDrop_handled_overflow]
        exact h.drop last rfl rfl rfl
      · obtain ⟨post, rfl⟩ : ∃ post', out = pre ++ .dispatched d :: post' := by
          rcases Account.split_append split with ⟨mid, found, -⟩ | ⟨mid, found, -⟩
          · exact ⟨mid, found⟩
          · have here : Emission.dispatched d ∈ [Emission.overflow] := by
              rw [found]
              simp
            cases List.mem_singleton.mp here
        refine ⟨fun lost => calm (List.mem_append_left _ lost), ?_⟩
        rw [one]
        exact h.obeys_passage passage calm tick admitted.1 admitted.2 t.now pre d post rfl

end Arbiter

/-! ## Calls -/

namespace Keyboard

variable {η : Type} [Host η]

/-- Which keys are down after a call. -/
def Call.after (down : Position → Bool) : Call η → Position → Bool
  | .event e => if e.isTick then down else e.after down
  | _ => down

/-- Whether a call may come: a key event has to be the next edge of its key and to satisfy `ok`, and
settings keep the term. -/
def Call.isAdmitted (ok : Arbiter → KeyEvent → Bool) (down : Position → Bool) (a : Arbiter) :
    Call η → Bool
  | .event e => e.isTick || e.pressed == !down e.key && ok a e
  | .settings s => s.term == a.term
  | _ => true

/-- Whether every call of a list may come. -/
def admitsCalls (ok : Arbiter → KeyEvent → Bool) (km : Keymap) (down : Position → Bool)
    (kb : Keyboard η NoHooks) : List (Call η) → Bool
  | [] => true
  | c :: cs =>
    c.isAdmitted ok down kb.arbiter && admitsCalls ok km (c.after down) (kb.call km c) cs

variable {km : Keymap} {kb : Keyboard η NoHooks}

/-- Without extensions nothing happens but the handling of the event. -/
theorem processNotes_eq_handled (e : KeyEvent) (none : kb.outlet.injected = []) :
    kb.processNotes km e = handled e (kb.arbiter.handle km e).2 := by
  have empty : (kb.handle km e).outlet.injected = [] :=
    (Outlet.injected_emitAll kb.outlet _).trans none
  rw [processNotes, injectedNotes_of_nil km empty, List.append_nil]

end Keyboard

namespace Arbiter

variable {η : Type} [Host η] {km : Keymap} {ok : Arbiter → KeyEvent → Bool}
  {inv : (Position → Bool) → List KeyEvent → List Emission → Arbiter → Prop} {law : Law}
  {down : Position → Bool} {told : List Note} {kb : Keyboard η NoHooks}

/-- What every small step keeps, every call keeps. -/
theorem Trace.call (h : Traced km ok inv law) (t : Trace inv law down told kb.arbiter)
    (c : Keyboard.Call η) (admitted : c.isAdmitted ok down kb.arbiter = true)
    (none : kb.outlet.injected = []) :
    (kb.call km c).outlet.injected = [] ∧
      Trace inv law (c.after down) (told ++ kb.notes km c) (kb.call km c).arbiter := by
  have event (e : KeyEvent)
      (admitted : (e.isTick || e.pressed == !down e.key && ok kb.arbiter e) = true) :
      (kb.process km e).outlet.injected = [] ∧
        Trace inv law (if e.isTick then down else e.after down) (told ++ kb.processNotes km e)
          (kb.process km e).arbiter := by
    refine ⟨Keyboard.injected_process km e none, ?_⟩
    rw [Keyboard.processNotes_eq_handled e none, Keyboard.process_eq_handle km e none]
    exact t.handle h admitted
  cases c with
  | event e => exact event e admitted
  | tick now => exact event (.tick now) rfl
  | reset =>
    refine ⟨rfl, fun _ => rfl, ?_, fun pre d post split => ?_⟩
    · show inv down (arrivals (sinceDrop (told ++ [.reset])))
        (emissions (sinceDrop (told ++ [.reset]))) _
      rw [sinceDrop_concat_of_drops told rfl]
      exact h.drop t.now rfl rfl rfl
    · rcases Account.split_append split with ⟨mid, rfl, -⟩ | ⟨mid, found, -⟩
      · exact t.each pre d mid rfl
      · have here : Note.emitted (.dispatched d) ∈ [Note.reset] := by
          rw [show [Note.reset] = _ from found]
          simp
        cases List.mem_singleton.mp here
  | settings s =>
    rw [Keyboard.notes, List.append_nil]
    exact ⟨none, t.rested, h.interpreter _ t.now (beq_iff_eq.mp admitted), t.each⟩
  | layers l =>
    rw [Keyboard.notes, List.append_nil]
    exact ⟨none, t.rested, h.interpreter _ t.now rfl, t.each⟩
  | host state =>
    rw [Keyboard.notes, List.append_nil]
    exact ⟨none, t.rested, t.now, t.each⟩

/-- What every small step keeps, every list of calls keeps. -/
theorem Trace.calls (h : Traced km ok inv law) (t : Trace inv law down told kb.arbiter)
    (cs : List (Keyboard.Call η)) (admitted : kb.admitsCalls ok km down cs = true)
    (none : kb.outlet.injected = []) :
    Trace inv law (cs.foldl Keyboard.Call.after down) (told ++ kb.journal km cs)
      (cs.foldl (Keyboard.call km) kb).arbiter := by
  induction cs generalizing kb down told with
  | nil =>
    rw [Keyboard.journal, List.append_nil]
    exact t
  | cons c cs ih =>
    rw [Keyboard.admitsCalls, Bool.and_eq_true] at admitted
    rw [Keyboard.journal, ← List.append_assoc]
    obtain ⟨none', next⟩ := t.call h c admitted.1 none
    exact ih next admitted.2 none'

/-- After every list of calls from the start the invariant holds, and every record in the journal
obeys the law. -/
theorem Traced.calls (h : Traced km ok inv law) (settings : Settings) (layer : LayerNumber)
    (capacity : Nat) (host : η) (cs : List (Keyboard.Call η))
    (admitted : (Keyboard.start settings layer capacity host NoHooks.none).admitsCalls ok km allUp
      cs = true)
    (start : inv allUp [] [] (start settings layer capacity)) :
    Trace inv law (cs.foldl Keyboard.Call.after allUp)
      ((Keyboard.start settings layer capacity host NoHooks.none).journal km cs)
      (cs.foldl (Keyboard.call km)
        (Keyboard.start settings layer capacity host NoHooks.none)).arbiter := by
  have first : Trace inv law allUp []
      (Keyboard.start settings layer capacity host NoHooks.none).arbiter :=
    ⟨fun _ => rfl, start, fun pre d post split => absurd split (by simp)⟩
  exact first.calls h cs admitted rfl

end Arbiter

end TapHold
