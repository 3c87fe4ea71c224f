import TapHold.Hook.Script
import TapHold.Host.CallLog
import TapHold.Proofs.Hook.Muted
import TapHold.Proofs.Host.Tapped

/-!
# Queued events are deferred events

While an event is handled, extensions may ask to have further events queued. The first few of them
are accepted and the others are refused (`Queues.each`), and nothing else depends on the queue as
long as nothing is asked for (`handle_withInjected`). So when nothing is asked for while the queued
events are processed (`AsksNoMore`), they might as well have come from outside, one after another,
once the event that caused them was processed without them (`process_eq_deferred`).
-/

set_option autoImplicit false

namespace TapHold

variable {η χ : Type} [Host η]

namespace Outlet

/-! ## Events that extensions ask for -/

/-- The events that a program asks to have queued, each with the outlet that is asked. -/
def asked (o : Outlet η χ) : HookProgram χ → List (Outlet η χ × KeyEvent)
  | .done _ => []
  | .call c next => (o.call c).asked next
  | .modifiers next => o.asked (next (Host.modifiers o.host))
  | .inject e next => (o, e) :: (o.inject e).1.asked (next (o.inject e).2)

/-- Events are asked for, one after another, and the queue becomes `q'` from `q` by it. -/
inductive Queues : List KeyEvent → List (Outlet η χ × KeyEvent) → List KeyEvent → Prop where
  | nil (q : List KeyEvent) : Queues q [] q
  | cons (o : Outlet η χ) (e : KeyEvent) {rest : List (Outlet η χ × KeyEvent)}
      {q' : List KeyEvent} (next : Queues (o.inject e).1.injected rest q') :
      Queues o.injected ((o, e) :: rest) q'

section Queue

omit [Host η]

variable {q q' q'' : List KeyEvent} {asked asked' : List (Outlet η χ × KeyEvent)}

theorem Queues.append (first : Queues q asked q') (last : Queues q' asked' q'') :
    Queues q (asked ++ asked') q'' := by
  induction first with
  | nil => exact last
  | cons o e _ ih => exact .cons o e (ih last)

/-- An event is put behind the others, and what is too much is cut off. -/
theorem injected_inject {o : Outlet η χ} (fits : o.injected.length ≤ injectCapacity)
    (e : KeyEvent) : (o.inject e).1.injected = (o.injected ++ [e]).take injectCapacity := by
  by_cases some : o.injected.length < injectCapacity
  · rw [inject_of_room some, List.take_of_length_le]
    rw [List.length_append]
    exact some
  · have full : o.injected.length = injectCapacity := Nat.le_antisymm fits (Nat.le_of_not_lt some)
    rw [inject_of_full (by omega), List.take_append_of_le_length full.ge, ← full, List.take_length]

theorem take_take_append (xs ys : List KeyEvent) (n : Nat) :
    (xs.take n ++ ys).take n = (xs ++ ys).take n := by
  rw [List.take_append, List.take_append, List.take_take, Nat.min_self, List.length_take]
  congr 2
  omega

/-- The queue holds the first events that were asked for, as many as there is room for. -/
theorem Queues.last (h : Queues q asked q') (fits : q.length ≤ injectCapacity) :
    q' = (q ++ asked.map Prod.snd).take injectCapacity := by
  induction h with
  | nil q => rw [List.map_nil, List.append_nil, List.take_of_length_le fits]
  | cons o e next ih =>
    rw [injected_inject fits] at ih
    rw [ih (List.length_take_le _ _), take_take_append, List.append_assoc]
    rfl

/-- An event that is asked for finds those before it in the queue, as many as there is room for. -/
theorem Queues.each (h : Queues q asked q') (fits : q.length ≤ injectCapacity) {n : Nat}
    {o : Outlet η χ} {e : KeyEvent} (found : asked[n]? = some (o, e)) :
    o.injected = (q ++ (asked.map Prod.snd).take n).take injectCapacity := by
  induction h generalizing n with
  | nil => simp at found
  | cons o' e' next ih =>
    cases n with
    | zero =>
      obtain ⟨rfl, rfl⟩ := Prod.mk.inj (Option.some.inj found)
      rw [List.take_zero, List.append_nil, List.take_of_length_le fits]
    | succ n =>
      rw [injected_inject fits] at ih
      rw [ih (List.length_take_le _ _) found, take_take_append, List.append_assoc]
      rfl

end Queue

theorem queues_runProgram (p : HookProgram χ) (o : Outlet η χ) :
    Queues o.injected (o.asked p) (o.runProgram p).injected := by
  induction p generalizing o with
  | done hooks => exact .nil _
  | call c next ih => exact ih (o.call c)
  | modifiers next ih => exact ih _ o
  | inject e next ih => exact .cons o e (ih _ (o.inject e).1)

variable [Hooks χ]

/-- The events that extensions ask to have queued at an effect. -/
def askedBy (o : Outlet η χ) : Effect → List (Outlet η χ × KeyEvent)
  | .hook c => o.asked (Extensions.answer o.hooks c)
  | _ => []

/-- The events that extensions ask to have queued at an emission. -/
def askedAt (o : Outlet η χ) : Emission → List (Outlet η χ × KeyEvent)
  | .dispatched d => o.askedBy d.effect
  | .overflow => []

/-- The events that extensions ask to have queued at a list of emissions. -/
def askedAll (o : Outlet η χ) : List Emission → List (Outlet η χ × KeyEvent)
  | [] => []
  | x :: out => o.askedAt x ++ (o.emit x).askedAll out

theorem queues_emit (o : Outlet η χ) (x : Emission) :
    Queues o.injected (o.askedAt x) (o.emit x).injected := by
  cases x with
  | dispatched d =>
    show Queues o.injected (o.askedBy d.effect) (o.perform d.effect).injected
    cases d.effect with
    | request | unknown => exact .nil _
    | hook c => exact queues_runProgram _ o
  | overflow => exact .nil _

theorem queues_emitAll (o : Outlet η χ) (out : List Emission) :
    Queues o.injected (o.askedAll out) (o.emitAll out).injected := by
  induction out generalizing o with
  | nil => exact .nil _
  | cons x out ih => exact (queues_emit o x).append (ih (o.emit x))

/-! ## Where nothing is asked for -/

omit [Hooks χ] in
theorem runProgram_of_silent {p : HookProgram χ} {o : Outlet η χ} (silent : o.asked p = [])
    (q : List KeyEvent) :
    ({ o with injected := q } : Outlet η χ).runProgram p =
      { o.runProgram p with injected := q } := by
  induction p generalizing o with
  | done hooks => rfl
  | call c next ih => exact ih (o := o.call c) silent
  | modifiers next ih => exact ih _ silent
  | inject e next ih => exact absurd silent (List.cons_ne_nil _ _)

theorem emit_of_silent {o : Outlet η χ} {x : Emission} (silent : o.askedAt x = [])
    (q : List KeyEvent) :
    ({ o with injected := q } : Outlet η χ).emit x = { o.emit x with injected := q } := by
  cases x with
  | dispatched d =>
    replace silent : o.askedBy d.effect = [] := silent
    show ({ o with injected := q } : Outlet η χ).perform d.effect =
      { o.perform d.effect with injected := q }
    cases effect : d.effect with
    | request | unknown => rfl
    | hook c =>
      rw [effect] at silent
      exact runProgram_of_silent silent q
  | overflow => rfl

/-- **Nothing depends on the queue where nothing is asked for.** -/
theorem emitAll_of_silent {o : Outlet η χ} {out : List Emission} (silent : o.askedAll out = [])
    (q : List KeyEvent) :
    ({ o with injected := q } : Outlet η χ).emitAll out = { o.emitAll out with injected := q } := by
  induction out generalizing o with
  | nil => rfl
  | cons x out ih =>
    obtain ⟨first, rest⟩ := List.append_eq_nil_iff.mp silent
    show (({ o with injected := q } : Outlet η χ).emit x).emitAll out = _
    rw [emit_of_silent first]
    exact ih rest

end Outlet

namespace Keyboard

variable [Hooks χ] {km : Keymap} {kb : Keyboard η χ} {e : KeyEvent}

/-- The events that extensions ask to have queued while an event is handled, each with the outlet
that is asked. -/
def asked (kb : Keyboard η χ) (km : Keymap) (e : KeyEvent) : List (Outlet η χ × KeyEvent) :=
  kb.outlet.askedAll (kb.arbiter.handle km e).2

theorem handle_withInjected (silent : kb.asked km e = []) (q : List KeyEvent) :
    (kb.withInjected q).handle km e = (kb.handle km e).withInjected q :=
  congrArg (Keyboard.mk _) (Outlet.emitAll_of_silent silent q)

/-- Extensions ask for no events while those that are queued are processed. -/
inductive AsksNoMore (km : Keymap) : Keyboard η χ → Prop where
  | nil {kb : Keyboard η χ} (none : kb.outlet.injected = []) : AsksNoMore km kb
  | cons {kb : Keyboard η χ} {e : KeyEvent} {rest : List KeyEvent}
      (some : kb.outlet.injected = e :: rest) (silent : (kb.withInjected rest).asked km e = [])
      (later : AsksNoMore km ((kb.withInjected rest).handle km e)) : AsksNoMore km kb

/-- The queued events are processed as if they came from outside. -/
theorem AsksNoMore.processInjected (h : AsksNoMore km kb) :
    kb.processInjected km =
        kb.outlet.injected.foldl (fun kb f => kb.process km f) (kb.withInjected []) ∧
      kb.injectedNotes km = (kb.withInjected []).journal km (kb.outlet.injected.map .event) := by
  induction h with
  | @nil kb none =>
    have same : kb.withInjected [] = kb := congrArg kb.withInjected none.symm
    rw [processInjected_of_nil km none, injectedNotes_of_nil km none, none, same]
    exact ⟨rfl, rfl⟩
  | @cons kb f rest some silent later ih =>
    -- the next event leaves the queue as it is, and so it does when the queue is empty
    have left : ((kb.withInjected rest).handle km f).outlet.injected = rest :=
      congrArg (·.outlet.injected) (handle_withInjected silent rest)
    have handled : (kb.withInjected []).handle km f =
        ((kb.withInjected rest).handle km f).withInjected [] := handle_withInjected silent []
    have processed : (kb.withInjected []).process km f =
        ((kb.withInjected rest).handle km f).withInjected [] := by
      rw [process, handled]
      exact processInjected_of_nil km rfl
    have told : (kb.withInjected []).processNotes km f =
        TapHold.handled f ((kb.withInjected rest).arbiter.handle km f).2 := by
      rw [processNotes, handled, injectedNotes_of_nil km rfl, List.append_nil]
      rfl
    rw [left] at ih
    rw [processInjected_of_cons km some, injectedNotes_of_cons km some, some, List.foldl_cons,
      processed, List.map_cons, journal, ih.1, ih.2]
    refine ⟨rfl, ?_⟩
    show _ = (kb.withInjected []).processNotes km f ++
      journal km ((kb.withInjected []).process km f) _
    rw [told, processed]

/-- What can become of a keyboard by calls, and by what is done to the extensions in between. -/
inductive Reachable (km : Keymap) : Keyboard η χ → Prop where
  | start (settings : Settings) (layer : LayerNumber) (capacity : Nat) (host : η) (hooks : χ) :
    Reachable km (.start settings layer capacity host hooks)
  | call {kb : Keyboard η χ} (before : Reachable km kb) (c : Call η) : Reachable km (kb.call km c)
  | hooks {kb : Keyboard η χ} (before : Reachable km kb) (hooks : χ) :
    Reachable km ⟨kb.arbiter, { kb.outlet with hooks }⟩

theorem Reachable.uninjected (h : Reachable km kb) : kb.outlet.injected = [] := by
  induction h with
  | start => rfl
  | call _ c ih => exact injected_call c ih
  | hooks _ _ ih => exact ih

/-- **Events that extensions queue are deferred events.** Let extensions ask for any events while
an event is handled, and for none while those that are queued are processed. The first four that
are asked for are accepted; whoever asks for another is told that there is no room, and nothing
changes by it. The keyboard comes to the same state, its host with the log of all calls, its
extensions and its layers included, and its journal tells the same, calls of extensions included, as
if the extensions had queued nothing and the accepted events had come from outside after the
event, one by one. Nothing is left in the queue. -/
theorem process_eq_deferred {kb : Keyboard (Tapped η) χ} (reachable : kb.Reachable km)
    (e : KeyEvent) (later : (kb.handle km e).AsksNoMore km) :
    let asked := kb.asked km e
    let accepted := (asked.map Prod.snd).take Outlet.injectCapacity
    let alone := (kb.muted.process km e).unmuted
    kb.process km e = accepted.foldl (fun kb f => kb.process km f) alone ∧
      kb.processNotes km e = kb.muted.processNotes km e ++ alone.journal km (accepted.map .event) ∧
      (∀ n o f, asked[n]? = some (o, f) → o.injected = accepted.take n ∧
        o.inject f = if n < Outlet.injectCapacity then
          ({ o with injected := o.injected ++ [f] }, true) else (o, false)) ∧
      (kb.process km e).outlet.injected = [] := by
  intro asked accepted alone
  have none := reachable.uninjected
  have queues := Outlet.queues_emitAll kb.outlet (kb.arbiter.handle km e).2
  rw [none] at queues
  have queue : (kb.handle km e).outlet.injected = accepted := queues.last (Nat.zero_le _)
  obtain ⟨processed, told⟩ := later.processInjected
  rw [queue, ← unmuted_process] at processed told
  refine ⟨processed, ?_, fun n o f found => ?_, injected_processInjected _ km⟩
  · rw [processNotes, told, processNotes_muted]
  · have before : o.injected = accepted.take n := by
      rw [queues.each (Nat.zero_le _) found, List.nil_append, List.take_take, List.take_take,
        Nat.min_comm]
      rfl
    have length : o.injected.length = min n Outlet.injectCapacity := by
      have found' : n < asked.length := (List.getElem?_eq_some_iff.mp found).1
      rw [before, List.length_take, List.length_take, List.length_map]
      omega
    refine ⟨before, ?_⟩
    split
    · exact Outlet.inject_of_room (by omega) f
    · exact Outlet.inject_of_full (by omega) f

/-- A macro key is pressed behind a tap key, which has to be settled before the macro is played. The
macro asks for five events. -/
theorem process_of_macro :
    let km := Keymap.ofKeys fun key =>
      if key.col = 0 then 0x812c else if key.col = 1 then 0xc001
      else if key.col = 2 then 0x0005 else 0x0006
    let hooks : ScriptHooks := ⟨[⟨.playMacro, 1, some true, 1, [.inject ⟨0, 2⟩ true 1,
      .inject ⟨0, 2⟩ false 2, .call (.addModifiers 2), .inject ⟨0, 3⟩ true 3,
      .inject ⟨0, 3⟩ false 4, .inject ⟨0, 2⟩ true 5, .call (.removeModifiers 2)]⟩], []⟩
    let first : Keyboard (Tapped CallLog) ScriptHooks := .start .standard 0 8 (.start .empty) hooks
    let kb := (first.call km (.event ⟨⟨0, 0⟩, true, ⟨0⟩⟩)).call km (.event ⟨⟨0, 1⟩, true, ⟨10⟩⟩)
    let e := KeyEvent.tick ⟨300⟩
    let accepted : List KeyEvent := [⟨⟨0, 2⟩, true, ⟨11⟩⟩, ⟨⟨0, 2⟩, false, ⟨12⟩⟩,
      ⟨⟨0, 3⟩, true, ⟨13⟩⟩, ⟨⟨0, 3⟩, false, ⟨14⟩⟩]
    kb.Reachable km ∧ (kb.asked km e).map Prod.snd = accepted ++ [⟨⟨0, 2⟩, true, ⟨15⟩⟩] ∧
      (kb.handle km e).AsksNoMore km ∧
      kb.process km e =
        accepted.foldl (fun kb f => kb.process km f) (kb.muted.process km e).unmuted ∧
      (kb.process km e).outlet.host.log.map Prod.snd = [.clearKeys, .addModifiers 2,
        .removeModifiers 2, .register 5, .unregister 5, .register 6, .unregister 6] := by
  intro km hooks first kb e accepted
  have reachable : kb.Reachable km := ((Reachable.start _ _ _ _ _).call _).call _
  have asked : (kb.asked km e).map Prod.snd = accepted ++ [⟨⟨0, 2⟩, true, ⟨15⟩⟩] := by
    decide +kernel
  have later : (kb.handle km e).AsksNoMore km := by
    have silent {α : Type} {asked : List α} (none : asked.isEmpty = true) : asked = [] :=
      List.isEmpty_iff.mp none
    refine .cons (show _ = accepted from by decide +kernel) (silent (by decide +kernel)) ?_
    refine .cons (show _ = accepted.drop 1 from by decide +kernel) (silent (by decide +kernel)) ?_
    refine .cons (show _ = accepted.drop 2 from by decide +kernel) (silent (by decide +kernel)) ?_
    refine .cons (show _ = accepted.drop 3 from by decide +kernel) (silent (by decide +kernel)) ?_
    exact .nil (by decide +kernel)
  have deferred := (process_eq_deferred reachable e later).1
  rw [asked] at deferred
  exact ⟨reachable, asked, later, deferred, by decide +kernel⟩

end Keyboard

end TapHold
