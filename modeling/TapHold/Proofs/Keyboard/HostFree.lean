import TapHold.Host.CallLog
import TapHold.Host.Report
import TapHold.Proofs.Host.Tapped
import TapHold.Proofs.Keyboard.Journal
import TapHold.Proofs.Keymap.Uniform

/-!
# Keyboards and their hosts

The host of a keyboard can answer what it likes, and be in any state: without extensions nothing
that it does gets back to the keyboard. Two keyboards with one arbiter keep one arbiter, and their
hosts get the same requests, so that whatever relates the hosts and stays at requests
(`Request.Keeps`) stays at the calls of the keyboards (`Twins.call`).

What the hosts get is `heard` by listening to them. Listening is one such relation
(`twins_call_tapped`); that a host which remembers its calls remembers those that are heard is
another one (`calls_call`); and that logs are alike is the third. With it, two keyboards that differ
in their hosts only have the same state after the same calls, and their hosts hear alike calls
(`unaffected_by_host`), even if each host's state is changed at will between two calls.
-/

set_option autoImplicit false

namespace TapHold

variable {η η' : Type}

namespace Keyboard.Call

/-! ## Calls and hosts -/

/-- The call with another kind of host. -/
def map (f : η → η') : Call η → Call η'
  | .event e => .event e
  | .tick now => .tick now
  | .reset => .reset
  | .settings s => .settings s
  | .layers l => .layers l
  | .host h => .host (f h)

/-- A call that is not the host's own, as a call of a keyboard with a host of any kind. -/
def lift (c : Call Empty) : Call η := c.map nofun

theorem map_lift (f : η → η') (c : Call Empty) : (lift c).map f = lift c := by
  cases c with
  | host none => exact none.elim
  | _ => rfl

end Keyboard.Call

variable [Host η] [Host η']

/-! ## Two keyboards with one arbiter -/

/-- A relation of two hosts that stays when both get a request. -/
def Request.Keeps (R : η → η' → Prop) : Prop :=
  ∀ (r : Request) {h : η} {h' : η'}, R h h' → R (r.run h) (r.run h')

/-- A relation stays at requests when it stays at calls and the modifiers are the same. -/
theorem Request.keeps_of_perform {R : η → η' → Prop}
    (perform : ∀ {h h'} (c : HostCall), R h h' → R (Host.perform h c) (Host.perform h' c))
    (modifiers : ∀ {h h'}, R h h' → Host.modifiers h = Host.modifiers h') : Request.Keeps R := by
  intro r
  induction r with
  | nothing => exact id
  | call c => exact perform c
  | under bits r ih =>
    intro h h' related
    have inner := ih (perform (.addModifiers bits) related)
    -- both hosts are to restore the same byte
    show R (Host.perform _ (.setModifiers (Host.modifiers h)))
      (Host.perform _ (.setModifiers (Host.modifiers h')))
    rw [modifiers related]
    exact perform _ inner

namespace Outlet

/-- Two outlets that differ in their hosts only, which are related. -/
structure Twins (R : η → η' → Prop) (o : Outlet η NoHooks) (o' : Outlet η' NoHooks) : Prop where
  injected : o.injected = o'.injected
  host : R o.host o'.host

variable {R : η → η' → Prop} {o : Outlet η NoHooks} {o' : Outlet η' NoHooks}

theorem Twins.call (h : Twins R o o') (keeps : Request.Keeps R) (c : HostCall) :
    Twins R (o.call c) (o'.call c) := ⟨h.injected, keeps (.call c) h.host⟩

theorem Twins.emit (h : Twins R o o') (keeps : Request.Keeps R) (x : Emission) :
    Twins R (o.emit x) (o'.emit x) := by
  cases x with
  | dispatched d =>
    show Twins R (o.perform d.effect) (o'.perform d.effect)
    cases d.effect with
    | request r => exact ⟨h.injected, keeps r h.host⟩
    -- extensions are called, but there are none
    | hook c => exact ⟨h.injected, h.host⟩
    | unknown code => exact ⟨h.injected, h.host⟩
  | overflow => exact h.call keeps .clearAll

theorem Twins.emitAll (h : Twins R o o') (keeps : Request.Keeps R) (out : List Emission) :
    Twins R (o.emitAll out) (o'.emitAll out) := by
  induction out generalizing o o' with
  | nil => exact h
  | cons x out ih => exact ih (h.emit keeps x)

end Outlet

namespace Keyboard

/-- Two keyboards that differ in their hosts only, which are related. -/
structure Twins (R : η → η' → Prop) (kb : Keyboard η NoHooks) (kb' : Keyboard η' NoHooks) :
    Prop where
  arbiter : kb.arbiter = kb'.arbiter
  outlet : kb.outlet.Twins R kb'.outlet

variable {R : η → η' → Prop} {kb : Keyboard η NoHooks} {kb' : Keyboard η' NoHooks} {km : Keymap}

/-- The arbiters say the same, so the hosts get the same requests. -/
theorem Twins.handle (h : Twins R kb kb') (keeps : Request.Keeps R) (e : KeyEvent) :
    Twins R (kb.handle km e) (kb'.handle km e) := by
  obtain ⟨a, o⟩ := kb
  obtain ⟨a', o'⟩ := kb'
  -- from here on there is one arbiter, and what it emits has nothing to do with a host
  obtain ⟨rfl, outlet⟩ := h
  exact ⟨rfl, outlet.emitAll keeps (a.handle km e).2⟩

theorem Twins.processInjected (h : Twins R kb kb') (keeps : Request.Keeps R) :
    Twins R (kb.processInjected km) (kb'.processInjected km) := by
  fun_induction Keyboard.processInjected kb km generalizing kb' with
  | case1 kb none =>
    have none' : kb'.outlet.injected = [] := h.outlet.injected.symm.trans none
    rw [processInjected_of_nil km none']
    exact h
  | case2 kb e rest some less ih =>
    have some' : kb'.outlet.injected = e :: rest := h.outlet.injected.symm.trans some
    have queued : Twins R (kb.withInjected rest) (kb'.withInjected rest) :=
      ⟨h.arbiter, rfl, h.outlet.host⟩
    rw [processInjected_of_cons km some']
    exact ih (queued.handle keeps e)

theorem Twins.process (h : Twins R kb kb') (keeps : Request.Keeps R) (e : KeyEvent) :
    Twins R (kb.process km e) (kb'.process km e) := (h.handle keeps e).processInjected keeps

/-- Keyboards with one arbiter stay such at a call that is not the host's own. -/
theorem Twins.call (h : Twins R kb kb') (keeps : Request.Keeps R) (km : Keymap) (c : Call Empty) :
    Twins R (kb.call km c.lift) (kb'.call km c.lift) := by
  cases c with
  | event e => exact h.process keeps e
  | tick now => exact h.process keeps (.tick now)
  | reset => exact ⟨congrArg Arbiter.reset h.arbiter, rfl, keeps (.call .clearAll) h.outlet.host⟩
  | settings s =>
    refine ⟨?_, h.outlet⟩
    show (kb.withSettings s).arbiter = (kb'.withSettings s).arbiter
    rw [withSettings, withSettings, withInterpreter, withInterpreter, h.arbiter]
  | layers l =>
    refine ⟨?_, h.outlet⟩
    show (kb.withLayers l).arbiter = (kb'.withLayers l).arbiter
    rw [withLayers, withLayers, withInterpreter, withInterpreter, h.arbiter]
  | host none => exact none.elim

/-! ## What the host hears -/

/-- The keyboard with a host that one listens to from now on. -/
def tapped (kb : Keyboard η NoHooks) : Keyboard (Tapped η) NoHooks :=
  ⟨kb.arbiter, ⟨.start kb.outlet.host, kb.outlet.hooks, kb.outlet.injected⟩⟩

/-- The calls that the host gets at a call of the keyboard, each behind the modifier byte that the
host had just before it. -/
def heard (km : Keymap) (kb : Keyboard η NoHooks) (c : Call η) : List (Byte × HostCall) :=
  (kb.tapped.call km (c.map .start)).outlet.host.log

/-- The calls that the host gets at a list of calls of the keyboard. -/
def heardAll (km : Keymap) (kb : Keyboard η NoHooks) : List (Call η) → List (Byte × HostCall)
  | [] => []
  | c :: cs => kb.heard km c ++ heardAll km (kb.call km c) cs

/-- **Listening changes nothing**: a keyboard whose host is listened to does what it does
otherwise. -/
theorem twins_call_tapped (km : Keymap) (kb : Keyboard η NoHooks) (c : Call Empty) :
    Twins (fun t h => t.host = h) (kb.tapped.call km c.lift) (kb.call km c.lift) := by
  have start : Twins (fun t h => t.host = h) kb.tapped kb := ⟨rfl, rfl, rfl⟩
  refine start.call (Request.keeps_of_perform ?_ ?_) km c
  · rintro t _ c rfl
    rfl
  · rintro t _ rfl
    rfl

/-- A host that remembers its calls remembers those that are heard. -/
theorem calls_call (km : Keymap) (kb : Keyboard CallLog NoHooks) (c : Call Empty) :
    (kb.call km c.lift).outlet.host.calls = kb.outlet.host.calls ++
      (kb.heard km c.lift).flatMap fun entry => CallLog.entries entry.2 := by
  let R (t : Tapped CallLog) (h : CallLog) : Prop := t.host = h ∧
    h.calls = kb.outlet.host.calls ++ t.log.flatMap fun entry => CallLog.entries entry.2
  have keeps : Request.Keeps R := by
    refine Request.keeps_of_perform ?_ ?_
    · rintro t _ c ⟨rfl, told⟩
      refine ⟨rfl, ?_⟩
      show t.host.calls ++ CallLog.entries c =
        _ ++ (t.log ++ [(Host.modifiers t.host, c)]).flatMap fun entry => CallLog.entries entry.2
      rw [told, List.flatMap_append, List.flatMap_singleton, List.append_assoc]
    · rintro t _ ⟨rfl, -⟩
      rfl
  have start : Twins R kb.tapped kb := ⟨rfl, rfl, rfl, (List.append_nil _).symm⟩
  rw [heard, Call.map_lift]
  exact (start.call keeps km c).outlet.host.2

/-- The hosts of two keyboards with one arbiter hear alike calls. -/
theorem alike_heard (same : kb.arbiter = kb'.arbiter)
    (queued : kb.outlet.injected = kb'.outlet.injected) (c : Call Empty) :
    Tapped.Alike (kb.heard km c.lift) (kb'.heard km c.lift) := by
  have start : Twins (fun t t' => Tapped.Alike t.log t'.log) kb.tapped kb'.tapped :=
    ⟨same, queued, .nil⟩
  have next := start.call (fun r _ _ alike => alike.run r) km c
  rw [heard, heard, Call.map_lift, Call.map_lift]
  exact next.outlet.host

/-- Two lists of calls that are the same but for what each host does by itself: its state may
become any other in between, as when its reports are read. -/
inductive SameCalls : List (Call η) → List (Call η') → Prop where
  | nil : SameCalls [] []
  | host {calls : List (Call η)} {calls' : List (Call η')} (h : η) (rest : SameCalls calls calls') :
      SameCalls (.host h :: calls) calls'
  | host' {calls : List (Call η)} {calls' : List (Call η')} (h : η')
      (rest : SameCalls calls calls') : SameCalls calls (.host h :: calls')
  | both {calls : List (Call η)} {calls' : List (Call η')} (c : Call Empty)
      (rest : SameCalls calls calls') : SameCalls (c.lift :: calls) (c.lift :: calls')

/-- Whatever their hosts are, two keyboards with one arbiter and the same queued events have one
arbiter and the same queued events after the same calls, and their hosts have got the same calls,
but for the modifiers that each of them was to restore. -/
theorem unaffected_by_host (km : Keymap) (kb : Keyboard η NoHooks) (kb' : Keyboard η' NoHooks)
    (calls : List (Call η)) (calls' : List (Call η')) (same : kb.arbiter = kb'.arbiter)
    (queued : kb.outlet.injected = kb'.outlet.injected) (shared : SameCalls calls calls') :
    (calls.foldl (call km) kb).arbiter = (calls'.foldl (call km) kb').arbiter ∧
      (calls.foldl (call km) kb).outlet.injected = (calls'.foldl (call km) kb').outlet.injected ∧
      Tapped.Alike (kb.heardAll km calls) (kb'.heardAll km calls') := by
  -- what a host does by itself is not heard, and changes neither arbiter nor queue
  induction shared generalizing kb kb' with
  | nil => exact ⟨same, queued, .nil⟩
  | host h _ ih => exact ih (kb.withHost h) kb' same queued
  | host' h _ ih => exact ih kb (kb'.withHost h) same queued
  | both c _ ih =>
    have twins : Twins (fun _ _ => True) kb kb' := ⟨same, queued, trivial⟩
    have next := twins.call (fun _ _ _ _ => trivial) km c
    obtain ⟨arbiter, injected, log⟩ :=
      ih (kb.call km c.lift) (kb'.call km c.lift) next.arbiter next.outlet.injected
    exact ⟨arbiter, injected, (alike_heard same queued c).append log⟩

/-- A report host with room for one report lets shift go when the next report finds no room, so
another byte is restored after a key under control than by a host that remembers its calls. -/
theorem unaffected_by_full_host :
    let km := Keymap.ofKeys fun key =>
      if key.col = 0 then 0x00e1 else if key.col = 1 then 0x0005 else 0x0104
    let kb := start .standard 0 8 (ReportHost.empty 1) NoHooks.none
    let kb' := start .standard 0 8 CallLog.empty NoHooks.none
    let press (col : Byte) : Call Empty := .event ⟨⟨0, col⟩, true, ⟨0⟩⟩
    let calls : List (Call ReportHost) := [(press 0).lift, (press 1).lift, (press 2).lift]
    let calls' : List (Call CallLog) :=
      [(press 0).lift, (press 1).lift, .host ⟨2, []⟩, (press 2).lift]
    kb.heardAll km calls = [(0, .addModifiers 2), (2, .register 5), (0, .addModifiers 1),
        (0, .register 4), (0, .setModifiers 0)] ∧
      kb'.heardAll km calls' = [(0, .addModifiers 2), (2, .register 5), (2, .addModifiers 1),
        (3, .register 4), (3, .setModifiers 2)] ∧
      (calls.foldl (call km) kb).arbiter = (calls'.foldl (call km) kb').arbiter ∧
      Tapped.Alike (kb.heardAll km calls) (kb'.heardAll km calls') := by
  intro km kb kb' press calls calls'
  have shared : SameCalls calls calls' :=
    .both (press 0) (.both (press 1) (.host' (CallLog.mk 2 []) (.both (press 2) .nil)))
  obtain ⟨arbiter, -, log⟩ := unaffected_by_host km kb kb' calls calls' rfl rfl shared
  exact ⟨by decide +kernel, by decide +kernel, arbiter, log⟩

end Keyboard

end TapHold
