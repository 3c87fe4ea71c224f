import TapHold.Proofs.Host.Replay
import TapHold.Proofs.Host.Steady
import TapHold.Proofs.Keyboard.HostFree
import TapHold.Proofs.Keyboard.Recovery

/-!
# A reset forgets everything

Whatever has been done with a keyboard, after a reset its arbiter is the one that a keyboard starts
with, but for the settings, which stay (`Reached.arbiter_reset`): the default layer of the start is
kept for this through all calls (`startLayer_calls`), and so is the room of the backlog.

From then on a keyboard that has been reset and one that is started anew have the same arbiter after
the same calls. Their hosts hear alike calls, and the same calls as long as each host has the
modifier byte that its calls leave (`heardAll_eq_of_steady`): a host that remembers its calls always
has it, and a reporting host has it while no report is lost. The reset itself lets everything go,
and a reader learns of it even when the queue is full (`replay_clearAll`).
-/

set_option autoImplicit false

namespace TapHold

namespace Keyboard

variable {η η' : Type} [Host η] [Host η'] {km : Keymap} {layer : LayerNumber} {capacity : Nat}

/-! ## What a keyboard keeps of its start -/

/-- The keyboard has come by calls of a keyboard that was started with the default layer `layer` and
with room for `capacity` records. -/
def Reached (km : Keymap) (layer : LayerNumber) (capacity : Nat) (kb : Keyboard η NoHooks) : Prop :=
  ∃ (settings : Settings) (host : η) (calls : List (Call η)),
    kb = calls.foldl (call km) (start settings layer capacity host NoHooks.none)

/-- A keyboard that is started anew, with the settings that `kb` has now. -/
def anew (kb : Keyboard η NoHooks) (layer : LayerNumber) (capacity : Nat) (host : η') :
    Keyboard η' NoHooks :=
  start kb.arbiter.interpreter.settings layer capacity host NoHooks.none

variable {kb : Keyboard η NoHooks} {kb' : Keyboard η' NoHooks} {told : List Note}

theorem startLayer_process (h : Arbiter.Faithful capacity told kb.arbiter)
    (none : kb.outlet.injected = []) (e : KeyEvent) :
    (kb.process km e).arbiter.interpreter.startLayer = kb.arbiter.interpreter.startLayer := by
  rw [process_eq_handle km e none]
  exact congrArg Prod.snd (Arbiter.fixed_handle h.rested fun _ hc => h.sound.real_candidate hc)

/-- No call changes the default layer of the start. -/
theorem startLayer_calls (km : Keymap) (h : Arbiter.Faithful capacity told kb.arbiter)
    (none : kb.outlet.injected = []) (calls : List (Call η)) :
    (calls.foldl (call km) kb).arbiter.interpreter.startLayer =
      kb.arbiter.interpreter.startLayer := by
  induction calls generalizing kb told with
  | nil => rfl
  | cons c calls ih =>
    have next := ih ((Arbiter.lasting_faithful km capacity).call c h) (injected_call c none)
    refine next.trans ?_
    cases c with
    | event e => exact startLayer_process h none e
    | tick now => exact startLayer_process h none (.tick now)
    | reset | settings | layers | host => rfl

omit [Host η'] in
/-- **A reset keeps nothing but the settings**: the arbiter is the one of a keyboard that is started
anew. -/
theorem Reached.arbiter_reset (h : Reached km layer capacity kb) (host : η') :
    kb.reset.arbiter = (kb.anew layer capacity host).arbiter := by
  obtain ⟨settings, first, calls, rfl⟩ := h
  have begins : Arbiter.Faithful capacity []
      (start settings layer capacity first NoHooks.none).arbiter :=
    Arbiter.faithful_start settings layer capacity
  have room := ((Arbiter.lasting_faithful km capacity).calls calls begins).room
  have same := startLayer_calls km begins rfl calls
  simp only [reset, Arbiter.reset, Interpreter.reset, Arbiter.forget, Backlog.clear, anew, start,
    Arbiter.start, Backlog.empty] at room same ⊢
  rw [room, same]
  rfl

omit [Host η'] in
/-- A keyboard that has been reset and one that is started anew differ in their hosts only. -/
theorem Reached.twins_reset {R : η → η' → Prop} (h : Reached km layer capacity kb) {host : η'}
    (related : R (Host.perform kb.outlet.host .clearAll) host) :
    Twins R kb.reset (kb.anew layer capacity host) := ⟨h.arbiter_reset host, rfl, related⟩

/-! ## The same calls of two keyboards -/

/-- After the same calls two keyboards still differ in their hosts only. -/
theorem Twins.calls (h : Twins (fun _ _ => True) kb kb') {calls : List (Call η)}
    {calls' : List (Call η')} (shared : SameCalls calls calls') :
    Twins (fun _ _ => True) (calls.foldl (Keyboard.call km) kb)
      (calls'.foldl (Keyboard.call km) kb') := by
  induction shared generalizing kb kb' with
  | nil => exact h
  | host state _ ih =>
    have next : Twins (fun _ _ => True) (kb.withHost state) kb' :=
      ⟨h.arbiter, h.outlet.injected, trivial⟩
    exact ih next
  | host' state _ ih =>
    have next : Twins (fun _ _ => True) kb (kb'.withHost state) :=
      ⟨h.arbiter, h.outlet.injected, trivial⟩
    exact ih next
  | both c _ ih => exact ih (h.call (fun _ _ _ _ => trivial) km c)

omit [Host η] [Host η'] in
/-- Calls that are not the hosts' own are the same for hosts of any kind. -/
theorem sameCalls_lift (later : List (Call Empty)) :
    SameCalls (later.map (Call.lift : _ → Call η)) (later.map (Call.lift : _ → Call η')) := by
  induction later with
  | nil => exact .nil
  | cons c later ih => exact .both c ih

/-- What is heard is the log of the host's calls, and the host is what they make of it. -/
theorem heard_eq_record (km : Keymap) (kb : Keyboard η NoHooks) (c : Call Empty) :
    ∃ calls : List HostCall, kb.heard km c.lift = Tapped.record kb.outlet.host calls ∧
      (kb.heard km c.lift).map Prod.snd = calls ∧
      (kb.call km c.lift).outlet.host = calls.foldl Host.perform kb.outlet.host := by
  let R (t : Tapped η) (h : η) : Prop := t.host = h ∧ ∃ calls : List HostCall,
    t.log = Tapped.record kb.outlet.host calls ∧ t.log.map Prod.snd = calls ∧
      h = calls.foldl Host.perform kb.outlet.host
  have keeps : Request.Keeps R := by
    refine Request.keeps_of_perform ?_ ?_
    · rintro t _ c ⟨rfl, calls, log, told, host⟩
      refine ⟨rfl, calls ++ [c], ?_, ?_, ?_⟩
      · rw [Tapped.record_concat, ← log, ← host]
        rfl
      · rw [← told]
        exact List.map_append
      · rw [List.foldl_append, ← host]
        rfl
    · rintro t _ ⟨rfl, -⟩
      rfl
  have start : Twins R kb.tapped kb := ⟨rfl, rfl, rfl, [], rfl, rfl, rfl⟩
  rw [heard, Call.map_lift]
  exact (start.call keeps km c).outlet.host.2

/-- At every call the host's modifier byte is what the calls that it hears make of it, and what it
does by itself in between does not change the byte. -/
def Steady (km : Keymap) (kb : Keyboard η NoHooks) : List (Call η) → Prop
  | [] => True
  | c :: later =>
    Tapped.Steady (Host.modifiers kb.outlet.host) (kb.heard km c) ∧
      Host.modifiers (kb.call km c).outlet.host =
        Tapped.bitsAfter (Host.modifiers kb.outlet.host) (kb.heard km c) ∧
      Steady km (kb.call km c) later

/-- **Steady hosts hear the same calls**, whatever they are, when they start with the same modifiers
and their keyboards differ in nothing else. -/
theorem heardAll_eq_of_steady {later : List (Call η)} {later' : List (Call η')}
    (twins : Twins (fun h h' => Host.modifiers h = Host.modifiers h') kb kb')
    (shared : SameCalls later later') (steady : kb.Steady km later)
    (steady' : kb'.Steady km later') : kb.heardAll km later = kb'.heardAll km later' := by
  induction shared generalizing kb kb' with
  | nil => rfl
  | host state _ ih =>
    have bits : Host.modifiers state = Host.modifiers kb.outlet.host := steady.2.1
    have next : Twins (fun h h' => Host.modifiers h = Host.modifiers h') (kb.withHost state) kb' :=
      ⟨twins.arbiter, twins.outlet.injected, bits.trans twins.outlet.host⟩
    exact ih next steady.2.2 steady'
  | host' state _ ih =>
    have bits : Host.modifiers state = Host.modifiers kb'.outlet.host := steady'.2.1
    have next : Twins (fun h h' => Host.modifiers h = Host.modifiers h') kb (kb'.withHost state) :=
      ⟨twins.arbiter, twins.outlet.injected, twins.outlet.host.trans bits.symm⟩
    exact ih next steady steady'.2.2
  | both c _ ih =>
    obtain ⟨log, bits, rest⟩ := steady
    obtain ⟨log', bits', rest'⟩ := steady'
    have same : Host.modifiers kb.outlet.host = Host.modifiers kb'.outlet.host := twins.outlet.host
    rw [← same] at log' bits'
    have heard : kb.heard km c.lift = kb'.heard km c.lift :=
      (alike_heard twins.arbiter twins.outlet.injected c).eq_of_steady log log'
    have weak : Twins (fun _ _ => True) kb kb' := ⟨twins.arbiter, twins.outlet.injected, trivial⟩
    have next := weak.call (fun _ _ _ _ => trivial) km c
    rw [heardAll, heardAll, heard]
    rw [← heard] at bits'
    have after := ih ⟨next.arbiter, next.outlet.injected, bits.trans bits'.symm⟩ rest rest'
    rw [after]

/-! ## Hosts that lose nothing -/

/-- A host that remembers its calls is steady. -/
theorem steady_callLog (km : Keymap) (kb : Keyboard CallLog NoHooks) (later : List (Call Empty)) :
    kb.Steady km (later.map Call.lift) := by
  induction later generalizing kb with
  | nil => trivial
  | cons c later ih =>
    obtain ⟨calls, heard, -, host⟩ := heard_eq_record km kb c
    obtain ⟨steady, after⟩ := CallLog.steady_record kb.outlet.host calls
    refine ⟨?_, ?_, ih _⟩
    · rw [heard]
      exact steady
    · rw [heard, host]
      exact after

/-- No report is lost at the calls, and what the host does by itself in between leaves what it holds
as it is, as when its reports are read. -/
def Lossless (km : Keymap) (kb : Keyboard ReportHost NoHooks) : List (Call ReportHost) → Prop
  | [] => True
  | .host state :: later =>
    state.held = kb.outlet.host.held ∧ Lossless km (kb.withHost state) later
  | c :: later =>
    kb.outlet.host.Lossless ((kb.heard km c).map Prod.snd) ∧ Lossless km (kb.call km c) later

/-- A reporting host is steady while it loses nothing. -/
theorem steady_reportHost {kb : Keyboard ReportHost NoHooks} {later : List (Call ReportHost)}
    (h : kb.Lossless km later) : kb.Steady km later := by
  induction later generalizing kb with
  | nil => trivial
  | cons c later ih =>
    have own (c : Call Empty)
        (told : kb.outlet.host.Lossless ((kb.heard km c.lift).map Prod.snd)) :
        Tapped.Steady (Host.modifiers kb.outlet.host) (kb.heard km c.lift) ∧
          Host.modifiers (kb.call km c.lift).outlet.host =
            Tapped.bitsAfter (Host.modifiers kb.outlet.host) (kb.heard km c.lift) := by
      obtain ⟨calls, heard, rfl, host⟩ := heard_eq_record km kb c
      obtain ⟨steady, after⟩ := ReportHost.steady_record told
      rw [← heard] at steady after
      rw [host]
      exact ⟨steady, after⟩
    cases c with
    | host state => exact ⟨trivial, congrArg Held.modifiers h.1, ih h.2⟩
    | event e => exact and_assoc.mp ⟨own (.event e) h.1, ih h.2⟩
    | tick now => exact and_assoc.mp ⟨own (.tick now) h.1, ih h.2⟩
    | reset => exact and_assoc.mp ⟨own .reset h.1, ih h.2⟩
    | settings s => exact and_assoc.mp ⟨own (.settings s) h.1, ih h.2⟩
    | layers l => exact and_assoc.mp ⟨own (.layers l) h.1, ih h.2⟩

/-- Whoever reads all reports after everything was let go holds nothing, however full the queue
was. -/
theorem replay_clearAll {host : ReportHost} (pos : 0 < host.capacity) (reader : Held) :
    replay (Host.perform host .clearAll).queue reader = .nothing := by
  show replay (ReportHost.send _ _).queue reader = .nothing
  unfold ReportHost.send
  split
  · exact replay_concat _ _ _
  · show replay ([Report.clear].take host.capacity) reader = .nothing
    rw [List.take_of_length_le pos]
    rfl

/-! ## After a reset -/

/-- Whatever has been done with a keyboard, undecided keys, waiting records, one-shot modifiers,
layers and settings included: after a reset it does at every later call what one does that is
started anew with the settings as they are. The arbiters are the same after the same calls, whatever
the hosts are and whatever is read from them in between. A host that remembers its calls gets the
same calls as an empty one, and a reporting host gets them as long as neither it nor the other loses
a report. Right after the reset nothing is down at the host, nor, if the queue has any room, at a
reader who takes what waits in it. -/
theorem anew_of_reset (km : Keymap) (layer : LayerNumber) (capacity : Nat) :
    (∀ {η η' : Type} [Host η] [Host η'] (kb : Keyboard η NoHooks) (host : η')
      (later : List (Call η)) (later' : List (Call η')),
      Reached km layer capacity kb → SameCalls later later' →
        (later.foldl (call km) kb.reset).arbiter =
          (later'.foldl (call km) (kb.anew layer capacity host)).arbiter) ∧
    (∀ (kb : Keyboard CallLog NoHooks) (later : List (Call Empty)),
      Reached km layer capacity kb →
        kb.reset.heardAll km (later.map Call.lift) =
          (kb.anew layer capacity CallLog.empty).heardAll km (later.map Call.lift)) ∧
    (∀ (kb : Keyboard ReportHost NoHooks) (room : Nat) (later later' : List (Call ReportHost)),
      Reached km layer capacity kb → SameCalls later later' →
      kb.reset.Lossless km later →
      (kb.anew layer capacity (ReportHost.empty room)).Lossless km later' →
        kb.reset.heardAll km later =
          (kb.anew layer capacity (ReportHost.empty room)).heardAll km later') ∧
    (∀ (kb : Keyboard ReportHost NoHooks),
      kb.reset.outlet.host.held = .nothing ∧
        (0 < kb.outlet.host.capacity →
          ∀ reader, replay kb.reset.outlet.host.queue reader = .nothing)) := by
  refine ⟨?_, ?_, ?_, ?_⟩
  · intro η η' _ _ kb host later later' reached shared
    have twins : Twins (fun _ _ => True) kb.reset (kb.anew layer capacity host) :=
      reached.twins_reset trivial
    exact (twins.calls shared).arbiter
  · intro kb later reached
    exact heardAll_eq_of_steady (reached.twins_reset rfl) (sameCalls_lift later)
      (steady_callLog km _ later) (steady_callLog km _ later)
  · intro kb room later later' reached shared lossless lossless'
    have bits : Host.modifiers (Host.perform kb.outlet.host .clearAll) =
        Host.modifiers (ReportHost.empty room) :=
      congrArg Held.modifiers (held_clearAll kb.outlet.host)
    exact heardAll_eq_of_steady (reached.twins_reset bits) shared (steady_reportHost lossless)
      (steady_reportHost lossless')
  · intro kb
    exact ⟨held_clearAll kb.outlet.host, fun pos reader => replay_clearAll pos reader⟩

/-- A keyboard with room for one record has an undecided key, a full backlog, another layer and
another default layer, and the queue of its host is full. It is reset and all reports are read; then
a held key of control and a key under shift come, in the term that was set before the reset. -/
theorem anew_of_crowded_reset :
    let km := Keymap.ofKeys fun key =>
      if key.col = 0 then 0x2104 else if key.col = 1 then 0x00e0 else 0x0205
    let press (col : Byte) (ms : Word) : Call Empty := .event ⟨⟨0, col⟩, true, ⟨ms⟩⟩
    let calls : List (Call ReportHost) :=
      [.settings { Settings.standard with term := 50 }, .layers ⟨3, 1, 0⟩, (press 1 1).lift,
        (press 0 10).lift, (press 2 20).lift]
    let host : ReportHost := ⟨4, [.clear, .clear, .clear], .nothing⟩
    let kb := calls.foldl (call km) (start .standard 0 1 host NoHooks.none)
    let later : List (Call Empty) := [press 0 30, .tick ⟨90⟩, press 2 95]
    let reads : List (Call ReportHost) :=
      [.host (ReportHost.empty 4), (press 0 30).lift, Call.lift (.tick ⟨90⟩), (press 2 95).lift]
    (kb.arbiter.backlog.size = 1 ∧ kb.outlet.host.queue.length = 4 ∧
      kb.outlet.host.held ≠ .nothing) ∧
    (reads.foldl (call km) kb.reset).arbiter =
      ((later.map Call.lift).foldl (call km) (kb.anew 0 1 CallLog.empty)).arbiter ∧
    kb.reset.heardAll km reads =
      [(0, .addModifiers 1), (1, .addModifiers 2), (3, .register 5), (3, .setModifiers 1)] ∧
    kb.reset.heardAll km reads =
      (kb.anew 0 1 (ReportHost.empty 4)).heardAll km (later.map Call.lift) ∧
    replay kb.reset.outlet.host.queue kb.outlet.host.held = .nothing := by
  intro km press calls host kb later reads
  obtain ⟨arbiters, -, reports, released⟩ := anew_of_reset km 0 1
  have reached : Reached km 0 1 kb := ⟨.standard, host, calls, rfl⟩
  -- each queue is empty at first and has room for the reports of all calls
  have lossless : kb.reset.Lossless km reads :=
    And.intro (by decide +kernel) (And.intro (ReportHost.lossless_of_room (by decide +kernel))
      (And.intro (ReportHost.lossless_of_room (by decide +kernel))
        (And.intro (ReportHost.lossless_of_room (by decide +kernel)) trivial)))
  have lossless' : (kb.anew 0 1 (ReportHost.empty 4)).Lossless km (later.map Call.lift) :=
    And.intro (ReportHost.lossless_of_room (by decide +kernel))
      (And.intro (ReportHost.lossless_of_room (by decide +kernel))
        (And.intro (ReportHost.lossless_of_room (by decide +kernel)) trivial))
  refine ⟨by decide +kernel, ?_, by decide +kernel, ?_, ?_⟩
  · exact arbiters kb CallLog.empty reads (later.map Call.lift) reached
      (.host _ (sameCalls_lift later))
  · exact reports kb 4 reads (later.map Call.lift) reached (.host _ (sameCalls_lift later)) lossless
      lossless'
  · exact (released kb).2 (by decide +kernel) kb.outlet.host.held

end Keyboard

end TapHold
