import TapHold.Host.CallLog
import TapHold.Proofs.Host.Call
import TapHold.Proofs.Host.Tapped

/-!
# Hosts that lose nothing

A host answers with its modifier byte only. As long as the byte is what the calls make of it, one
call after another, the log of the host is `Steady`, and its calls say what the byte is. Alike logs
differ in the bytes that are restored, so two alike logs that are steady from one byte are one log
(`Alike.eq_of_steady`).

A host that remembers its calls keeps a steady log (`CallLog.steady_record`), and so does a
reporting host while it loses no report (`ReportHost.steady_record`), as when there is room for a
report of each call (`ReportHost.lossless_of_room`).
-/

set_option autoImplicit false

namespace TapHold

namespace Tapped

/-- The modifier byte that the calls of a log leave. -/
def bitsAfter (bits : Byte) (log : List (Byte × HostCall)) : Byte :=
  log.foldl (fun bits entry => CallLog.modifiersAfter bits entry.2) bits

/-- The byte before each call is what the calls before it leave. -/
def Steady (bits : Byte) : List (Byte × HostCall) → Prop
  | [] => True
  | entry :: log => entry.1 = bits ∧ Steady (CallLog.modifiersAfter bits entry.2) log

variable {bits : Byte} {log log' more : List (Byte × HostCall)}

theorem steady_append :
    Steady bits (log ++ more) ↔ Steady bits log ∧ Steady (bitsAfter bits log) more := by
  induction log generalizing bits with
  | nil => exact ⟨fun steady => ⟨trivial, steady⟩, And.right⟩
  | cons entry log ih =>
    rw [List.cons_append, Steady, Steady, ih, and_assoc]
    exact Iff.rfl

/-- **The calls of a steady log tell the bytes that are restored**: alike logs that are steady from
one byte are the same. -/
theorem Alike.eq_of_steady (h : Alike log log') (steady : Steady bits log)
    (steady' : Steady bits log') : log = log' := by
  induction h generalizing bits with
  | nil => rfl
  | call before before' c => rw [show before = before' from steady.1.trans steady'.1.symm]
  | append _ _ ih next =>
    rw [steady_append] at steady steady'
    obtain rfl := ih steady.1 steady'.1
    rw [next steady.2 steady'.2]
  | under saved saved' before before' bits' _ ih =>
    -- both logs begin at the byte that is restored
    obtain ⟨begins, rest⟩ := steady
    obtain ⟨begins', rest'⟩ := steady'
    rw [steady_append] at rest rest'
    obtain rfl := ih rest.1 rest'.1
    rw [show saved = saved' from begins.trans begins'.symm,
      show before = before' from rest.2.1.trans rest'.2.1.symm]

/-! ## The log of a host's calls -/

variable {η : Type} [Host η]

/-- The log of a host that gets some calls. -/
def record (host : η) : List HostCall → List (Byte × HostCall)
  | [] => []
  | c :: calls => (Host.modifiers host, c) :: record (Host.perform host c) calls

theorem record_concat (host : η) (calls : List HostCall) (c : HostCall) :
    record host (calls ++ [c]) =
      record host calls ++ [(Host.modifiers (calls.foldl Host.perform host), c)] := by
  induction calls generalizing host with
  | nil => rfl
  | cons first calls ih =>
    rw [List.cons_append, record, ih, record]
    rfl

/-- The log of some calls holds these calls. -/
theorem map_snd_record (host : η) (calls : List HostCall) :
    (record host calls).map Prod.snd = calls := by
  induction calls generalizing host with
  | nil => rfl
  | cons c calls ih => exact congrArg (c :: ·) (ih (Host.perform host c))

end Tapped

namespace CallLog

/-- A host that remembers its calls always has the byte that they leave. -/
theorem steady_record (log : CallLog) (calls : List HostCall) :
    Tapped.Steady log.modifiers (Tapped.record log calls) ∧
      (calls.foldl perform log).modifiers =
        Tapped.bitsAfter log.modifiers (Tapped.record log calls) := by
  induction calls generalizing log with
  | nil => exact ⟨trivial, rfl⟩
  | cons c calls ih => exact ⟨⟨rfl, (ih (log.perform c)).1⟩, (ih (log.perform c)).2⟩

end CallLog

/-- The modifiers that a call asks for. -/
theorem HostCall.modifiers_applyTo (c : HostCall) (h : Held) :
    (c.applyTo h).modifiers = CallLog.modifiersAfter h.modifiers c := by
  cases c with
  | mouseOn code | mouseOff code =>
    rw [applyTo]
    split <;> rfl
  | usage page code => cases page <;> rfl
  | _ => rfl

namespace ReportHost

/-- No report is lost at the calls: after each of them the host holds what the call asks for. -/
def Lossless (host : ReportHost) : List HostCall → Prop
  | [] => True
  | c :: calls =>
    (host.perform c).held = c.applyTo host.held ∧ (host.perform c).Lossless calls

/-- A reporting host has the byte that its calls leave while it loses nothing. -/
theorem steady_record {host : ReportHost} {calls : List HostCall} (h : host.Lossless calls) :
    Tapped.Steady host.held.modifiers (Tapped.record host calls) ∧
      (calls.foldl perform host).held.modifiers =
        Tapped.bitsAfter host.held.modifiers (Tapped.record host calls) := by
  induction calls generalizing host with
  | nil => exact ⟨trivial, rfl⟩
  | cons c calls ih =>
    obtain ⟨follows, rest⟩ := h
    have bits : (host.perform c).held.modifiers =
        CallLog.modifiersAfter host.held.modifiers c := by
      rw [follows]
      exact c.modifiers_applyTo host.held
    obtain ⟨steady, after⟩ := ih rest
    rw [bits] at steady after
    exact ⟨⟨rfl, steady⟩, after⟩

/-- A call adds at most one report to a queue that has room for it. -/
theorem length_queue_perform {host : ReportHost} (room : host.queue.length < host.capacity)
    (c : HostCall) : (host.perform c).queue.length ≤ host.queue.length + 1 ∧
      (host.perform c).capacity = host.capacity := by
  have send (held : Held) (r : Report) :
      ({ host with held }.send r).queue.length = host.queue.length + 1 ∧
        ({ host with held }.send r).capacity = host.capacity := by
    rw [ReportHost.send, if_pos room]
    exact ⟨List.length_append, rfl⟩
  by_cases clear : c = .clearAll
  · subst clear
    exact ⟨Nat.le_of_eq (send .nothing .clear).1, (send .nothing .clear).2⟩
  · rw [perform_eq_update host c clear, update]
    split
    · exact ⟨Nat.le_succ _, rfl⟩
    · exact ⟨Nat.le_of_eq (send _ _).1, (send _ _).2⟩

/-- Nothing is lost where there is room for a report of each call. -/
theorem lossless_of_room {host : ReportHost} {calls : List HostCall}
    (room : host.queue.length + calls.length ≤ host.capacity) : host.Lossless calls := by
  induction calls generalizing host with
  | nil => trivial
  | cons c calls ih =>
    rw [List.length_cons] at room
    have short : host.queue.length < host.capacity := by omega
    obtain ⟨more, same⟩ := length_queue_perform short c
    refine ⟨?_, ih (by omega)⟩
    rcases host.held_perform c with follows | ⟨full, -⟩
    · exact follows
    · exact absurd short (Nat.not_lt_of_le full)

end ReportHost

end TapHold
