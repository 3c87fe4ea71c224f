import Mathlib.Data.List.Forall2
import TapHold.Host.Basic

/-!
# Hosts with a log

A `Tapped` host is a host that one listens to: all calls go into a log, each behind the modifier
byte that the host had just before it.

Two hosts that get the same requests need not get the same calls, since the byte that is restored
after a key typed under modifiers is the one that the host had before. This is the only difference
(`alike_run`): their logs are `Alike`, the same call by call but for the bytes that are restored
(`Alike.forall₂`).
-/

set_option autoImplicit false

namespace TapHold

/-- A host with the calls that it has got, each behind the modifier byte from just before it. -/
structure Tapped (η : Type) where
  host : η
  log : List (Byte × HostCall)

namespace Tapped

variable {η η' : Type}

/-- A host of which nothing has been heard yet. -/
def start (h : η) : Tapped η := ⟨h, []⟩

variable [Host η] [Host η']

instance : Host (Tapped η) where
  perform t c := ⟨Host.perform t.host c, t.log ++ [(Host.modifiers t.host, c)]⟩
  modifiers t := Host.modifiers t.host

/-- Logs that are the same call by call, but for the modifier bytes before the calls and for those
that are restored: a byte is restored after what was done since modifiers were added to it. -/
inductive Alike : List (Byte × HostCall) → List (Byte × HostCall) → Prop where
  | nil : Alike [] []
  | call (before before' : Byte) (c : HostCall) : Alike [(before, c)] [(before', c)]
  | append {log log' more more' : List (Byte × HostCall)} (first : Alike log log')
      (next : Alike more more') : Alike (log ++ more) (log' ++ more')
  | under {inner inner' : List (Byte × HostCall)} (saved saved' before before' bits : Byte)
      (between : Alike inner inner') :
      Alike ((saved, .addModifiers bits) :: (inner ++ [(before, .setModifiers saved)]))
        ((saved', .addModifiers bits) :: (inner' ++ [(before', .setModifiers saved')]))

/-- Alike logs have the same calls, but for the bytes that modifiers are set to. -/
theorem Alike.forall₂ {log log' : List (Byte × HostCall)} (h : Alike log log') :
    List.Forall₂ (fun e e' => e.2 = e'.2 ∨
      ∃ saved saved', e.2 = .setModifiers saved ∧ e'.2 = .setModifiers saved') log log' := by
  induction h with
  | nil => exact .nil
  | call before before' c => exact .cons (.inl rfl) .nil
  | append _ _ first next => exact List.rel_append first next
  | under saved saved' before before' bits _ between =>
    exact .cons (.inl rfl)
      (List.rel_append between (.cons (.inr ⟨saved, saved', rfl, rfl⟩) .nil))

/-- **Two hosts get alike calls from a request**, whatever they are. -/
theorem alike_run (r : Request) (t : Tapped η) (t' : Tapped η') :
    ∃ more more', (r.run t).log = t.log ++ more ∧ (r.run t').log = t'.log ++ more' ∧
      Alike more more' := by
  -- by induction on the request: what is typed under modifiers is between two calls more
  induction r generalizing t t' with
  | nothing => exact ⟨[], [], (List.append_nil _).symm, (List.append_nil _).symm, .nil⟩
  | call c => exact ⟨_, _, rfl, rfl, .call _ _ c⟩
  | under bits r ih =>
    obtain ⟨inner, inner', log, log', between⟩ :=
      ih (Host.perform t (.addModifiers bits)) (Host.perform t' (.addModifiers bits))
    refine ⟨_, _, ?_, ?_, .under (Host.modifiers t.host) (Host.modifiers t'.host)
      (Host.modifiers (r.run (Host.perform t (.addModifiers bits))).host)
      (Host.modifiers (r.run (Host.perform t' (.addModifiers bits))).host) bits between⟩
    · show (r.run (Host.perform t (.addModifiers bits))).log ++ _ = _
      rw [log]
      exact (List.append_assoc _ _ _).trans (List.append_assoc _ _ _)
    · show (r.run (Host.perform t' (.addModifiers bits))).log ++ _ = _
      rw [log']
      exact (List.append_assoc _ _ _).trans (List.append_assoc _ _ _)

/-- Logs stay alike at a request. -/
theorem Alike.run {t : Tapped η} {t' : Tapped η'} (h : Alike t.log t'.log) (r : Request) :
    Alike (r.run t).log (r.run t').log := by
  obtain ⟨more, more', log, log', next⟩ := alike_run r t t'
  rw [log, log']
  exact h.append next

end Tapped

end TapHold
