import TapHold.Effect
import TapHold.Proofs.Host.Steady

/-!
# What a host hears of a request

A host hears a request as a number of calls. Which they are depends on the host only through its
modifier byte, which is restored after what is typed under further modifiers. For a host whose byte
is always what its calls make of it, the log of a request is therefore known beforehand
(`Request.log`), and so is the byte that it leaves (`Request.bitsAfter`).
-/

set_option autoImplicit false

namespace TapHold

/-- What an effect asks of the host. -/
def Effect.asked : Effect → Request
  | .request q => q
  | _ => .nothing

namespace Request

/-- The modifier byte after a request, where it was `bits`. -/
def bitsAfter : Request → Byte → Byte
  | .nothing, bits => bits
  | .call c, bits => CallLog.modifiersAfter bits c
  | .under _ _, bits => bits

/-- The calls of a request, each behind the modifier byte from just before it, where the byte was
`bits` at first. -/
def log : Request → Byte → List (Byte × HostCall)
  | .nothing, _ => []
  | .call c, bits => [(bits, c)]
  | .under more q, bits =>
    (bits, .addModifiers more) :: (q.log (bits ||| more) ++
      [(q.bitsAfter (bits ||| more), .setModifiers bits)])

variable {η : Type} [Host η]

theorem bitsAfter_log (q : Request) (bits : Byte) :
    Tapped.bitsAfter bits (q.log bits) = q.bitsAfter bits := by
  cases q with
  | nothing => rfl
  | call c => rfl
  | under more q =>
    -- the last call sets the byte
    rw [log, ← List.cons_append, Tapped.bitsAfter, List.foldl_append]
    rfl

/-- **What is heard of a request is its log**, if the byte before each call is what the calls before
it leave. -/
theorem log_of_steady (q : Request) (t : Tapped η) :
    ∃ more, (q.run t).log = t.log ++ more ∧
      ∀ bits, Tapped.Steady bits more → more = q.log bits := by
  induction q generalizing t with
  | nothing => exact ⟨[], (List.append_nil _).symm, fun _ _ => rfl⟩
  | call c =>
    refine ⟨[(Host.modifiers t.host, c)], rfl, fun bits steady => ?_⟩
    rw [log, show Host.modifiers t.host = bits from steady.1]
  | under more q ih =>
    obtain ⟨inner, heard, known⟩ := ih (Host.perform t (.addModifiers more))
    refine ⟨(Host.modifiers t.host, .addModifiers more) :: (inner ++
      [(Host.modifiers (q.run (Host.perform t (.addModifiers more))).host,
        .setModifiers (Host.modifiers t.host))]), ?_, fun bits steady => ?_⟩
    · show (q.run (Host.perform t (.addModifiers more))).log ++ _ = _
      rw [heard]
      exact (List.append_assoc _ _ _).trans (List.append_assoc _ _ _)
    · have begins : Host.modifiers t.host = bits := steady.1
      obtain ⟨between, last, -⟩ := Tapped.steady_append.mp steady.2
      have told : inner = q.log (bits ||| more) := known _ between
      -- what comes last is told by the byte that the calls in between leave
      have restored : Host.modifiers (q.run (Host.perform t (.addModifiers more))).host =
          q.bitsAfter (bits ||| more) := by
        rw [← bitsAfter_log, ← told]
        exact last
      rw [log, told, restored, begins]

/-- What a host hears of a request while it stays steady. -/
theorem log_run (q : Request) (host : η)
    (steady : Tapped.Steady (Host.modifiers host) (q.run (Tapped.start host)).log) :
    (q.run (Tapped.start host)).log = q.log (Host.modifiers host) := by
  obtain ⟨more, heard, known⟩ := q.log_of_steady (Tapped.start host)
  obtain rfl : (q.run (Tapped.start host)).log = more := heard
  exact known _ steady

/-- What is heard of a request is the log of the host's calls, and the host is what they make of
it. -/
theorem record_run (q : Request) (t : Tapped η) :
    ∃ calls : List HostCall, (q.run t).log = t.log ++ Tapped.record t.host calls ∧
      (q.run t).host = calls.foldl Host.perform t.host ∧ (q.run t).host = q.run t.host := by
  induction q generalizing t with
  | nothing => exact ⟨[], (List.append_nil _).symm, rfl, rfl⟩
  | call c => exact ⟨[c], rfl, rfl, rfl⟩
  | under more q ih =>
    obtain ⟨inner, log, host, same⟩ := ih (Host.perform t (.addModifiers more))
    refine ⟨.addModifiers more :: (inner ++ [.setModifiers (Host.modifiers t.host)]), ?_, ?_, ?_⟩
    · show (q.run (Host.perform t (.addModifiers more))).log ++ _ = _
      rw [log, host, Tapped.record, Tapped.record_concat]
      exact (List.append_assoc _ _ _).trans (List.append_assoc _ _ _)
    · show Host.perform (q.run (Host.perform t (.addModifiers more))).host _ = _
      rw [host, List.foldl_cons, List.foldl_append]
      rfl
    · show Host.perform (q.run (Host.perform t (.addModifiers more))).host _ = _
      rw [same]
      rfl

/-! ## Requests in a row -/

/-- The modifier byte after some requests. -/
def bitsAfterAll (qs : List Request) (bits : Byte) : Byte :=
  qs.foldl (fun bits q => q.bitsAfter bits) bits

/-- The calls of some requests, one request after another. -/
def logAll : List Request → Byte → List (Byte × HostCall)
  | [], _ => []
  | q :: qs, bits => q.log bits ++ logAll qs (q.bitsAfter bits)

theorem bitsAfter_logAll (qs : List Request) (bits : Byte) :
    Tapped.bitsAfter bits (logAll qs bits) = bitsAfterAll qs bits := by
  induction qs generalizing bits with
  | nil => rfl
  | cons q qs ih =>
    have split : Tapped.bitsAfter bits (q.log bits ++ logAll qs (q.bitsAfter bits)) =
        Tapped.bitsAfter (Tapped.bitsAfter bits (q.log bits)) (logAll qs (q.bitsAfter bits)) :=
      List.foldl_append
    rw [logAll, split, bitsAfter_log, ih]
    rfl

/-- What is heard of some requests, in the same way. -/
theorem logAll_of_steady (qs : List Request) (t : Tapped η) :
    ∃ more, (qs.foldl (fun t q => q.run t) t).log = t.log ++ more ∧
      ∀ bits, Tapped.Steady bits more → more = logAll qs bits := by
  induction qs generalizing t with
  | nil => exact ⟨[], (List.append_nil _).symm, fun _ _ => rfl⟩
  | cons q qs ih =>
    obtain ⟨first, heard, known⟩ := q.log_of_steady t
    obtain ⟨rest, heard', known'⟩ := ih (q.run t)
    refine ⟨first ++ rest, ?_, fun bits steady => ?_⟩
    · rw [List.foldl_cons, heard', heard, List.append_assoc]
    · obtain ⟨begins, ends⟩ := Tapped.steady_append.mp steady
      obtain rfl := known bits begins
      rw [bitsAfter_log] at ends
      rw [logAll, known' _ ends]

/-- What a host hears of some requests while it stays steady. -/
theorem log_runAll (qs : List Request) (host : η)
    (steady : Tapped.Steady (Host.modifiers host)
      (qs.foldl (fun t q => q.run t) (Tapped.start host)).log) :
    (qs.foldl (fun t q => q.run t) (Tapped.start host)).log =
      logAll qs (Host.modifiers host) := by
  obtain ⟨more, heard, known⟩ := logAll_of_steady qs (Tapped.start host)
  obtain rfl : (qs.foldl (fun t q => q.run t) (Tapped.start host)).log = more := heard
  exact known _ steady

end Request

end TapHold
