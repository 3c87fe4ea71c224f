import TapHold.Host.Held

/-!
# A host that reports over a bounded queue

The host keeps what is held down and puts a report into its queue for every call that changes it;
each call finds out by a test of its own whether it does. When a report finds the queue full, the
queue is replaced by a single `Report.clear` and the host lets everything go, so that a reader of
the queue still ends up with what the host holds.
-/

set_option autoImplicit false

namespace TapHold

/-- What is held down, and the reports that nobody has read yet. -/
structure ReportHost where
  capacity : Nat
  /-- Oldest first. -/
  queue : List Report
  held : Held
deriving DecidableEq

namespace ReportHost

/-- The room of a queue where no other is asked for. -/
def standardCapacity : Nat := 64

/-- Nothing is down and nothing waits to be read. -/
def empty (capacity : Nat) : ReportHost := ⟨capacity, [], .nothing⟩

/-- Puts a report into the queue; when it is full, everything is let go. -/
def send (host : ReportHost) (r : Report) : ReportHost :=
  if host.queue.length < host.capacity then { host with queue := host.queue ++ [r] }
  else { host with queue := [Report.clear].take host.capacity, held := .nothing }

/-- Puts a report into the queue if there is a change to report. -/
def sendIf (host : ReportHost) (changed : Bool) (r : Report) : ReportHost :=
  if changed then host.send r else host

/-- Changes the modifier byte. -/
def updateModifiers (host : ReportHost) (bits : Byte) : ReportHost :=
  if host.held.modifiers = bits then host
  else { host with held := { host.held with modifiers := bits } }.send (.modifiers bits)

/-- The host after a call. Each call has a test of its own for whether it changes anything. -/
def perform (host : ReportHost) : HostCall → ReportHost
  | .register code =>
    let added := host.held.keys.add code
    { host with held := { host.held with keys := added.1 } }.sendIf added.2 (.key code true)
  | .unregister code =>
    let removed := host.held.keys.remove code
    { host with held := { host.held with keys := removed.1 } }.sendIf removed.2 (.key code false)
  | .addModifiers bits => host.updateModifiers (host.held.modifiers ||| bits)
  | .removeModifiers bits => host.updateModifiers (host.held.modifiers &&& ~~~bits)
  | .setModifiers bits => host.updateModifiers bits
  | .clearKeys =>
    if host.held.isIdle then host
    else { host with held := host.held.modifiersOnly }.send .clearKeys
  | .clearAll => { host with held := .nothing }.send .clear
  | .usage page code =>
    if host.held.usage page = code then host
    else { host with held := host.held.withUsage page code }.send (.usage page code)
  | .mouseOn code =>
    if code.isMouse then
      if host.held.mouse &&& code.mouseBit = 0 then
        { host with held := { host.held with mouse := host.held.mouse ||| code.mouseBit } }.send
          (.mouse code true)
      else host
    else host
  | .mouseOff code =>
    if code.isMouse then
      if host.held.mouse &&& code.mouseBit ≠ 0 then
        { host with held := { host.held with mouse := host.held.mouse &&& ~~~code.mouseBit } }.send
          (.mouse code false)
      else host
    else host

instance : Host ReportHost := ⟨perform, fun host => host.held.modifiers⟩

/-- The first `n` reports, and the host without them. -/
def read (host : ReportHost) (n : Nat) : List Report × ReportHost :=
  (host.queue.take n, { host with queue := host.queue.drop n })

end ReportHost

end TapHold
