import TapHold.Event

/-!
# The backlog

Records that wait until the candidate before them is settled, oldest first. A backlog has room for a
fixed number of records. Ticks never wait.
-/

set_option autoImplicit false

namespace TapHold

/-- Waiting records, oldest first. -/
structure Backlog where
  capacity : Nat
  records : List Record
deriving DecidableEq

namespace Backlog

/-- The room of a backlog where no other is asked for. -/
def standardCapacity : Nat := 8

/-- No record waits. -/
def empty (capacity : Nat) : Backlog := ⟨capacity, []⟩

/-- The number of waiting records. -/
def size (b : Backlog) : Nat := b.records.length

/-- Whether no record waits. -/
def isEmpty (b : Backlog) : Bool := b.records.isEmpty

/-- The backlog with one more record at the end, or nothing when it is full. A tick is passed
over. -/
def push? (b : Backlog) (r : Record) : Option Backlog :=
  if r.isTick then some b
  else if b.records.length < b.capacity then some { b with records := b.records ++ [r] }
  else none

/-- The oldest record. -/
def front? (b : Backlog) : Option Record := b.records.head?

/-- The backlog without its oldest record. -/
def dropFront (b : Backlog) : Backlog := { b with records := b.records.tail }

/-- The backlog with another record in place of the oldest. -/
def setFront (b : Backlog) (r : Record) : Backlog :=
  match b.records with
  | [] => b
  | _ :: rest => { b with records := r :: rest }

/-- The backlog with every record changed. -/
def map (b : Backlog) (f : Record → Record) : Backlog := { b with records := b.records.map f }

/-- The backlog with no record. -/
def clear (b : Backlog) : Backlog := { b with records := [] }

/-- Whether the opposite edge of the event's key waits: the key has been typed in the meantime. -/
def hasOpposite (b : Backlog) (e : KeyEvent) : Bool :=
  b.records.any fun r => r.event.key == e.key && r.event.pressed != e.pressed

/-- Whether a press of another key waits. -/
def hasOtherPress (b : Backlog) (key : Position) : Bool :=
  b.records.any fun r => r.event.pressed && r.event.key != key

/-- The records, where the oldest that satisfies `p` is changed by `f`. -/
def modifyFirstIn (p : Record → Bool) (f : Record → Record) : List Record → List Record
  | [] => []
  | r :: rest => if p r then f r :: rest else r :: modifyFirstIn p f rest

/-- The backlog, where the oldest record that satisfies `p` is changed by `f`. -/
def modifyFirst (b : Backlog) (p : Record → Bool) (f : Record → Record) : Backlog :=
  { b with records := modifyFirstIn p f b.records }

theorem length_modifyFirstIn (p : Record → Bool) (f : Record → Record) (rs : List Record) :
    (modifyFirstIn p f rs).length = rs.length := by
  induction rs with
  | nil => rfl
  | cons r rest ih =>
    unfold modifyFirstIn
    split
    · rfl
    · simp [ih]

@[simp] theorem size_modifyFirst (b : Backlog) (p : Record → Bool) (f : Record → Record) :
    (b.modifyFirst p f).size = b.size := length_modifyFirstIn p f b.records

@[simp] theorem size_setFront (b : Backlog) (r : Record) : (b.setFront r).size = b.size := by
  unfold setFront size
  split <;> simp_all

@[simp] theorem size_dropFront (b : Backlog) : b.dropFront.size = b.size - 1 :=
  List.length_tail

end Backlog

end TapHold
