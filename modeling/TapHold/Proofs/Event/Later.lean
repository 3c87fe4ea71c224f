import TapHold.Backlog

/-!
# The same events at a later time

`KeyEvent.later` and `Record.later` move a time stamp by any number of milliseconds, around the end
of the clock if need be. Whatever is asked of a record or of a backlog has the same answer
afterwards, since a record shows its time only against that of another (`isWithin_later`). Two
records that are told apart before the move are told apart after it (`later_injective`).
-/

set_option autoImplicit false

namespace TapHold

theorem Time.after_right_comm (t : Time) (k delay : Word) :
    (t.after k).after delay = (t.after delay).after k := by
  simp only [after, Time.mk.injEq]
  bv_omega

namespace KeyEvent

/-- The same edge, `k` milliseconds later. -/
def later (k : Word) (e : KeyEvent) : KeyEvent := { e with time := e.time.after k }

variable (k : Word)

@[simp] theorem key_later (e : KeyEvent) : (e.later k).key = e.key := rfl

@[simp] theorem pressed_later (e : KeyEvent) : (e.later k).pressed = e.pressed := rfl

@[simp] theorem isWithin_later (e f : KeyEvent) (term : Word) :
    (e.later k).time.isWithin (f.later k).time term = e.time.isWithin f.time term :=
  Time.isWithin_after_after e.time f.time term k

theorem later_injective : Function.Injective (later k) := by
  rintro ⟨key, pressed, ⟨t⟩⟩ ⟨key', pressed', ⟨t'⟩⟩ same
  simp only [later, Time.after, KeyEvent.mk.injEq, Time.mk.injEq] at same ⊢
  exact ⟨same.1, same.2.1, (BitVec.add_left_inj k).mp same.2.2⟩

end KeyEvent

namespace Record

/-- The same record of an event `k` milliseconds later. -/
def later (k : Word) (r : Record) : Record := { r with event := r.event.later k }

variable (k : Word) (r : Record)

@[simp] theorem event_later : (r.later k).event = r.event.later k := rfl

@[simp] theorem tap_later : (r.later k).tap = r.tap := rfl

@[simp] theorem isTick_later : (r.later k).isTick = r.isTick := rfl

theorem later_injective : Function.Injective (later k) := by
  rintro ⟨e, tap⟩ ⟨e', tap'⟩ same
  obtain ⟨event, rfl⟩ := Record.mk.inj same
  obtain rfl := KeyEvent.later_injective k event
  rfl

end Record

namespace Backlog

variable (k : Word) (b : Backlog)

@[simp] theorem hasOpposite_later (e : KeyEvent) :
    (b.map (Record.later k)).hasOpposite (e.later k) = b.hasOpposite e := List.any_map

@[simp] theorem hasOtherPress_later (key : Position) :
    (b.map (Record.later k)).hasOtherPress key = b.hasOtherPress key := List.any_map

theorem dropFront_map (f : Record → Record) : (b.map f).dropFront = b.dropFront.map f := by
  rw [dropFront, dropFront, map, map, List.map_tail]

theorem setFront_map (f : Record → Record) (r : Record) :
    (b.map f).setFront (f r) = (b.setFront r).map f := by
  rcases b with ⟨capacity, _ | ⟨first, rest⟩⟩ <;> rfl

theorem modifyFirstIn_map {p q : Record → Bool} {f g h : Record → Record}
    (same : ∀ r, q (f r) = p r) (commute : ∀ r, h (f r) = f (g r)) (rs : List Record) :
    modifyFirstIn q h (rs.map f) = (modifyFirstIn p g rs).map f := by
  induction rs with
  | nil => rfl
  | cons r rest ih =>
    rw [List.map_cons, modifyFirstIn, modifyFirstIn, same r, commute r, ih]
    split <;> rfl

theorem modifyFirst_map {p q : Record → Bool} {f g h : Record → Record}
    (same : ∀ r, q (f r) = p r) (commute : ∀ r, h (f r) = f (g r)) :
    (b.map f).modifyFirst q h = (b.modifyFirst p g).map f :=
  congrArg (Backlog.mk b.capacity) (modifyFirstIn_map same commute b.records)

/-- There is room for a later record where there is room for the record. -/
theorem push?_later (r : Record) :
    (b.map (Record.later k)).push? (r.later k) = (b.push? r).map (·.map (Record.later k)) := by
  simp only [push?, map, Record.isTick_later, List.length_map]
  split
  · rfl
  split
  · rw [Option.map_some, List.map_append]
    rfl
  · rfl

end Backlog

end TapHold
