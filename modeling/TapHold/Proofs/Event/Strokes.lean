import Mathlib.Algebra.Group.Nat.Defs
import TapHold.Event

/-!
# Strokes of one key

A key that goes down and comes up again makes a stroke. Strokes and ticks are told on a clock that
does not wrap; a keyboard gets them with its stamps (`Beat.event`). Less than half the range apart,
the stamps tell what the wide clock tells (`Time.isWithin_ofMillis`).

How many taps in a row a stroke is depends on the times of all strokes before it: it is one more
than the stroke before it, if that one was a tap that came up in time, and if the key went down
again in time (`Stroke.count`). `strokeRecords` has the edges of the strokes with these counts.
-/

set_option autoImplicit false

namespace TapHold

/-- Less than half the range apart, two stamps tell whether a time lies in the window that the other
one opens. -/
theorem Time.isWithin_ofMillis {t u : Nat} (order : t ≤ u) (near : u < t + 2 ^ 15) (term : Word) :
    (Time.ofMillis u).isWithin (Time.ofMillis t) term = decide (u - t < term.toNat) := by
  have gap : ((Time.ofMillis u).since (Time.ofMillis t)).toNat = u - t := by
    simp only [since, ofMillis, BitVec.toNat_sub, BitVec.toNat_ofNat]
    omega
  have soon : ((Time.ofMillis u).since (Time.ofMillis t)).msb = false := by
    rw [BitVec.msb_eq_decide, gap, decide_eq_false_iff_not]
    omega
  simp only [isWithin, isNotBefore, soon, Bool.not_false, Bool.true_and, BitVec.lt_def, gap]

/-- A key goes down and comes up again, in milliseconds of a clock that does not wrap. -/
structure Stroke where
  press : Nat
  release : Nat

/-- What comes while one key is struck: its press, its release, or a tick. -/
inductive Beat where
  | press (ms : Nat)
  | release (ms : Nat)
  | tick (ms : Nat)

namespace Beat

/-- The time on the wide clock. -/
def ms : Beat → Nat
  | .press ms => ms
  | .release ms => ms
  | .tick ms => ms

/-- Whether the key goes down or up. -/
def isEdge : Beat → Bool
  | .tick _ => false
  | _ => true

/-- The event that a keyboard gets when `key` is struck. -/
def event (key : Position) : Beat → KeyEvent
  | .press ms => ⟨key, true, .ofMillis ms⟩
  | .release ms => ⟨key, false, .ofMillis ms⟩
  | .tick ms => .tick (.ofMillis ms)

/-- The first of the edges comes less than half the range of the stamps after `since`. -/
def Soon (since : Nat) (edges : List Beat) : Prop :=
  ∀ x ∈ edges.head?, x.ms < since + 2 ^ 15

end Beat

namespace Stroke

/-- The two edges of a stroke. -/
def beats (s : Stroke) : List Beat := [.press s.press, .release s.release]

/-- The count of a stroke that continues no tap: one if the key comes up within the term. -/
def firstCount (term : Nat) (s : Stroke) : Nat := if s.release - s.press < term then 1 else 0

/-- The count of a stroke after the stroke before it, which had some count. -/
def count (term : Nat) (last : Option (Stroke × Nat)) (s : Stroke) : Nat :=
  match last with
  | none => s.firstCount term
  | some (t, n) =>
    if 1 ≤ n ∧ t.release - t.press < term ∧ s.press - t.release < term then
      min (n + 1) Tap.maxCount
    else s.firstCount term

/-- The press of a stroke with a count. -/
def pressed (key : Position) (s : Stroke) (n : Nat) : Record :=
  ⟨⟨key, true, .ofMillis s.press⟩, ⟨n, false⟩⟩

/-- The release of a stroke with a count. -/
def released (key : Position) (s : Stroke) (n : Nat) : Record :=
  ⟨⟨key, false, .ofMillis s.release⟩, ⟨n, false⟩⟩

/-- A stroke that does not continue the tap before it is counted as if there were none. -/
theorem count_of_late {term n : Nat} {t s : Stroke} (late : term ≤ s.press - t.release) :
    s.count term (some (t, n)) = s.firstCount term :=
  if_neg fun continues => Nat.not_lt_of_le late continues.2.2

/-- No tap continues a hold, or a tap that came up late. -/
theorem count_of_long {term n : Nat} {t s : Stroke} (long : term ≤ t.release - t.press) :
    s.count term (some (t, n)) = s.firstCount term :=
  if_neg fun continues => Nat.not_lt_of_le long continues.2.1

theorem firstCount_of_long {term : Nat} {s : Stroke} (long : term ≤ s.release - s.press) :
    s.firstCount term = 0 := if_neg (Nat.not_lt_of_le long)

theorem firstCount_of_short {term : Nat} {s : Stroke} (short : s.release - s.press < term) :
    s.firstCount term = 1 := if_pos short

/-- A stroke that continues the tap before it counts one more. -/
theorem count_of_soon {term n : Nat} {t s : Stroke} (pos : 1 ≤ n)
    (short : t.release - t.press < term) (soon : s.press - t.release < term) :
    s.count term (some (t, n)) = min (n + 1) Tap.maxCount := if_pos ⟨pos, short, soon⟩

end Stroke

/-- The press and the release of each stroke, in order, both with the count of the stroke. -/
def strokeRecords (key : Position) (term : Nat) (last : Option (Stroke × Nat)) :
    List Stroke → List Record
  | [] => []
  | s :: rest =>
    s.pressed key (s.count term last) :: s.released key (s.count term last) ::
      strokeRecords key term (some (s, s.count term last)) rest

variable {strokes : List Stroke} {edges : List Beat} {ms : Nat}

/-- A first stroke that continues nothing makes all that came before immaterial. -/
theorem strokeRecords_of_fresh (key : Position) (term : Nat) {last : Option (Stroke × Nat)}
    (fresh : ∀ s ∈ strokes.head?, s.count term last = s.firstCount term) :
    strokeRecords key term last strokes = strokeRecords key term none strokes := by
  cases strokes with
  | nil => rfl
  | cons s rest =>
    rw [strokeRecords, strokeRecords, fresh s rfl]
    rfl

/-- A hold makes all that came before immaterial. -/
theorem strokeRecords_of_long {key : Position} {term n : Nat} {s : Stroke}
    (long : term ≤ s.release - s.press) (strokes : List Stroke) :
    strokeRecords key term (some (s, n)) strokes = strokeRecords key term none strokes :=
  strokeRecords_of_fresh key term fun _ _ => Stroke.count_of_long long

/-- The records are the edges of the strokes, in order. -/
theorem event_strokeRecords (key : Position) (term : Nat) (last : Option (Stroke × Nat))
    (strokes : List Stroke) : (strokeRecords key term last strokes).map Record.event =
      (strokes.flatMap Stroke.beats).map (Beat.event key) := by
  induction strokes generalizing last with
  | nil => rfl
  | cons s rest ih =>
    rw [strokeRecords, List.map_cons, List.map_cons, ih]
    rfl

/-- No stroke has been interrupted by another key. -/
theorem calm_of_mem_strokeRecords {key : Position} {term : Nat} {last : Option (Stroke × Nat)}
    {r : Record} (hr : r ∈ strokeRecords key term last strokes) :
    r.event.key = key ∧ r.tap.interrupted = false := by
  induction strokes generalizing last with
  | nil => cases hr
  | cons s rest ih =>
    rcases List.mem_cons.mp hr with rfl | hr
    · exact ⟨rfl, rfl⟩
    rcases List.mem_cons.mp hr with rfl | hr
    · exact ⟨rfl, rfl⟩
    · exact ih hr

/-- A press is the first edge of a stroke. -/
theorem exists_of_press (h : .press ms :: edges = strokes.flatMap Stroke.beats) :
    ∃ s rest, strokes = s :: rest ∧ ms = s.press ∧
      edges = .release s.release :: rest.flatMap Stroke.beats := by
  cases strokes with
  | nil => cases h
  | cons s rest =>
    obtain ⟨press, release⟩ := List.cons.inj h
    exact ⟨s, rest, rfl, Beat.press.inj press, release⟩

/-- The press of the first stroke is the first edge. -/
theorem press_mem_head? {s : Stroke} (h : s ∈ strokes.head?) :
    .press s.press ∈ (strokes.flatMap Stroke.beats).head? := by
  obtain ⟨rest, rfl⟩ := List.head?_eq_some_iff.mp h
  rfl

/-- Strokes start with a press. -/
theorem release_ne_strokes (ms : Nat) (edges : List Beat) (strokes : List Stroke) :
    .release ms :: edges ≠ strokes.flatMap Stroke.beats := by
  intro h
  cases strokes with
  | nil => cases h
  | cons s rest => cases (List.cons.inj h).1

/-- All beats of a stroke are edges. -/
theorem filter_isEdge_strokes (strokes : List Stroke) :
    (strokes.flatMap Stroke.beats).filter Beat.isEdge = strokes.flatMap Stroke.beats := by
  rw [List.filter_eq_self]
  intro x hx
  obtain ⟨s, -, hs⟩ := List.mem_flatMap.mp hx
  rcases List.mem_cons.mp hs with rfl | hs
  · rfl
  · obtain rfl := List.mem_singleton.mp hs
    rfl

end TapHold
