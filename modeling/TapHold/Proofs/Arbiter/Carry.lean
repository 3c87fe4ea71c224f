import TapHold.Proofs.Arbiter.Overflow
import TapHold.Proofs.Keymap.Uniform

/-!
# Records that pass in order

`Interpreter.carryOut` hands over records one after another. It is what draining does to the records
in line as long as no candidate is concerned with them and no press behind them overrules one
(`drain_of_slips`). On a keymap that no layer changes this can be told before the first of them is
handed over (`slips_of_plain`), for the kind of a key stays as it is while the layers change.
-/

set_option autoImplicit false

namespace TapHold

namespace Interpreter

variable {km : Keymap} {i j : Interpreter}

/-! ## Keymaps that no layer changes -/

theorem resolve_of_uniform (uniform : km.Uniform i.settings) (same : j.settings = i.settings)
    (key : Position) : j.resolve km key = i.resolve km key := by
  unfold resolve
  rw [same]
  exact uniform key j.layers i.layers

theorem isTapHoldKey_of_uniform (uniform : km.Uniform i.settings) (same : j.settings = i.settings)
    (key : Position) : j.isTapHoldKey km key = i.isTapHoldKey km key := by
  unfold isTapHoldKey
  rw [resolve_of_uniform uniform same]

theorem isModsTapKeyAt_of_uniform (uniform : km.Uniform i.settings)
    (same : j.settings = i.settings) (key : Position) :
    j.isModsTapKeyAt km key = i.isModsTapKeyAt km key := by
  unfold isModsTapKeyAt
  rw [resolve_of_uniform uniform same]

theorem holdsModifier_of_uniform (uniform : km.Uniform i.settings)
    (same : j.settings = i.settings) (r : Record) :
    j.holdsModifier km r = i.holdsModifier km r := by
  unfold holdsModifier
  rw [resolve_of_uniform uniform same]

/-! ## One record after another -/

/-- Hands over records one after another, when no press of another key waits behind any of them. -/
def carryOut (i : Interpreter) (km : Keymap) : List Record → Interpreter × List Emission
  | [] => (i, [])
  | r :: rs =>
    let o := i.dispatch km r false
    let rest := o.interpreter.carryOut km rs
    (rest.1, .dispatched ⟨r, o.record, o.effect, false⟩ :: rest.2)

theorem carryOut_append (i : Interpreter) (km : Keymap) (rs ts : List Record) :
    i.carryOut km (rs ++ ts) =
      (((i.carryOut km rs).1.carryOut km ts).1,
        (i.carryOut km rs).2 ++ ((i.carryOut km rs).1.carryOut km ts).2) := by
  induction rs generalizing i with
  | nil => rfl
  | cons r rs ih =>
    rw [List.cons_append, carryOut, ih]
    rfl

theorem settings_carryOut (i : Interpreter) (km : Keymap) (rs : List Record) :
    (i.carryOut km rs).1.settings = i.settings := by
  induction rs generalizing i with
  | nil => rfl
  | cons r rs ih => exact (ih _).trans (settings_dispatch i km r false)

end Interpreter

namespace Arbiter

variable {km : Keymap} {a b : Arbiter} {c r : Record} {rs rest : List Record}

/-- The arbiter with another state of its interpreter. -/
def withInterpreter (a : Arbiter) (i : Interpreter) : Arbiter := { a with interpreter := i }

/-- A record is handed over as if nothing waited behind it, unless a press that waits overrules
it. -/
theorem dispatch_eq_carryOut (a : Arbiter) (km : Keymap) (real : r.isTick = false)
    (firm : Interpreter.isOverruled r (a.backlog.hasOtherPress r.event.key) =
      Interpreter.isOverruled r false) :
    a.dispatch km r false =
      ⟨a.withInterpreter (a.interpreter.carryOut km [r]).1,
        (a.interpreter.dispatch km r false).record, (a.interpreter.carryOut km [r]).2⟩ := by
  have same : a.outcome km r = a.interpreter.dispatch km r false :=
    Interpreter.dispatch_congr a.interpreter km firm
  rw [dispatch_of_real a km real, same]
  rfl

/-! ## Records that no candidate is concerned with -/

/-- The record passes the candidate of `a` under the settings of `a`, whatever layers are on and
whatever waits, and nothing that waits overrules it. -/
structure Slips (km : Keymap) (a : Arbiter) (r : Record) : Prop where
  real : r.isTick = false
  firm : ∀ otherPress, Interpreter.isOverruled r otherPress = false
  passes : ∀ b : Arbiter, b.candidate = a.candidate →
    b.interpreter.settings = a.interpreter.settings → b.attempt km r = b.pass km r

theorem Slips.congr (h : a.Slips km r) (candidate : b.candidate = a.candidate)
    (settings : b.interpreter.settings = a.interpreter.settings) : b.Slips km r :=
  ⟨h.real, h.firm, fun d hc hs => h.passes d (hc.trans candidate) (hs.trans settings)⟩

/-- Where there is no candidate, whatever is asked of one holds. -/
theorem forall_candidate_of_none {p : Record → Prop} (hc : a.candidate = none) :
    ∀ c, a.candidate = some c → p c := fun _ some => absurd (hc.symm.trans some) (by simp)

/-- A record that is no tap passes when there is no candidate, or a tap that is still down and not
the key of a release, unless it is the press of a tap key. -/
theorem slips_of_plain (uniform : km.Uniform a.interpreter.settings) (real : r.isTick = false)
    (fresh : r.tap.count = 0 ∨ r.event.pressed = false)
    (plain : r.event.pressed = true → a.isTapHoldKey km r.event.key = false)
    (other : ∀ c, a.candidate = some c → c.event.pressed = true ∧ 0 < c.tap.count ∧
      (r.event.pressed = false → r.event.key ≠ c.event.key)) : a.Slips km r := by
  refine ⟨real, fun otherPress => ?_, fun b candidate settings => ?_⟩
  · rcases fresh with zero | up
    · exact Interpreter.isOverruled_of_count zero otherPress
    · exact Interpreter.isOverruled_of_up up otherPress
  -- the key is as plain under the layers of `b`
  have plain : (r.event.pressed && b.isTapHoldKey km r.event.key) = false := by
    rw [isTapHoldKey, Interpreter.isTapHoldKey_of_uniform uniform settings, Bool.and_eq_false_imp]
    exact plain
  unfold attempt
  rw [candidate]
  cases hc : a.candidate with
  | none => simp only [attemptFree, plain, Bool.false_eq_true, if_false]
  | some c =>
    obtain ⟨down, pos, foreign⟩ := other c hc
    have notOwn : (decide (r.event.key = c.event.key) && !r.event.pressed) = false := by
      cases pressed : r.event.pressed with
      | true => exact Bool.and_false _
      | false => simp [foreign pressed]
    simp only [down, Bool.not_true, Bool.false_eq_true, if_false, Nat.ne_of_gt pos, attemptTapped,
      notOwn, plain]

/-! ## Draining -/

/-- A record that passes leaves the front of the line. -/
theorem advance?_of_slips (hl : a.line = r :: rest) (slips : a.Slips km r) :
    a.advance? km = some ((a.withInterpreter (a.interpreter.carryOut km [r]).1).withLine rest,
      (a.interpreter.carryOut km [r]).2) := by
  have records : a.backlog.records = r :: rest := hl
  have firm : Interpreter.isOverruled r (a.backlog.hasOtherPress r.event.key) =
      Interpreter.isOverruled r false := (slips.firm _).trans (slips.firm false).symm
  have passed : a.attempt km r = a.pass km r := slips.passes a rfl rfl
  simp only [advance?, records, passed, pass, dispatch_eq_carryOut a km slips.real firm]
  simp only [withInterpreter, withLine, Backlog.dropFront, records, List.tail_cons]

/-- **Records that pass are handed over in order**, and draining goes on behind them. -/
theorem drain_of_slips (hl : a.line = rs ++ rest) (slip : ∀ r ∈ rs, a.Slips km r) :
    a.drain km =
      ((((a.withInterpreter (a.interpreter.carryOut km rs).1).withLine rest).drain km).1,
        (a.interpreter.carryOut km rs).2 ++
          (((a.withInterpreter (a.interpreter.carryOut km rs).1).withLine rest).drain km).2) := by
  induction rs generalizing a with
  | nil =>
    rw [List.nil_append] at hl
    subst hl
    rfl
  | cons r rs ih =>
    obtain ⟨first, others⟩ := List.forall_mem_cons.mp slip
    have settings : (a.interpreter.carryOut km [r]).1.settings = a.interpreter.settings :=
      Interpreter.settings_carryOut a.interpreter km [r]
    have front : a.line = r :: (rs ++ rest) := hl
    let b := (a.withInterpreter (a.interpreter.carryOut km [r]).1).withLine (rs ++ rest)
    have next := ih (a := b) rfl fun s hs => (others s hs).congr rfl settings
    rw [drain_of_advance? (advance?_of_slips front first), next, ← List.append_assoc]
    rfl

/-- When all records in line pass, none is left. -/
theorem drain_of_all_slip (hl : a.line = rs) (slip : ∀ r ∈ rs, a.Slips km r) :
    a.drain km = (⟨(a.interpreter.carryOut km rs).1, .empty a.backlog.capacity, a.candidate⟩,
      (a.interpreter.carryOut km rs).2) := by
  have front : a.line = rs ++ [] := hl.trans (List.append_nil rs).symm
  rw [drain_of_slips front slip, drain_of_line km rfl, List.append_nil]
  rfl

end Arbiter

end TapHold
