import TapHold.Host.Report

/-!
# What a call asks of a host

`HostCall.applyTo` is the effect of a call on what is held down. A reporting host finds out by a
test of its own for each call whether the call has an effect. All these tests say the same: that
what is held down after the call is something else (`perform_eq_update`).

So a reporting host follows its calls (`held_perform`): after a call it holds what the call asks
for, unless the call's report found the queue full; then it holds nothing and the queue is one
report that says so. A call that asks for nothing new leaves the host as it is
(`perform_of_applyTo_eq`), but for the call that lets everything go, which is always reported.
-/

set_option autoImplicit false

namespace TapHold

namespace HostCall

/-- What is held down after a call, as long as no report is lost. -/
def applyTo : HostCall → Held → Held
  | .register code, h => { h with keys := h.keys.insert code }
  | .unregister code, h => { h with keys := h.keys.erase code }
  | .addModifiers bits, h => { h with modifiers := h.modifiers ||| bits }
  | .removeModifiers bits, h => { h with modifiers := h.modifiers &&& ~~~bits }
  | .setModifiers bits, h => { h with modifiers := bits }
  | .clearKeys, h => h.modifiersOnly
  | .clearAll, _ => .nothing
  | .usage page code, h => h.withUsage page code
  | .mouseOn code, h =>
    if code.isMouse then { h with mouse := h.mouse ||| code.mouseBit } else h
  | .mouseOff code, h =>
    if code.isMouse then { h with mouse := h.mouse &&& ~~~code.mouseBit } else h

/-- The report of a call that changes `h`. -/
def report (h : Held) : HostCall → Report
  | .register code => .key code true
  | .unregister code => .key code false
  | .addModifiers bits => .modifiers (h.modifiers ||| bits)
  | .removeModifiers bits => .modifiers (h.modifiers &&& ~~~bits)
  | .setModifiers bits => .modifiers bits
  | .clearKeys => .clearKeys
  | .clearAll => .clear
  | .usage page code => .usage page code
  | .mouseOn code => .mouse code true
  | .mouseOff code => .mouse code false

/-- A reader that holds what the host held before a call follows the call by its report. -/
theorem applyTo_report (c : HostCall) (h : Held) (changes : c.applyTo h ≠ h) :
    (c.report h).applyTo h = c.applyTo h := by
  cases c with
  | mouseOn code =>
    by_cases mouse : code.isMouse = true
    · simp [report, applyTo, Report.applyTo, mouse]
    · exact absurd (if_neg mouse) changes
  | mouseOff code =>
    by_cases mouse : code.isMouse = true
    · simp [report, applyTo, Report.applyTo, mouse]
    · exact absurd (if_neg mouse) changes
  | _ => rfl

end HostCall

/-! ## Tests of one bit -/

section Bits

variable {w : Nat} {x : BitVec w} {i : Nat}

theorem and_bit_eq_zero_iff (inside : i < w) :
    x &&& BitVec.twoPow w i = 0#w ↔ x.getLsbD i = false := by
  rw [BitVec.and_twoPow]
  cases x.getLsbD i with
  | true =>
    have some : BitVec.twoPow w i ≠ 0#w := by
      intro none
      have bit := congrArg (fun y : BitVec w => y.getLsbD i) none
      simp [inside] at bit
    simp [some]
  | false => simp

theorem or_bit_eq_iff (inside : i < w) :
    x ||| BitVec.twoPow w i = x ↔ x.getLsbD i = true := by
  constructor
  · intro same
    rw [← same]
    simp [inside]
  · intro set
    apply BitVec.eq_of_getLsbD_eq
    intro k _
    by_cases here : i = k
    · subst here
      simp [set]
    · simp [here]

theorem and_not_bit_eq_iff (inside : i < w) :
    x &&& ~~~BitVec.twoPow w i = x ↔ x.getLsbD i = false := by
  constructor
  · intro same
    rw [← same]
    simp [inside]
  · intro clear
    apply BitVec.eq_of_getLsbD_eq
    intro k less
    by_cases here : i = k
    · subst here
      simp [clear]
    · have other : ¬k = i := fun same => here same.symm
      simp [other, less]

theorem or_not_bit_eq_iff (inside : i < w) :
    x ||| ~~~BitVec.twoPow w i = BitVec.allOnes w ↔ x.getLsbD i = true := by
  constructor
  · intro full
    have bit := congrArg (fun y : BitVec w => y.getLsbD i) full
    simpa [inside] using bit
  · intro set
    apply BitVec.eq_of_getLsbD_eq
    intro k less
    by_cases here : i = k
    · subst here
      simp [set, inside]
    · have other : ¬k = i := fun same => here same.symm
      simp [other, less]

end Bits

namespace KeySet

/-- A key has the place in the set that its byte and its bit there give it. -/
theorem getLsbD_byteOf (s : KeySet) (code : Keycode) :
    (s.byteOf code).getLsbD (code &&& 7#8).toNat = s.has code := by
  have small : (code &&& 7#8).toNat < 8 := by
    rw [BitVec.toNat_and]
    exact Nat.and_lt_two_pow (n := 3) _ (by decide)
  have place : 8 * (code >>> 3).toNat + (code &&& 7#8).toNat = code.toNat := by
    have low : code.toNat &&& 7 = code.toNat % 8 := Nat.and_two_pow_sub_one_eq_mod _ 3
    rw [BitVec.toNat_ushiftRight, BitVec.toNat_and, Nat.shiftRight_eq_div_pow]
    show 8 * (code.toNat / 8) + (code.toNat &&& 7) = _
    omega
  rw [byteOf, BitVec.getLsbD_extractLsb', place, decide_eq_true small, Bool.true_and]
  rfl

/-- **Putting a key in tells of a change exactly when the set changes.** -/
theorem add_eq (s : KeySet) (code : Keycode) :
    s.add code = (s.insert code, decide (s.insert code ≠ s)) := by
  have small : (code &&& 7#8).toNat < 8 := Nat.and_lt_two_pow (n := 3) _ (by decide)
  -- both tests ask for the bit of the key
  have clear : s.byteOf code &&& byteBit code = 0#8 ↔ s.has code = false := by
    rw [← s.getLsbD_byteOf]
    exact and_bit_eq_zero_iff small
  have same : s.insert code = s ↔ s.has code = true := or_bit_eq_iff code.isLt
  unfold add
  cases has : s.has code <;> simp [clear, same, has]

/-- **Taking a key out tells of a change exactly when the set changes.** -/
theorem remove_eq (s : KeySet) (code : Keycode) :
    s.remove code = (s.erase code, decide (s.erase code ≠ s)) := by
  have small : (code &&& 7#8).toNat < 8 := Nat.and_lt_two_pow (n := 3) _ (by decide)
  have set : s.byteOf code ||| ~~~byteBit code = 255#8 ↔ s.has code = true := by
    rw [← s.getLsbD_byteOf]
    exact or_not_bit_eq_iff small
  have same : s.erase code = s ↔ s.has code = false := and_not_bit_eq_iff code.isLt
  unfold remove
  cases has : s.has code <;> simp [set, same, has]

end KeySet

namespace Keycode

/-- A mouse key has one of the sixteen bits. -/
theorem mouseBit_lt {code : Keycode} (mouse : code.isMouse = true) :
    (code - 0xf0#8).toNat < 16 := by
  have least : 0xf0#8 ≤ code := of_decide_eq_true mouse
  have less := code.isLt
  bv_omega

/-- The test of a mouse call looks at the bit of its key. -/
theorem and_mouseBit_eq_zero_iff {code : Keycode} (mouse : code.isMouse = true) {x : Word} :
    x &&& code.mouseBit = 0 ↔ x.getLsbD (code - 0xf0#8).toNat = false :=
  and_bit_eq_zero_iff (mouseBit_lt mouse)

end Keycode

namespace Held

theorem withKeys_eq_iff {h : Held} {keys : KeySet} : { h with keys } = h ↔ keys = h.keys := by
  constructor
  · exact congrArg Held.keys
  · rintro rfl
    rfl

theorem withModifiers_eq_iff {h : Held} {modifiers : Byte} :
    { h with modifiers } = h ↔ h.modifiers = modifiers := by
  constructor
  · intro same
    exact (congrArg Held.modifiers same).symm
  · rintro rfl
    rfl

theorem withMouse_eq_iff {h : Held} {mouse : Word} : { h with mouse } = h ↔ mouse = h.mouse := by
  constructor
  · exact congrArg Held.mouse
  · rintro rfl
    rfl

theorem withUsage_eq_iff {h : Held} {page : UsagePage} {code : Word} :
    h.withUsage page code = h ↔ h.usage page = code := by
  constructor
  · intro same
    rw [← same]
    cases page <;> rfl
  · rintro rfl
    cases page <;> rfl

/-- Nothing but modifiers is down when letting all else go changes nothing. -/
theorem isIdle_iff {h : Held} : h.isIdle = true ↔ h.modifiersOnly = h := by
  rcases h with ⟨modifiers, keys, system, consumer, mouse⟩
  simp only [isIdle, modifiersOnly, nothing, Bool.and_eq_true, beq_iff_eq, Held.mk.injEq, true_and]
  constructor
  · rintro ⟨⟨⟨rfl, rfl⟩, rfl⟩, rfl⟩
    exact ⟨rfl, rfl, rfl, rfl⟩
  · rintro ⟨rfl, rfl, rfl, rfl⟩
    exact ⟨⟨⟨rfl, rfl⟩, rfl⟩, rfl⟩

end Held

namespace ReportHost

/-- Holds something else and reports it; nothing is reported where nothing changes. -/
def update (host : ReportHost) (held : Held) (r : Report) : ReportHost :=
  if held = host.held then host else { host with held }.send r

/-- A test that says whether what is held down changes makes an update. -/
theorem sendIf_eq_update {host : ReportHost} {held : Held} {changed : Bool}
    (test : changed = decide (held ≠ host.held)) (r : Report) :
    { host with held }.sendIf changed r = host.update held r := by
  subst test
  by_cases same : held = host.held
  · subst same
    simp [sendIf, update]
  · simp [sendIf, update, same]

/-- A test of whether it stays as it is makes one, too. -/
theorem ite_eq_update {host : ReportHost} {held : Held} {c : Prop} [Decidable c]
    (test : c ↔ held = host.held) (r : Report) :
    (if c then host else { host with held }.send r) = host.update held r := by
  simp only [update, test]

/-- So does a test of whether it changes. -/
theorem ite_not_eq_update {host : ReportHost} {held : Held} {c : Prop} [Decidable c]
    (test : ¬c ↔ held = host.held) (r : Report) :
    (if c then { host with held }.send r else host) = host.update held r := by
  rw [← ite_not]
  exact ite_eq_update test r

/-- **Every call but the one that lets everything go is an update**, whatever its own test looks
at. -/
theorem perform_eq_update (host : ReportHost) (c : HostCall) (h : c ≠ .clearAll) :
    host.perform c = host.update (c.applyTo host.held) (c.report host.held) := by
  cases c with
  | clearAll => exact absurd rfl h
  | register code =>
    apply sendIf_eq_update
    simp [KeySet.add_eq, Held.withKeys_eq_iff]
  | unregister code =>
    apply sendIf_eq_update
    simp [KeySet.remove_eq, Held.withKeys_eq_iff]
  | addModifiers bits => exact ite_eq_update Held.withModifiers_eq_iff.symm _
  | removeModifiers bits => exact ite_eq_update Held.withModifiers_eq_iff.symm _
  | setModifiers bits => exact ite_eq_update Held.withModifiers_eq_iff.symm _
  | clearKeys => exact ite_eq_update Held.isIdle_iff .clearKeys
  | usage page code => exact ite_eq_update Held.withUsage_eq_iff.symm _
  | mouseOn code =>
    by_cases mouse : code.isMouse = true
    · simp only [perform, HostCall.applyTo, HostCall.report, mouse, if_true]
      apply ite_not_eq_update
      -- setting the bit changes nothing when it is set
      have same : host.held.mouse ||| code.mouseBit = host.held.mouse ↔ _ :=
        or_bit_eq_iff (Keycode.mouseBit_lt mouse)
      rw [Held.withMouse_eq_iff, same, Keycode.and_mouseBit_eq_zero_iff mouse, Bool.not_eq_false]
    · simp [perform, HostCall.applyTo, update, mouse]
  | mouseOff code =>
    by_cases mouse : code.isMouse = true
    · simp only [perform, HostCall.applyTo, HostCall.report, mouse, if_true]
      apply ite_not_eq_update
      -- clearing it changes nothing when it is clear
      have same : host.held.mouse &&& ~~~code.mouseBit = host.held.mouse ↔ _ :=
        and_not_bit_eq_iff (Keycode.mouseBit_lt mouse)
      rw [Held.withMouse_eq_iff, same, ← Keycode.and_mouseBit_eq_zero_iff mouse, Decidable.not_not]
    · simp [perform, HostCall.applyTo, update, mouse]

/-- A call that asks for nothing new changes nothing and reports nothing. -/
theorem perform_of_applyTo_eq (host : ReportHost) (c : HostCall) (h : c ≠ .clearAll)
    (same : c.applyTo host.held = host.held) : host.perform c = host := by
  rw [perform_eq_update host c h, same]
  exact if_pos rfl

theorem capacity_send (host : ReportHost) (r : Report) :
    (host.send r).capacity = host.capacity := by
  unfold send
  split <;> rfl

theorem capacity_update (host : ReportHost) (held : Held) (r : Report) :
    (host.update held r).capacity = host.capacity := by
  unfold update
  split
  · rfl
  · exact capacity_send _ r

/-- A report finds room and changes nothing else, or the queue is full and everything is let go. -/
theorem held_send (host : ReportHost) (r : Report) :
    (host.send r).held = host.held ∨
      (host.capacity ≤ host.queue.length ∧ (host.send r).held = .nothing ∧
        (host.send r).queue = [Report.clear].take host.capacity) := by
  unfold send
  split
  · exact Or.inl rfl
  · rename_i full
    exact Or.inr ⟨Nat.le_of_not_lt full, rfl, rfl⟩

/-- After a call the host holds what the call asks for, unless the queue was full. -/
theorem held_perform (host : ReportHost) (c : HostCall) :
    (host.perform c).held = c.applyTo host.held ∨
      (host.capacity ≤ host.queue.length ∧ (host.perform c).held = .nothing ∧
        (host.perform c).queue = [Report.clear].take host.capacity) := by
  by_cases clear : c = .clearAll
  · subst clear
    exact held_send _ .clear
  · rw [perform_eq_update host c clear]
    unfold update
    split
    · rename_i same
      exact Or.inl same.symm
    · exact held_send _ _

end ReportHost

end TapHold
