import TapHold.Proofs.Host.Call

/-!
# Things that are held down one by one

What a host holds consists of items: modifiers, keys, usages and mouse keys. A call puts some items
down and lifts others (`has_applyTo`). After a request a reporting host holds nothing but what the
request put down and what was held before and not lifted (`has_run`), whether or not reports were
lost on the way.
-/

set_option autoImplicit false

namespace TapHold

/-- One thing that can be down: a bit of the modifier byte, a key, a page of usages, or a bit of the
mouse keys. -/
inductive Item where
  | modifier (bit : Nat)
  | key (code : Keycode)
  | usage (page : UsagePage)
  | mouse (bit : Nat)
deriving DecidableEq

/-- Whether the item is a modifier. -/
def Item.isModifier : Item → Bool
  | .modifier _ => true
  | _ => false

namespace Held

/-- Whether an item is down. -/
def has (h : Held) : Item → Bool
  | .modifier bit => h.modifiers.getLsbD bit
  | .key code => h.keys.has code
  | .usage page => h.usage page != 0
  | .mouse bit => h.mouse.getLsbD bit

theorem has_nothing (x : Item) : nothing.has x = false := by
  cases x with
  | usage page => cases page <;> rfl
  | modifier bit => exact BitVec.getLsbD_zero
  | key code => exact BitVec.getLsbD_zero
  | mouse bit => exact BitVec.getLsbD_zero

/-- A host that holds no item but modifiers is idle. -/
theorem isIdle_of_has {h : Held} (none : ∀ x : Item, x.isModifier = false → h.has x = false) :
    h.isIdle = true := by
  have keys : h.keys = 0 := by
    apply BitVec.eq_of_getLsbD_eq
    intro i lt
    have up := none (.key (BitVec.ofNat 8 i)) rfl
    simp only [has, KeySet.has, BitVec.toNat_ofNat, Nat.mod_eq_of_lt lt] at up
    rw [up]
    exact BitVec.getLsbD_zero.symm
  have mouse : h.mouse = 0 := by
    apply BitVec.eq_of_getLsbD_eq
    intro i _
    exact (none (.mouse i) rfl).trans BitVec.getLsbD_zero.symm
  have system : h.system = 0 := by simpa [has, usage] using none (.usage .system) rfl
  have consumer : h.consumer = 0 := by simpa [has, usage] using none (.usage .consumer) rfl
  simp [isIdle, keys, mouse, system, consumer]

/-- A host that holds no modifier has an empty modifier byte. -/
theorem modifiers_eq_zero_of_has {h : Held} (none : ∀ bit, h.has (.modifier bit) = false) :
    h.modifiers = 0 := by
  apply BitVec.eq_of_getLsbD_eq
  intro i _
  exact (none i).trans BitVec.getLsbD_zero.symm

end Held

/-- The bits of `a` that are not in `b`. -/
theorem getLsbD_and_not {w : Nat} (a b : BitVec w) (i : Nat) :
    (a &&& ~~~b).getLsbD i = (a.getLsbD i && !b.getLsbD i) := by
  by_cases inside : i < w
  · simp [inside]
  · simp [BitVec.getLsbD_of_ge _ _ (Nat.le_of_not_lt inside)]

theorem Held.has_modifiersOnly (h : Held) (x : Item) :
    h.modifiersOnly.has x = (h.has x && x.isModifier) := by
  cases x with
  | modifier bit => exact (Bool.and_true _).symm
  | key code => exact (Held.has_nothing (.key code)).trans (Bool.and_false _).symm
  | usage page => cases page <;> exact (Held.has_nothing (.usage .system)).trans (Bool.and_false _).symm
  | mouse bit => exact (Held.has_nothing (.mouse bit)).trans (Bool.and_false _).symm

theorem Held.has_withUsage (h : Held) (page : UsagePage) (code : Word) (x : Item) :
    (h.withUsage page code).has x = if x = .usage page then code != 0 else h.has x := by
  cases x with
  | usage p => cases p <;> cases page <;> rfl
  | _ => cases page <;> rfl

namespace HostCall

/-- The items that a call puts down. -/
def puts : HostCall → Item → Bool
  | .register code, x => x = .key code
  | .addModifiers bits, .modifier bit => bits.getLsbD bit
  | .setModifiers bits, .modifier bit => bits.getLsbD bit
  | .usage page code, x => x = .usage page && code != 0
  | .mouseOn code, .mouse bit => code.isMouse && code.mouseBit.getLsbD bit
  | _, _ => false

/-- The items that a call lifts, if it does not put them down. -/
def lifts : HostCall → Item → Bool
  | .unregister code, x => x = .key code
  | .removeModifiers bits, .modifier bit => bits.getLsbD bit
  | .setModifiers _, x => x.isModifier
  | .clearKeys, x => !x.isModifier
  | .clearAll, _ => true
  | .usage page _, x => x = .usage page
  | .mouseOff code, .mouse bit => code.isMouse && code.mouseBit.getLsbD bit
  | _, _ => false

/-- What is held after a call: what it put down, and what it did not lift. -/
theorem has_applyTo (c : HostCall) (h : Held) (x : Item) :
    (c.applyTo h).has x = (c.puts x || (h.has x && !c.lifts x)) := by
  cases c with
  | register code =>
    cases x with
    | key d => simp [applyTo, Held.has, puts, lifts, KeySet.has_insert, Bool.or_comm]
    | _ => simp [applyTo, Held.has, puts, lifts, Held.usage]
  | unregister code =>
    cases x with
    | key d => simp [applyTo, Held.has, puts, lifts, KeySet.has_erase]
    | _ => simp [applyTo, Held.has, puts, lifts, Held.usage]
  | addModifiers bits =>
    cases x with
    | modifier bit => simp [applyTo, Held.has, puts, lifts, Bool.or_comm]
    | _ => simp [applyTo, Held.has, puts, lifts, Held.usage]
  | removeModifiers bits =>
    cases x with
    | modifier bit => exact getLsbD_and_not _ _ _
    | _ => simp [applyTo, Held.has, puts, lifts, Held.usage]
  | setModifiers bits =>
    cases x with
    | modifier bit => simp [applyTo, Held.has, puts, lifts, Item.isModifier]
    | _ => simp [applyTo, Held.has, puts, lifts, Held.usage, Item.isModifier]
  | clearKeys =>
    show h.modifiersOnly.has x = _
    rw [Held.has_modifiersOnly]
    simp [puts, lifts]
  | clearAll =>
    show Held.nothing.has x = _
    rw [Held.has_nothing]
    simp [puts, lifts]
  | usage page code =>
    show (h.withUsage page code).has x = _
    rw [Held.has_withUsage]
    by_cases same : x = .usage page <;> simp [puts, lifts, same]
  | mouseOn code =>
    by_cases mouse : code.isMouse = true
    · cases x with
      | mouse bit => simp [applyTo, Held.has, puts, lifts, mouse, Bool.or_comm]
      | _ => simp [applyTo, Held.has, puts, lifts, Held.usage, mouse]
    · cases x <;> simp [applyTo, Held.has, puts, lifts, mouse]
  | mouseOff code =>
    by_cases mouse : code.isMouse = true
    · cases x with
      | mouse bit =>
        rw [applyTo, if_pos mouse, lifts, mouse, Bool.true_and]
        exact getLsbD_and_not _ _ _
      | _ => simp [applyTo, Held.has, puts, lifts, Held.usage, mouse]
    · cases x <;> simp [applyTo, Held.has, puts, lifts, mouse]

end HostCall

/-- A reporting host holds nothing after a call but what the call put down and what was held before
and not lifted. -/
theorem ReportHost.has_perform (host : ReportHost) (c : HostCall) {x : Item}
    (down : (host.perform c).held.has x = true) :
    c.puts x = true ∨ (host.held.has x = true ∧ c.lifts x = false) := by
  rcases host.held_perform c with asked | ⟨-, nothing, -⟩
  · rw [asked, HostCall.has_applyTo] at down
    simpa using down
  · rw [nothing, Held.has_nothing] at down
    cases down

namespace Request

/-- The items that a request puts down. -/
def puts : Request → Item → Bool
  | .nothing, _ => false
  | .call c, x => c.puts x
  | .under _ request, x => !x.isModifier && request.puts x

/-- The items that a request lifts, if it does not put them down. -/
def lifts : Request → Item → Bool
  | .nothing, _ => false
  | .call c, x => c.lifts x
  | .under _ request, x => !x.isModifier && request.lifts x

/-- After a request a reporting host holds nothing but what the request put down and what was held
before and not lifted. A request under further modifiers restores the modifiers. -/
theorem has_run (r : Request) (host : ReportHost) {x : Item}
    (down : (r.run host).held.has x = true) :
    r.puts x = true ∨ (host.held.has x = true ∧ r.lifts x = false) := by
  induction r generalizing host with
  | nothing => exact Or.inr ⟨down, rfl⟩
  | call c => exact host.has_perform c down
  | under bits request ih =>
    have restored := ReportHost.has_perform _ (.setModifiers host.held.modifiers) down
    cases modifier : x.isModifier with
    | true =>
      -- the modifiers are the ones from before, whatever the inner request did
      cases x with
      | modifier bit =>
        rcases restored with put | ⟨-, kept⟩
        · exact Or.inr ⟨put, rfl⟩
        · cases kept
      | _ => cases modifier
    | false =>
      have inner : (request.run (host.perform (.addModifiers bits))).held.has x = true := by
        rcases restored with put | ⟨kept, -⟩
        · cases x with
          | modifier bit => cases modifier
          | _ => cases put
        · exact kept
      simp only [puts, lifts, modifier, Bool.not_false, Bool.true_and]
      rcases ih _ inner with put | ⟨before, kept⟩
      · exact Or.inl put
      · rcases host.has_perform (.addModifiers bits) before with added | ⟨held, -⟩
        · cases x with
          | modifier bit => cases modifier
          | _ => cases added
        · exact Or.inr ⟨held, kept⟩

end Request

end TapHold
