import TapHold.Host.Basic

/-!
# What is held down, and reports about it

`Held` is the state that a keyboard shows to a computer. A report tells one change of it, and
`Report.applyTo` is how the computer follows: it starts with nothing down and applies the reports in
order.
-/

set_option autoImplicit false

namespace TapHold

/-- A set of key codes, one bit for each. -/
abbrev KeySet := BitVec 256

namespace KeySet

/-- The set of one key. -/
def single (code : Keycode) : KeySet := 1#256 <<< code

/-- Whether a key is in the set. -/
def has (s : KeySet) (code : Keycode) : Bool := s.getLsbD code.toNat

/-- The set with one more key. -/
def insert (s : KeySet) (code : Keycode) : KeySet := s ||| single code

/-- The set without a key. -/
def erase (s : KeySet) (code : Keycode) : KeySet := s &&& ~~~single code

/-- The byte of the set with the bit of a key: the set is thirty-two bytes of eight keys each. -/
def byteOf (s : KeySet) (code : Keycode) : Byte := s.extractLsb' (8 * (code >>> 3).toNat) 8

/-- The bit of a key in its byte. -/
def byteBit (code : Keycode) : Byte := 1#8 <<< (code &&& 7#8)

/-- Puts a key into the set, and tells whether its bit was clear. -/
def add (s : KeySet) (code : Keycode) : KeySet × Bool :=
  (s.insert code, s.byteOf code &&& byteBit code == 0)

/-- Takes a key out of the set, and tells whether its bit was set: all ones, with the other bits of
its byte. -/
def remove (s : KeySet) (code : Keycode) : KeySet × Bool :=
  (s.erase code, s.byteOf code ||| ~~~byteBit code == 0xff)

/-- The keys of the set in ascending order. -/
def toList (s : KeySet) : List Keycode :=
  ((List.range 256).map (BitVec.ofNat 8)).filter s.has

theorem has_single (code d : Keycode) : (single code).has d = decide (d = code) := by
  have c := code.isLt
  have bound := d.isLt
  simp only [single, has, BitVec.shiftLeft_eq', BitVec.getLsbD_shiftLeft, BitVec.getLsbD_one,
    BitVec.toNat_inj.symm]
  by_cases h : d.toNat = code.toNat
  · simp [h, c]
  · by_cases less : d.toNat < code.toNat
    · simp [h, less]
    · have : d.toNat - code.toNat ≠ 0 := by omega
      simp [h, less, this]

theorem has_insert (s : KeySet) (code d : Keycode) :
    (s.insert code).has d = (s.has d || decide (d = code)) := by
  rw [← has_single]
  exact BitVec.getLsbD_or

theorem has_erase (s : KeySet) (code d : Keycode) :
    (s.erase code).has d = (s.has d && !decide (d = code)) := by
  have bound := d.isLt
  rw [← has_single]
  simp [erase, has, bound]

end KeySet

/-- Everything that can be held down. -/
structure Held where
  modifiers : Byte
  keys : KeySet
  system : Word
  consumer : Word
  mouse : Word
deriving DecidableEq

namespace Held

/-- Nothing is down. -/
def nothing : Held := ⟨0, 0, 0, 0, 0⟩

/-- Everything but the modifiers goes up. -/
def modifiersOnly (h : Held) : Held := { nothing with modifiers := h.modifiers }

/-- Whether nothing but modifiers is down. -/
def isIdle (h : Held) : Bool := h.keys == 0 && h.system == 0 && h.consumer == 0 && h.mouse == 0

/-- The usage that is down on a page, or zero. -/
def usage (h : Held) : UsagePage → Word
  | .system => h.system
  | .consumer => h.consumer

/-- The state with another usage on a page. -/
def withUsage (h : Held) (page : UsagePage) (code : Word) : Held :=
  match page with
  | .system => { h with system := code }
  | .consumer => { h with consumer := code }

end Held

/-- One change of what is held down. -/
inductive Report where
  | key (code : Keycode) (down : Bool)
  /-- The whole modifier byte. -/
  | modifiers (bits : Byte)
  /-- A usage went down, or the page went up (zero). -/
  | usage (page : UsagePage) (code : Word)
  | mouse (code : Keycode) (down : Bool)
  /-- Everything but the modifiers went up. -/
  | clearKeys
  /-- Everything went up. -/
  | clear
deriving DecidableEq

/-- What is held down after a report. -/
def Report.applyTo : Report → Held → Held
  | .key code true, h => { h with keys := h.keys.insert code }
  | .key code false, h => { h with keys := h.keys.erase code }
  | .modifiers bits, h => { h with modifiers := bits }
  | .usage page code, h => h.withUsage page code
  | .mouse code true, h => { h with mouse := h.mouse ||| code.mouseBit }
  | .mouse code false, h => { h with mouse := h.mouse &&& ~~~code.mouseBit }
  | .clearKeys, h => h.modifiersOnly
  | .clear, _ => .nothing

end TapHold
