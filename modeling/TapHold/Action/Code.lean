import TapHold.Action.Basic

/-!
# Action codes

Keymaps hold actions as words. The top four bits of a code are its tag, the next four its nibble and
the low eight its low byte:

```text
tag    nibble   low byte
0000   0000     00                 no action
0000   0000     01                 transparent
000r   mods     key                key (00 or 04 and up) under the left (r = 0) or right modifiers
001r   mods     key                modifiers when held, the key (00: one-shot) when tapped
0100   pp uu    uuuuuuuu           usage of page pp (00 system, 01 consumer)
0101   0000     key                mouse key
100t   layer    operation          layer (t = 0) or overlay operation
1100   opt      id                 macro
1110   opt      id                 command
1111   opt      id                 function
```

The low byte of a layer operation is `00` to `03` for a reset, `04` to `ef` for a tap key, and
`1111ff` followed by two bits for the four forms `ff`: invert, on, off and set. Its last two bits
are the trigger, where `00` selects the form that lasts while the key is held.
-/

set_option autoImplicit false

namespace TapHold

/-- The word of a tag, a nibble and a low byte. -/
def Word.pack (tag nibble : BitVec 4) (low : Byte) : Word := tag ++ nibble ++ low

/-- The top four bits. -/
def Word.tag (code : Word) : BitVec 4 := code.extractLsb' 12 4

/-- The four bits below the tag. -/
def Word.nibble (code : Word) : BitVec 4 := code.extractLsb' 8 4

/-- The low eight bits. -/
def Word.low (code : Word) : Byte := code.setWidth 8

theorem Word.toNat_pack (tag nibble : BitVec 4) (low : Byte) :
    (Word.pack tag nibble low).toNat = tag.toNat * 4096 + nibble.toNat * 256 + low.toNat := by
  have n := nibble.isLt
  have l := low.isLt
  simp only [Word.pack, BitVec.toNat_append, Nat.shiftLeft_eq]
  rw [← Nat.shiftLeft_eq, ← Nat.shiftLeft_add_eq_or_of_lt (by omega), ← Nat.shiftLeft_eq,
    ← Nat.shiftLeft_add_eq_or_of_lt (by omega)]
  simp only [Nat.shiftLeft_eq]
  omega

theorem Word.tag_pack (tag nibble : BitVec 4) (low : Byte) :
    (Word.pack tag nibble low).tag = tag := by
  apply BitVec.eq_of_toNat_eq
  simp only [Word.tag, BitVec.extractLsb'_toNat, toNat_pack, Nat.shiftRight_eq_div_pow]
  omega

theorem Word.nibble_pack (tag nibble : BitVec 4) (low : Byte) :
    (Word.pack tag nibble low).nibble = nibble := by
  apply BitVec.eq_of_toNat_eq
  simp only [Word.nibble, BitVec.extractLsb'_toNat, toNat_pack, Nat.shiftRight_eq_div_pow]
  omega

theorem Word.low_pack (tag nibble : BitVec 4) (low : Byte) :
    (Word.pack tag nibble low).low = low := by
  apply BitVec.eq_of_toNat_eq
  simp only [Word.low, BitVec.toNat_setWidth, toNat_pack]
  omega

/-- A code is its tag, its nibble and its low byte. -/
theorem Word.pack_parts (code : Word) : Word.pack code.tag code.nibble code.low = code := by
  have c := code.isLt
  apply BitVec.eq_of_toNat_eq
  simp only [toNat_pack, Word.tag, Word.nibble, Word.low, BitVec.extractLsb'_toNat,
    BitVec.toNat_setWidth, Nat.shiftRight_eq_div_pow]
  omega

namespace Trigger

/-- The two bits of a trigger. -/
def bits : Trigger → BitVec 2
  | .press => 0b01
  | .release => 0b10
  | .both => 0b11

/-- The trigger with the given bits; `00` is none. -/
def ofBits? : BitVec 2 → Option Trigger
  | 0b01#2 => some .press
  | 0b10#2 => some .release
  | 0b11#2 => some .both
  | _ => none

end Trigger

namespace LayerOp

/-- The low byte `1111ff` with the form `ff` and two trigger bits. -/
def formByte (form trigger : BitVec 2) : Byte := 0b1111#4 ++ form ++ trigger

/-- The low byte of a layer operation. -/
def byte : LayerOp → Byte
  | .reset t => 0#6 ++ t.bits
  | .tapKey code => code
  | .tapToggle => formByte 0b00 0b00
  | .invert t => formByte 0b00 t.bits
  | .onOff => formByte 0b01 0b00
  | .on t => formByte 0b01 t.bits
  | .offOn => formByte 0b10 0b00
  | .off t => formByte 0b10 t.bits
  | .setClear => formByte 0b11 0b00
  | .set t => formByte 0b11 t.bits

/-- The layer operation of a low byte; `00` is none. -/
def ofByte? (low : Byte) : Option LayerOp :=
  let trigger := Trigger.ofBits? (low.setWidth 2)
  if low < 0x04#8 then trigger.map .reset
  else if low < 0xf0#8 then some (.tapKey low)
  else some <|
    match low.extractLsb' 2 2, trigger with
    | 0b00#2, none => .tapToggle
    | 0b00#2, some t => .invert t
    | 0b01#2, none => .onOff
    | 0b01#2, some t => .on t
    | 0b10#2, none => .offOn
    | 0b10#2, some t => .off t
    | _, none => .setClear
    | _, some t => .set t

/-- Reading a low byte and writing it again gives it back. -/
theorem byte_ofByte? : ∀ low : Byte, (ofByte? low).all (fun op => op.byte == low) = true := by
  decide

/-- Only the byte zero stands for no layer operation. -/
theorem isNone_ofByte? : ∀ low : Byte, (ofByte? low).isNone = (low == 0) := by
  decide

end LayerOp

/-- A code that stands for no action. -/
structure UnknownCode where
  code : Word
deriving DecidableEq

namespace Action

/-- The code of a binding that falls through to the next lower layer. -/
def transparentCode : Word := 0x0001

/-- The code of a binding that does nothing. -/
def noneCode : Word := 0x0000

/-- The action of a key code under modifiers. Low bytes below the first key are no keys: zero
stands for the modifiers alone, and the others occur only as the transparent code. -/
def ofKeyCode (code : Word) (mods : Mods) (k : Keycode) : Except UnknownCode Action :=
  if k ≠ Keycode.nothing ∧ k < Keycode.firstKey then
    if code = transparentCode then .ok .transparent else .error ⟨code⟩
  else if !mods.isEmpty then .ok (.keyWithMods mods k)
  else if k = Keycode.nothing then .ok .none
  else .ok (.key k)

/-- Modifiers when held; the key, or the one-shot where there is none, when tapped. -/
def ofModsTapCode (mods : Mods) (k : Keycode) : Action :=
  .modsTap mods (if k = Keycode.nothing then .oneShot else .key k)

/-- The action of a layer code. -/
def ofLayerCode (code : Word) (target : LayerTarget) : Except UnknownCode Action :=
  match LayerOp.ofByte? code.low with
  | some op => .ok (.layer target code.nibble op)
  | .none => .error ⟨code⟩

/-- The action of a usage code. Two of the four pages are used. -/
def ofUsageCode (code : Word) : Except UnknownCode Action :=
  match code.extractLsb' 10 2 with
  | 0b00#2 => .ok (.usage .system (code.setWidth 10))
  | 0b01#2 => .ok (.usage .consumer (code.setWidth 10))
  | _ => .error ⟨code⟩

/-- The action that a code stands for. -/
def ofCode (code : Word) : Except UnknownCode Action :=
  match code.tag with
  | 0b0000#4 => ofKeyCode code ⟨.left, code.nibble⟩ code.low
  | 0b0001#4 => ofKeyCode code ⟨.right, code.nibble⟩ code.low
  | 0b0010#4 => .ok (ofModsTapCode ⟨.left, code.nibble⟩ code.low)
  | 0b0011#4 => .ok (ofModsTapCode ⟨.right, code.nibble⟩ code.low)
  | 0b0100#4 => ofUsageCode code
  | 0b0101#4 => .ok (.mouse code.low)
  | 0b1000#4 => ofLayerCode code .keymap
  | 0b1001#4 => ofLayerCode code .overlay
  | 0b1100#4 => .ok (.hook .playMacro code.low code.nibble)
  | 0b1110#4 => .ok (.hook .runCommand code.low code.nibble)
  | 0b1111#4 => .ok (.hook .callFunction code.low code.nibble)
  | _ => .error ⟨code⟩

/-- The tag of a code for modifiers: even tags are for the left hand, odd tags for the right. -/
def modsTag (left right : BitVec 4) (mods : Mods) : BitVec 4 :=
  match mods.side with
  | .left => left
  | .right => right

/-- The code of an action. Key codes below the first key are no keys and have the code of no
action. -/
def code : Action → Word
  | .none => noneCode
  | .transparent => transparentCode
  | .key k => if k < Keycode.firstKey then noneCode else Word.pack 0b0000 0 k
  | .keyWithMods mods k => Word.pack (modsTag 0b0000 0b0001 mods) mods.bits k
  | .modsTap mods .oneShot => Word.pack (modsTag 0b0010 0b0011 mods) mods.bits Keycode.nothing
  | .modsTap mods (.key k) => Word.pack (modsTag 0b0010 0b0011 mods) mods.bits k
  | .usage .system u => 0b010000#6 ++ u
  | .usage .consumer u => 0b010001#6 ++ u
  | .mouse k => Word.pack 0b0101 0 k
  | .layer .keymap number op => Word.pack 0b1000 number op.byte
  | .layer .overlay number op => Word.pack 0b1001 number op.byte
  | .hook .playMacro id options => Word.pack 0b1100 options id
  | .hook .runCommand id options => Word.pack 0b1110 options id
  | .hook .callFunction id options => Word.pack 0b1111 options id

end Action

end TapHold
