import TapHold.Action.Code

/-!
# Codes and the actions they stand for

`Denotes` is the table of codes as a relation: which words stand for which action. Reading a code
follows the table (`ofCode_eq_ok_iff`), and the words that are in no line of it are the reserved
ones (`ofCode_eq_error_iff`), of which there are four kinds.

Two kinds of bits mean nothing: the hand of a key without modifiers, and the nibble of a mouse key.
`canonical` is the code in which they are zero. It is what writing gives back for every code that
can be read (`Denotes.code_eq`), and an action survives being written and read again exactly if it
is one that a code can stand for (`Denotes.inRange`, `denotes_code`). Both directions together are
`ofCode_code`.
-/

set_option autoImplicit false

namespace TapHold

/-! ## Layer operations -/

namespace LayerOp

/-- A tap key has to lie between the resets and the other operations. All other operations have a
byte of their own. -/
def InRange : LayerOp → Prop
  | .tapKey code => 0x04#8 ≤ code ∧ code ≤ 0xef#8
  | _ => True

instance : (op : LayerOp) → Decidable op.InRange
  | .tapKey code => inferInstanceAs (Decidable (0x04#8 ≤ code ∧ code ≤ 0xef#8))
  | .reset _ | .tapToggle | .invert _ | .onOff | .on _ | .offOn | .off _ | .setClear | .set _ =>
    .isTrue trivial

/-- Between the resets and the other operations every byte is a tap key. -/
theorem ofByte?_of_tapKey :
    ∀ low : Byte, 0x04#8 ≤ low → low ≤ 0xef#8 → ofByte? low = some (.tapKey low) := by
  decide +kernel

/-- An operation in range is read back from its byte. -/
theorem ofByte?_byte {op : LayerOp} (h : op.InRange) : ofByte? op.byte = some op := by
  cases op with
  | tapKey code => exact ofByte?_of_tapKey code h.1 h.2
  | tapToggle | onOff | offOn | setClear => rfl
  | reset t | invert t | on t | off t | set t => cases t <;> rfl

/-- A byte is read as an operation in range. -/
theorem inRange_of_ofByte? : ∀ low : Byte, ∀ op ∈ ofByte? low, op.InRange := by
  decide +kernel

/-- A byte that is read as an operation is the byte of that operation. -/
theorem byte_of_ofByte? {low : Byte} {op : LayerOp} (h : ofByte? low = some op) :
    op.byte = low := by
  have same := byte_ofByte? low
  rw [h] at same
  exact beq_iff_eq.mp same

end LayerOp

namespace Action

/-! ## The table of codes -/

/-- The bits of a page of usages. -/
def pageBits : UsagePage → BitVec 2
  | .system => 0b00
  | .consumer => 0b01

/-- The code of a usage, which has a page and a number where others have a nibble and a low byte. -/
def usageCode (page : UsagePage) (u : BitVec 10) : Word := 0b0100#4 ++ pageBits page ++ u

/-- The tag of the operations of a family of layers. -/
def layerTag : LayerTarget → BitVec 4
  | .keymap => 0b1000#4
  | .overlay => 0b1001#4

/-- The tag of the calls of a kind of extension. -/
def hookTag : HookKind → BitVec 4
  | .playMacro => 0b1100#4
  | .runCommand => 0b1110#4
  | .callFunction => 0b1111#4

/-- The words that stand for an action, line by line. -/
inductive Denotes : Word → Action → Prop where
  | none (side : Side) : Denotes (Word.pack (modsTag 0b0000 0b0001 ⟨side, 0⟩) 0 0) .none
  | transparent : Denotes transparentCode .transparent
  | key (side : Side) (k : Keycode) (first : Keycode.firstKey ≤ k) :
    Denotes (Word.pack (modsTag 0b0000 0b0001 ⟨side, 0⟩) 0 k) (.key k)
  | keyWithMods (mods : Mods) (k : Keycode) (some : mods.bits ≠ 0)
      (first : k = Keycode.nothing ∨ Keycode.firstKey ≤ k) :
    Denotes (Word.pack (modsTag 0b0000 0b0001 mods) mods.bits k) (.keyWithMods mods k)
  | oneShot (mods : Mods) :
    Denotes (Word.pack (modsTag 0b0010 0b0011 mods) mods.bits 0) (.modsTap mods .oneShot)
  | modsTap (mods : Mods) (k : Keycode) (some : k ≠ Keycode.nothing) :
    Denotes (Word.pack (modsTag 0b0010 0b0011 mods) mods.bits k) (.modsTap mods (.key k))
  | usage (page : UsagePage) (u : BitVec 10) :
    Denotes (usageCode page u) (.usage page u)
  | mouse (nibble : BitVec 4) (k : Keycode) : Denotes (Word.pack 0b0101#4 nibble k) (.mouse k)
  | layer (target : LayerTarget) (n : LayerNumber) (low : Byte) (op : LayerOp)
      (read : LayerOp.ofByte? low = some op) :
    Denotes (Word.pack (layerTag target) n low) (.layer target n op)
  | hook (kind : HookKind) (id : Byte) (options : BitVec 4) :
    Denotes (Word.pack (hookTag kind) options id) (.hook kind id options)

/-- The words that stand for no action. -/
inductive Reserved (code : Word) : Prop where
  | tag (free : code.tag = 6 ∨ code.tag = 7 ∨ code.tag = 10 ∨ code.tag = 11 ∨ code.tag = 13)
  /-- The key codes before the first key, where they do not mean transparent. -/
  | key (tag : code.tag = 0 ∨ code.tag = 1) (least : 1 ≤ code.low) (most : code.low ≤ 3)
      (other : code ≠ 0x0001)
  | usage (tag : code.tag = 4) (page : code.extractLsb' 10 2 = 2 ∨ code.extractLsb' 10 2 = 3)
  | layer (tag : code.tag = 8 ∨ code.tag = 9) (zero : code.low = 0)

/-- The code without the bits that mean nothing: the hand of a key without modifiers, and the nibble
of a mouse key. -/
def canonical (code : Word) : Word :=
  if code.tag = 1 ∧ code.nibble = 0 then Word.pack 0 0 code.low
  else if code.tag = 5 then Word.pack 5 0 code.low
  else code

/-- The actions that a code can stand for. What is not mentioned is in range because of its width:
layer numbers, options, and the numbers of usages. -/
def InRange : Action → Prop
  | .key k => Keycode.firstKey ≤ k
  | .keyWithMods mods k => mods.bits ≠ 0 ∧ (k = Keycode.nothing ∨ Keycode.firstKey ≤ k)
  | .modsTap _ (.key k) => k ≠ Keycode.nothing
  | .layer _ _ op => op.InRange
  | _ => True

instance : (a : Action) → Decidable a.InRange
  | .key k => inferInstanceAs (Decidable (Keycode.firstKey ≤ k))
  | .keyWithMods mods k =>
    inferInstanceAs (Decidable (mods.bits ≠ 0 ∧ (k = Keycode.nothing ∨ Keycode.firstKey ≤ k)))
  | .modsTap _ (.key k) => inferInstanceAs (Decidable (k ≠ Keycode.nothing))
  | .layer _ _ op => inferInstanceAs (Decidable op.InRange)
  | .none | .transparent | .modsTap _ .oneShot | .usage _ _ | .mouse _ | .hook _ _ _ =>
    .isTrue trivial

variable {code : Word} {a : Action} {mods : Mods} {k : Keycode}

/-! ## Reading -/

theorem toNat_usageCode (page : UsagePage) (u : BitVec 10) :
    (usageCode page u).toNat = 4 * 4096 + (pageBits page).toNat * 1024 + u.toNat := by
  have number := u.isLt
  have bits := (pageBits page).isLt
  simp only [usageCode, BitVec.toNat_append]
  rw [← Nat.shiftLeft_add_eq_or_of_lt number, ← Nat.shiftLeft_add_eq_or_of_lt bits]
  simp only [Nat.shiftLeft_eq, BitVec.toNat_ofNat]
  omega

theorem tag_usageCode (page : UsagePage) (u : BitVec 10) : (usageCode page u).tag = 0b0100#4 := by
  have bits := (pageBits page).isLt
  apply BitVec.eq_of_toNat_eq
  simp only [Word.tag, BitVec.extractLsb'_toNat, toNat_usageCode, Nat.shiftRight_eq_div_pow,
    BitVec.toNat_ofNat]
  omega

theorem page_usageCode (page : UsagePage) (u : BitVec 10) :
    (usageCode page u).extractLsb' 10 2 = pageBits page := by
  have number := u.isLt
  apply BitVec.eq_of_toNat_eq
  simp only [BitVec.extractLsb'_toNat, toNat_usageCode, Nat.shiftRight_eq_div_pow]
  omega

theorem number_usageCode (page : UsagePage) (u : BitVec 10) :
    (usageCode page u).setWidth 10 = u := by
  apply BitVec.eq_of_toNat_eq
  simp only [BitVec.toNat_setWidth, toNat_usageCode]
  omega

/-- A usage code is its page and its number. -/
theorem usageCode_parts (page : UsagePage) (tag : code.tag = 0b0100#4)
    (bits : code.extractLsb' 10 2 = pageBits page) : usageCode page (code.setWidth 10) = code := by
  have tag := congrArg BitVec.toNat tag
  have bits := congrArg BitVec.toNat bits
  have less := code.isLt
  apply BitVec.eq_of_toNat_eq
  simp only [Word.tag, BitVec.extractLsb'_toNat, Nat.shiftRight_eq_div_pow, BitVec.toNat_ofNat]
    at tag bits
  simp only [toNat_usageCode, BitVec.toNat_setWidth]
  omega

theorem ofKeyCode_of_first (first : Keycode.firstKey ≤ k) :
    ofKeyCode code mods k = .ok (if mods.isEmpty then .key k else .keyWithMods mods k) := by
  have real : k ≠ Keycode.nothing := by
    rintro rfl
    exact absurd first (by decide)
  have reached : ¬(k ≠ Keycode.nothing ∧ k < Keycode.firstKey) :=
    fun h => absurd first (BitVec.not_le.mpr h.2)
  rw [ofKeyCode, if_neg reached]
  cases mods.isEmpty with
  | true => exact if_neg real
  | false => rfl

theorem ofKeyCode_nothing :
    ofKeyCode code mods Keycode.nothing =
      .ok (if mods.isEmpty then .none else .keyWithMods mods Keycode.nothing) := by
  rw [ofKeyCode, if_neg (fun h => h.1 rfl)]
  cases mods.isEmpty with
  | true => rfl
  | false => rfl

/-- The two tags for modifiers are told apart. -/
theorem ofCode_key (mods : Mods) (k : Keycode) :
    ofCode (Word.pack (modsTag 0b0000 0b0001 mods) mods.bits k) =
      ofKeyCode (Word.pack (modsTag 0b0000 0b0001 mods) mods.bits k) mods k := by
  obtain ⟨side, bits⟩ := mods
  cases side <;> simp only [ofCode, modsTag, Word.tag_pack, Word.nibble_pack, Word.low_pack] <;> rfl

theorem ofCode_modsTap (mods : Mods) (k : Keycode) :
    ofCode (Word.pack (modsTag 0b0010 0b0011 mods) mods.bits k) = .ok (ofModsTapCode mods k) := by
  obtain ⟨side, bits⟩ := mods
  cases side <;> simp only [ofCode, modsTag, Word.tag_pack, Word.nibble_pack, Word.low_pack] <;> rfl

/-- What stands for an action is read as that action. -/
theorem Denotes.ofCode_eq (h : Denotes code a) : ofCode code = .ok a := by
  cases h with
  | none side => exact (ofCode_key ⟨side, 0⟩ 0).trans ofKeyCode_nothing
  | transparent => rfl
  | key side k first => exact (ofCode_key ⟨side, 0⟩ k).trans (ofKeyCode_of_first first)
  | keyWithMods mods k some first =>
    have full : mods.isEmpty = false := beq_eq_false_iff_ne.mpr some
    rw [ofCode_key]
    rcases first with rfl | first
    · rw [ofKeyCode_nothing, full]
      rfl
    · rw [ofKeyCode_of_first first, full]
      rfl
  | oneShot mods => exact ofCode_modsTap mods 0
  | modsTap mods k some =>
    rw [ofCode_modsTap, ofModsTapCode, if_neg some]
  | usage page u =>
    have read : ofCode (usageCode page u) = ofUsageCode (usageCode page u) := by
      simp only [ofCode, tag_usageCode]
    rw [read, ofUsageCode, page_usageCode, number_usageCode]
    cases page
    · rfl
    · rfl
  | mouse nibble k =>
    simp only [ofCode, Word.tag_pack, Word.low_pack]
  | layer target n low op read =>
    cases target <;>
    · simp only [ofCode, layerTag, Word.tag_pack]
      show ofLayerCode _ _ = _
      simp only [ofLayerCode, Word.low_pack, Word.nibble_pack, read]
  | hook kind id options =>
    cases kind <;> simp only [ofCode, hookTag, Word.tag_pack, Word.low_pack, Word.nibble_pack]

theorem denotes_of_ofKeyCode (mods : Mods)
    (parts : Word.pack (modsTag 0b0000 0b0001 mods) mods.bits k = code)
    (h : ofKeyCode code mods k = .ok a) : Denotes code a := by
  obtain ⟨side, bits⟩ := mods
  unfold ofKeyCode at h
  split at h
  · -- before the first key there is the transparent code only
    split at h
    · rename_i transparent
      obtain rfl := Except.ok.inj h
      rw [transparent]
      exact .transparent
    · cases h
  rename_i real
  have first : k = Keycode.nothing ∨ Keycode.firstKey ≤ k := by
    by_cases zero : k = Keycode.nothing
    · exact Or.inl zero
    · exact Or.inr (BitVec.not_lt.mp fun less => real ⟨zero, less⟩)
  split at h
  · rename_i full
    obtain rfl := Except.ok.inj h
    have some : bits ≠ 0 := by simpa [Mods.isEmpty] using full
    rw [← parts]
    exact .keyWithMods ⟨side, bits⟩ k some first
  rename_i empty
  obtain rfl : bits = 0 := by simpa [Mods.isEmpty] using empty
  split at h
  · rename_i zero
    obtain rfl := Except.ok.inj h
    rw [← parts, zero]
    exact .none side
  · rename_i other
    obtain rfl := Except.ok.inj h
    rw [← parts]
    exact .key side k (first.resolve_left other)

theorem denotes_ofModsTapCode (mods : Mods)
    (parts : Word.pack (modsTag 0b0010 0b0011 mods) mods.bits k = code) :
    Denotes code (ofModsTapCode mods k) := by
  rw [← parts]
  by_cases zero : k = Keycode.nothing
  · rw [ofModsTapCode, if_pos zero, zero]
    exact .oneShot mods
  · rw [ofModsTapCode, if_neg zero]
    exact .modsTap mods k zero

theorem denotes_of_ofUsageCode (tag : code.tag = 0b0100#4) (h : ofUsageCode code = .ok a) :
    Denotes code a := by
  unfold ofUsageCode at h
  split at h
  · rename_i page
    obtain rfl := Except.ok.inj h
    rw [← usageCode_parts .system tag page]
    exact number_usageCode .system _ ▸ .usage .system _
  · rename_i page
    obtain rfl := Except.ok.inj h
    rw [← usageCode_parts .consumer tag page]
    exact number_usageCode .consumer _ ▸ .usage .consumer _
  · cases h

theorem denotes_of_ofLayerCode (target : LayerTarget)
    (parts : Word.pack (layerTag target) code.nibble code.low = code)
    (h : ofLayerCode code target = .ok a) : Denotes code a := by
  unfold ofLayerCode at h
  split at h
  · rename_i op read
    obtain rfl := Except.ok.inj h
    have row : Denotes (Word.pack (layerTag target) code.nibble code.low) _ :=
      .layer target code.nibble code.low op read
    rwa [parts] at row
  · cases h

/-- What is read as an action stands for that action. -/
theorem denotes_of_ofCode (h : ofCode code = .ok a) : Denotes code a := by
  -- one case for each tag, in which the code is put together from its parts
  have parts := Word.pack_parts code
  unfold ofCode at h
  split at h <;> rename_i tag
  · -- keys, by hand
    rw [tag] at parts
    exact denotes_of_ofKeyCode ⟨.left, code.nibble⟩ parts h
  · rw [tag] at parts
    exact denotes_of_ofKeyCode ⟨.right, code.nibble⟩ parts h
  · -- modifiers and taps, by hand
    rw [tag] at parts
    obtain rfl := Except.ok.inj h
    exact denotes_ofModsTapCode ⟨.left, code.nibble⟩ parts
  · rw [tag] at parts
    obtain rfl := Except.ok.inj h
    exact denotes_ofModsTapCode ⟨.right, code.nibble⟩ parts
  · -- usages
    exact denotes_of_ofUsageCode tag h
  · -- mouse keys
    rw [tag] at parts
    obtain rfl := Except.ok.inj h
    have row := Denotes.mouse code.nibble code.low
    rwa [parts] at row
  · -- layers, by family
    rw [tag] at parts
    exact denotes_of_ofLayerCode .keymap parts h
  · rw [tag] at parts
    exact denotes_of_ofLayerCode .overlay parts h
  · -- extensions, by kind
    rw [tag] at parts
    obtain rfl := Except.ok.inj h
    have row := Denotes.hook .playMacro code.low code.nibble
    rwa [hookTag, parts] at row
  · rw [tag] at parts
    obtain rfl := Except.ok.inj h
    have row := Denotes.hook .runCommand code.low code.nibble
    rwa [hookTag, parts] at row
  · rw [tag] at parts
    obtain rfl := Except.ok.inj h
    have row := Denotes.hook .callFunction code.low code.nibble
    rwa [hookTag, parts] at row
  · -- no other tag is read
    cases h

theorem ofCode_eq_ok_iff : ofCode code = .ok a ↔ Denotes code a :=
  ⟨denotes_of_ofCode, Denotes.ofCode_eq⟩

/-! ## Codes that cannot be read -/

theorem low_of_ofKeyCode {e : UnknownCode} (h : ofKeyCode code mods code.low = .error e) :
    1 ≤ code.low ∧ code.low ≤ 3 ∧ code ≠ 0x0001 ∧ e = ⟨code⟩ := by
  unfold ofKeyCode at h
  split at h
  · rename_i before
    split at h
    · cases h
    · rename_i other
      have few : ∀ k : Keycode, k ≠ Keycode.nothing → k < Keycode.firstKey → 1 ≤ k ∧ k ≤ 3 := by
        decide
      obtain ⟨least, most⟩ := few code.low before.1 before.2
      exact ⟨least, most, other, (Except.error.inj h).symm⟩
  · split at h
    · cases h
    · split at h <;> cases h

theorem ofKeyCode_of_low (least : 1 ≤ code.low) (most : code.low ≤ 3) (other : code ≠ 0x0001) :
    ofKeyCode code mods code.low = .error ⟨code⟩ := by
  have before : ∀ k : Keycode, 1 ≤ k → k ≤ 3 → k ≠ Keycode.nothing ∧ k < Keycode.firstKey := by
    decide
  rw [ofKeyCode, if_pos (before code.low least most)]
  exact if_neg other

/-- A reserved code cannot be read. -/
theorem Reserved.ofCode_eq (h : Reserved code) : ofCode code = .error ⟨code⟩ := by
  cases h with
  | tag free => rcases free with tag | tag | tag | tag | tag <;> simp only [ofCode, tag] <;> rfl
  | key tag least most other =>
    rcases tag with tag | tag <;> simp only [ofCode, tag]
    · exact ofKeyCode_of_low least most other
    · exact ofKeyCode_of_low least most other
  | usage tag page =>
    simp only [ofCode, tag]
    show ofUsageCode code = _
    rcases page with page | page <;> simp only [ofUsageCode, page] <;> rfl
  | layer tag zero =>
    have none : LayerOp.ofByte? code.low = Option.none := by
      rw [zero]
      rfl
    rcases tag with tag | tag <;> simp only [ofCode, tag]
    · show ofLayerCode code .keymap = _
      rw [ofLayerCode, none]
    · show ofLayerCode code .overlay = _
      rw [ofLayerCode, none]

theorem low_of_ofLayerCode {target : LayerTarget} {e : UnknownCode}
    (h : ofLayerCode code target = .error e) : code.low = 0 ∧ e = ⟨code⟩ := by
  unfold ofLayerCode at h
  split at h
  · cases h
  · rename_i none
    have zero := LayerOp.isNone_ofByte? code.low
    rw [none] at zero
    exact ⟨beq_iff_eq.mp zero.symm, (Except.error.inj h).symm⟩

theorem page_of_ofUsageCode {e : UnknownCode} (h : ofUsageCode code = .error e) :
    (code.extractLsb' 10 2 = 2 ∨ code.extractLsb' 10 2 = 3) ∧ e = ⟨code⟩ := by
  unfold ofUsageCode at h
  split at h
  · cases h
  · cases h
  · rename_i notSystem notConsumer
    have four : ∀ page : BitVec 2, page ≠ 0b00#2 → page ≠ 0b01#2 → page = 2 ∨ page = 3 := by
      decide
    exact ⟨four _ notSystem notConsumer, (Except.error.inj h).symm⟩

/-- A code that cannot be read is reserved, and the error names it. -/
theorem reserved_of_ofCode {e : UnknownCode} (h : ofCode code = .error e) :
    Reserved code ∧ e = ⟨code⟩ := by
  unfold ofCode at h
  split at h <;> rename_i tag
  · -- keys, by hand
    obtain ⟨least, most, other, rfl⟩ := low_of_ofKeyCode h
    exact ⟨.key (Or.inl tag) least most other, rfl⟩
  · obtain ⟨least, most, other, rfl⟩ := low_of_ofKeyCode h
    exact ⟨.key (Or.inr tag) least most other, rfl⟩
  · -- taps are always read
    cases h
  · cases h
  · obtain ⟨page, rfl⟩ := page_of_ofUsageCode h
    exact ⟨.usage tag page, rfl⟩
  · -- and so are mouse keys
    cases h
  · -- layers, by family
    obtain ⟨zero, rfl⟩ := low_of_ofLayerCode h
    exact ⟨.layer (Or.inl tag) zero, rfl⟩
  · obtain ⟨zero, rfl⟩ := low_of_ofLayerCode h
    exact ⟨.layer (Or.inr tag) zero, rfl⟩
  · -- extensions are always read
    cases h
  · cases h
  · cases h
  · -- all eleven tags that are used have been tried
    rename_i n0 n1 n2 n3 n4 n5 n8 n9 n12 n14
    have free : ∀ t : BitVec 4, t ≠ 0 → t ≠ 1 → t ≠ 2 → t ≠ 3 → t ≠ 4 → t ≠ 5 → t ≠ 8 → t ≠ 9 →
        t ≠ 12 → t ≠ 14 → t ≠ 15 → t = 6 ∨ t = 7 ∨ t = 10 ∨ t = 11 ∨ t = 13 := by
      decide
    exact ⟨.tag (free _ n0 n1 n2 n3 n4 n5 n8 n9 n12 n14 tag), (Except.error.inj h).symm⟩

theorem ofCode_eq_error_iff {e : UnknownCode} :
    ofCode code = .error e ↔ Reserved code ∧ e = ⟨code⟩ := by
  constructor
  · exact reserved_of_ofCode
  · rintro ⟨reserved, rfl⟩
    exact reserved.ofCode_eq

/-! ## Writing -/

/-- An action in range is written as a code that stands for it. -/
theorem denotes_code (h : a.InRange) : Denotes a.code a := by
  cases a with
  | none => exact .none .left
  | transparent => exact .transparent
  | key k =>
    have reached : ¬k < Keycode.firstKey := BitVec.not_lt.mpr h
    rw [code, if_neg reached]
    exact .key .left k h
  | keyWithMods mods k => exact .keyWithMods mods k h.1 h.2
  | modsTap mods tap =>
    cases tap with
    | oneShot => exact .oneShot mods
    | key k => exact .modsTap mods k h
  | usage page u =>
    cases page with
    | system => exact .usage .system u
    | consumer => exact .usage .consumer u
  | mouse k => exact .mouse 0 k
  | layer target n op =>
    cases target with
    | keymap => exact .layer .keymap n op.byte op (LayerOp.ofByte?_byte h)
    | overlay => exact .layer .overlay n op.byte op (LayerOp.ofByte?_byte h)
  | hook kind id options =>
    cases kind with
    | playMacro => exact .hook .playMacro id options
    | runCommand => exact .hook .runCommand id options
    | callFunction => exact .hook .callFunction id options

/-- A code stands for actions in range only. -/
theorem Denotes.inRange (h : Denotes code a) : a.InRange := by
  cases h with
  | none | transparent | oneShot | usage | mouse | hook => trivial
  | key side k first => exact first
  | keyWithMods mods k some first => exact ⟨some, first⟩
  | modsTap mods k some => exact some
  | layer target n low op read => exact LayerOp.inRange_of_ofByte? low op read

/-- Only codes of keys under the right hand and codes of mouse keys are not canonical. -/
theorem canonical_of_other {tag nibble : BitVec 4} {low : Byte} (key : tag = 1 → nibble ≠ 0)
    (mouse : tag ≠ 5) : canonical (Word.pack tag nibble low) = Word.pack tag nibble low := by
  rw [canonical, Word.tag_pack, Word.nibble_pack, if_neg fun h => key h.1 h.2, if_neg mouse]

theorem canonical_of_tag {tag nibble : BitVec 4} {low : Byte} (other : tag ≠ 1 ∧ tag ≠ 5) :
    canonical (Word.pack tag nibble low) = Word.pack tag nibble low :=
  canonical_of_other (fun key => absurd key other.1) other.2

theorem canonical_key (side : Side) (k : Keycode) :
    canonical (Word.pack (modsTag 0b0000 0b0001 ⟨side, 0⟩) 0 k) = Word.pack 0 0 k := by
  cases side with
  | left => exact canonical_of_other (by decide) (by decide)
  | right =>
    rw [canonical, modsTag, Word.tag_pack, Word.nibble_pack, Word.low_pack]
    exact if_pos ⟨rfl, rfl⟩

theorem canonical_mouse (nibble : BitVec 4) (k : Keycode) :
    canonical (Word.pack 0b0101#4 nibble k) = Word.pack 0b0101#4 0 k := by
  rw [canonical, Word.tag_pack, Word.low_pack, if_neg fun h => absurd h.1 (by decide)]
  exact if_pos rfl

theorem canonical_usageCode (page : UsagePage) (u : BitVec 10) :
    canonical (usageCode page u) = usageCode page u := by
  rw [canonical, tag_usageCode, if_neg fun h => absurd h.1 (by decide), if_neg (by decide)]

theorem modsTapTag_ne (mods : Mods) :
    modsTag 0b0010 0b0011 mods ≠ 1 ∧ modsTag 0b0010 0b0011 mods ≠ 5 := by
  rw [modsTag]
  cases mods.side <;> decide

/-- The code that is written for what a code stands for is the code itself, but for the bits that
mean nothing. -/
theorem Denotes.code_eq (h : Denotes code a) : a.code = canonical code := by
  cases h with
  | none side => exact (canonical_key side 0).symm
  | transparent => rfl
  | key side k first =>
    have reached : ¬k < Keycode.firstKey := BitVec.not_lt.mpr first
    rw [Action.code, if_neg reached, canonical_key]
  | keyWithMods mods k some first =>
    have tag : modsTag 0b0000 0b0001 mods ≠ 5 := by
      rw [modsTag]
      cases mods.side <;> decide
    exact (canonical_of_other (fun _ => some) tag).symm
  | oneShot mods => exact (canonical_of_tag (modsTapTag_ne mods)).symm
  | modsTap mods k some => exact (canonical_of_tag (modsTapTag_ne mods)).symm
  | usage page u =>
    rw [canonical_usageCode]
    cases page with
    | system => rfl
    | consumer => rfl
  | mouse nibble k => exact (canonical_mouse nibble k).symm
  | layer target n low op read =>
    rw [← LayerOp.byte_of_ofByte? read]
    cases target with
    | keymap => exact (canonical_of_tag (by decide)).symm
    | overlay => exact (canonical_of_tag (by decide)).symm
  | hook kind id options =>
    cases kind with
    | playMacro => exact (canonical_of_tag (by decide)).symm
    | runCommand => exact (canonical_of_tag (by decide)).symm
    | callFunction => exact (canonical_of_tag (by decide)).symm

/-- An action is read back from its code exactly if it is in range. A code is either reserved, and
reading it fails and gives the code back, or it stands for an action; then the code of that action
is the same but for the bits that mean nothing, and is read as the same action again. -/
theorem ofCode_code :
    (∀ a : Action, ofCode a.code = .ok a ↔ a.InRange) ∧
      ∀ code : Word, (Reserved code ∧ ofCode code = .error ⟨code⟩) ∨
        (¬Reserved code ∧
          ∃ a, ofCode code = .ok a ∧ a.code = canonical code ∧
            ofCode (canonical code) = .ok a) := by
  have read (a : Action) (h : a.InRange) : ofCode a.code = .ok a := (denotes_code h).ofCode_eq
  constructor
  · intro a
    constructor
    · intro h
      exact (ofCode_eq_ok_iff.mp h).inRange
    · exact read a
  · intro code
    cases h : ofCode code with
    | error e =>
      obtain ⟨reserved, rfl⟩ := ofCode_eq_error_iff.mp h
      exact Or.inl ⟨reserved, rfl⟩
    | ok a =>
      have row : Denotes code a := ofCode_eq_ok_iff.mp h
      have free : ¬Reserved code := by
        intro reserved
        cases h.symm.trans reserved.ofCode_eq
      refine Or.inr ⟨free, a, rfl, row.code_eq, ?_⟩
      rw [← row.code_eq]
      exact read a row.inRange

/-- A letter under the right hand without modifiers, and a mouse key with bits in its nibble. -/
example : ofCode 0x1004 = .ok (.key 0x04) ∧ (Action.key 0x04).code = 0x0004 ∧
    ofCode 0x5af1 = .ok (.mouse 0xf1) ∧ (Action.mouse 0xf1).code = 0x50f1 :=
  ⟨rfl, rfl, rfl, rfl⟩

end Action

end TapHold
