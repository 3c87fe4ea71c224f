import TapHold.Keymap.Memory
import TapHold.Proofs.Keymap.Format

/-!
# Loading into a memory

A memory is written before the image is known to be good, and keeps the words of earlier images
behind those of the last one. What it shows does not depend on them. Copying puts the words at the
start of the memory (`copy_of_fits`), and they are checked there as they would be in a list
(`follows_iff`): every offset that is read is one of the words copied, since the directory is no
longer than these. What is behind them is not reached afterwards either, since no offset is beyond
the end (`Holds.layer?_eq`) and halving stays within the pairs of a layer (`code?_of_ofWords?`).

So an image is taken exactly when it follows the format (`load_eq_ok_iff_follows`), a memory that
was in use and a new one show the same after loading (`load_forgets`), and a memory does what a slot
does, in which an image is kept as a whole (`load_eq_slot`).
-/

set_option autoImplicit false

namespace TapHold

/-! ## The code of a place among words -/

namespace LayerBody

variable {rows cols lo hi : Nat} {words : List Word} {place : Word} {body : LayerBody}

/-- The words of pairs are the places and the codes by turns. -/
theorem getElem?_words_sparse (bindings : List (Word × Word)) (k : Nat) :
    (LayerBody.sparse bindings).words[2 * k]? = bindings[k]?.map Prod.fst ∧
      (LayerBody.sparse bindings).words[2 * k + 1]? = bindings[k]?.map Prod.snd := by
  induction bindings generalizing k with
  | nil => exact ⟨rfl, rfl⟩
  | cons b rest ih =>
    cases k with
    | zero => exact ⟨rfl, rfl⟩
    | succ k => exact ih k

/-- The middle one of the pairs that are left tells in which half to go on. -/
theorem search?_of_lt {bindings : List (Word × Word)} {p code : Word} (less : lo < hi)
    (middle : bindings[(lo + hi) / 2]? = some (p, code)) :
    search? (LayerBody.sparse bindings).words place lo hi =
      if place < p then search? (LayerBody.sparse bindings).words place lo ((lo + hi) / 2)
      else if p < place then
        search? (LayerBody.sparse bindings).words place ((lo + hi) / 2 + 1) hi
      else some code := by
  obtain ⟨first, second⟩ := getElem?_words_sparse bindings ((lo + hi) / 2)
  rw [middle] at first second
  rw [search?, if_pos less]
  dsimp only
  rw [first, second]
  rfl

/-- Halving the words of pairs finds what halving the pairs finds, and reads no word behind. -/
theorem search?_words_sparse (bindings : List (Word × Word)) (short : hi ≤ bindings.length) :
    search? (LayerBody.sparse bindings).words place lo hi = some (search bindings place lo hi) := by
  -- there is a pair in the middle, since those that are left are among all
  fun_induction search bindings place lo hi with
  | case1 lo hi less mid p c middle before ih =>
    rw [search?_of_lt less middle, if_pos before]
    exact ih (by omega)
  | case2 lo hi less mid p c middle notBefore after ih =>
    rw [search?_of_lt less middle, if_neg notBefore, if_pos after]
    exact ih short
  | case3 lo hi less mid p c middle notBefore notAfter =>
    rw [search?_of_lt less middle, if_neg notBefore, if_neg notAfter]
  | case4 lo hi less mid none =>
    have long := List.getElem?_eq_none_iff.mp none
    omega
  | case5 lo hi notLess => rw [search?, if_neg notLess]

/-- **The words of a body give the codes of the body**, and no lookup reads beyond them. -/
theorem code?_of_ofWords? (read : ofWords? rows cols words = some body) (key : Position) :
    code? rows cols words key = some (body.code rows cols key) := by
  unfold ofWords? at read
  split at read
  · rename_i full
    obtain rfl := Option.some.inj read
    unfold code? code
    rw [if_pos full]
    split
    · rename_i inside
      have place : key.row.toNat * cols + key.col.toNat < rows * cols := by
        have rowsLe : (key.row.toNat + 1) * cols ≤ rows * cols := Nat.mul_le_mul_right _ inside.1
        rw [Nat.succ_mul] at rowsLe
        omega
      show _ = some (words.getD _ _)
      rw [List.getD_eq_getElem?_getD, List.getElem?_eq_getElem (full ▸ place)]
      rfl
    · rfl
  · rename_i other
    obtain ⟨bindings, found, rfl⟩ := Option.map_eq_some_iff.mp read
    obtain rfl := words_of_pairs? (Option.filter_eq_some_iff.mp found).1
    have half : (LayerBody.sparse bindings).words.length / 2 = bindings.length := by
      rw [length_words_sparse, Nat.mul_div_cancel _ (by decide)]
    rw [code?, if_neg other, half]
    exact search?_words_sparse bindings (Nat.le_refl _)

end LayerBody

namespace ImageMemory

open Image (Divided bodyAt offset)

variable {rows cols space count : Nat} {memory : Vector Word space} {words rest : List Word}

/-! ## Copying -/

/-- Words that find room are put behind those that are taken already. -/
theorem copy_of_fits (memory : Vector Word space) (used : Fin (space + 1)) (ws : List Word)
    (fits : used.val + ws.length ≤ space) :
    ∃ (memory' : Vector Word space) (used' : Fin (space + 1)),
      copy memory used ws = (memory', .ok used') ∧ used'.val = used.val + ws.length ∧
        memory.toList.take used.val ++ ws <+: memory'.toList := by
  -- by induction on the words to come, for any memory
  induction ws generalizing memory used with
  | nil =>
    refine ⟨memory, used, rfl, rfl, ?_⟩
    rw [List.append_nil]
    exact List.take_prefix _ _
  | cons w ws ih =>
    rw [List.length_cons] at fits
    have room : used.val < space := by omega
    have fits' : used.val + 1 + ws.length ≤ space := by omega
    obtain ⟨memory', used', copied, number, held⟩ :=
      ih (memory.set used.val w) ⟨used.val + 1, Nat.succ_lt_succ room⟩ fits'
    have number : used'.val = used.val + 1 + ws.length := number
    refine ⟨memory', used', ?_, ?_, ?_⟩
    · rw [copy, dif_pos room, copied]
    · rw [number, List.length_cons]
      omega
    · have taken : (memory.set used.val w).toList.take (used.val + 1) =
          memory.toList.take used.val ++ [w] := by
        rw [Vector.toList_set, List.take_add_one, List.take_set_of_le (Nat.le_refl _),
          List.getElem?_set_self (by rwa [Vector.length_toList])]
        rfl
      rwa [taken, List.append_assoc] at held

/-- Too many words are refused. -/
theorem copy_of_long (memory : Vector Word space) (used : Fin (space + 1)) (ws : List Word)
    (long : space < used.val + ws.length) : (copy memory used ws).2 = .error .outOfSpace := by
  induction ws generalizing memory used with
  | nil => exact absurd used.isLt (Nat.not_lt.mpr long)
  | cons w ws ih =>
    rw [copy]
    split
    · rename_i room
      refine ih _ _ ?_
      rw [List.length_cons] at long
      dsimp only
      omega
    · rfl

/-! ## Checking what was copied -/

/-- The words at the start of a memory are read where they were put. -/
theorem getElem_of_held (held : rest <+: memory.toList) {i : Nat} (short : i < rest.length)
    (inside : i < space) : memory[i].toNat = offset rest i := by
  obtain ⟨behind, same⟩ := held
  have here : memory.toList[i]? = rest[i]? := by
    rw [← same, List.getElem?_append_left short]
  rw [List.getElem?_eq_getElem (by rwa [Vector.length_toList]), Vector.getElem_toList] at here
  rw [offset, List.getD_eq_getElem?_getD, ← here]
  rfl

/-- Words within the first ones are cut out of these. -/
theorem slice_of_held (held : rest <+: memory.toList) {start stop : Nat}
    (inside : stop ≤ rest.length) : slice memory start stop = (rest.take stop).drop start := by
  obtain ⟨behind, same⟩ := held
  rw [slice, ← same, List.take_append_of_le_length inside]

/-- The bodies from number `i` on follow the format when the directory says so for each of them. -/
theorem bodiesFollow_iff {used : Fin (space + 1)} (held : rest <+: memory.toList)
    (taken : used.val = rest.length) (long : count + 1 ≤ rest.length) (inside : count < space)
    (i start : Nat) :
    bodiesFollow rows cols memory used count inside i start = true ↔
      (i < count → offset rest i = start) ∧ ∀ k, i ≤ k → k < count →
        offset rest k ≤ offset rest (k + 1) ∧ offset rest (k + 1) ≤ rest.length ∧
          LayerBody.Readable rows cols (bodyAt rest k) := by
  fun_induction bodiesFollow rows cols memory used count inside i start with
  | case1 i start next s e ih =>
    have hs : s = offset rest i := getElem_of_held held (by omega) _
    have he : e = offset rest (i + 1) := getElem_of_held held (by omega) _
    -- the next body starts where this one ends, so its start is nothing to be asked again
    rw [he] at ih
    rw [Bool.and_eq_true, Bool.and_eq_true, decide_eq_true_iff, hs, he, taken, ih,
      LayerBody.isSome_ofWords?_iff]
    constructor
    · rintro ⟨⟨⟨first, order, within⟩, readable⟩, -, later⟩
      rw [slice_of_held held within] at readable
      refine ⟨fun _ => first, fun k here before => ?_⟩
      rcases Nat.eq_or_lt_of_le here with rfl | behind
      · exact ⟨order, within, readable⟩
      · exact later k behind before
    · rintro ⟨first, each⟩
      obtain ⟨order, within, readable⟩ := each i (Nat.le_refl i) next
      rw [slice_of_held held within]
      exact ⟨⟨⟨first next, order, within⟩, readable⟩, fun _ => rfl,
        fun k behind => each k (Nat.le_of_succ_le behind)⟩
  | case2 i start last =>
    exact ⟨fun _ => ⟨fun next => absurd next last, fun k here before =>
      absurd (Nat.lt_of_le_of_lt here before) last⟩, fun _ => rfl⟩

/-- **A memory is accepted exactly when the words that were copied are divided.** -/
theorem follows_iff {used : Fin (space + 1)} (held : rest <+: memory.toList)
    (taken : used.val = rest.length) (some : 0 < count) :
    follows rows cols memory used count = true ↔ Divided rows cols count rest := by
  unfold follows
  split
  · rename_i long
    rw [taken] at long
    rw [Bool.and_eq_true, beq_iff_eq, taken, getElem_of_held held long _,
      bodiesFollow_iff held taken long]
    constructor
    · rintro ⟨stop, start, each⟩
      exact ⟨long, start some, fun i less => (each i (Nat.zero_le i) less).1, stop,
        fun i less => (each i (Nat.zero_le i) less).2.2⟩
    · intro divided
      exact ⟨divided.stop, fun _ => divided.start, fun k _ less =>
        ⟨divided.order k less, divided.offset_le less, divided.bodies k less⟩⟩
  · rename_i short
    rw [taken] at short
    exact ⟨fun h => (nomatch h), fun divided => absurd divided.long short⟩

/-! ## Loading -/

/-- The directory and the bodies of an image are at the start of the memory, and its header is
known. -/
structure Holds (m : ImageMemory rows cols space) (header : Image.Header) (rest : List Word) :
    Prop where
  layerCount : m.layerCount = header.layerCount
  overlayCount : m.overlayCount = header.overlayCount
  settings : m.settings = header.settings
  held : rest <+: m.words.toList
  divided : Divided rows cols (header.layerCount + header.overlayCount) rest

/-- An image is copied if there is room for its directory and bodies, and is accepted then if these
are divided. -/
theorem overwrite_of_fits (m : ImageMemory rows cols space) {header : Image.Header}
    (opened : Image.readHeader rows cols words = .ok (header, rest)) (room : rest.length ≤ space) :
    ∃ memory : Vector Word space, rest <+: memory.toList ∧
      (Divided rows cols (header.layerCount + header.overlayCount) rest →
        m.overwrite words =
          (⟨memory, header.layerCount, header.overlayCount, header.settings⟩, .ok ())) ∧
      (¬Divided rows cols (header.layerCount + header.overlayCount) rest →
        m.overwrite words = ({ m with words := memory }, .error .corrupt)) := by
  have fits : (⟨0, Nat.succ_pos space⟩ : Fin (space + 1)).val + rest.length ≤ space := by
    rwa [Nat.zero_add]
  obtain ⟨memory, used, copied, number, held⟩ := copy_of_fits m.words _ rest fits
  have taken : used.val = rest.length := number.trans (Nat.zero_add _)
  have accepted : follows rows cols memory used (header.layerCount + header.overlayCount) = true ↔
      Divided rows cols (header.layerCount + header.overlayCount) rest :=
    follows_iff held taken (Image.count_pos_of_readHeader opened)
  refine ⟨memory, held, fun divided => ?_, fun other => ?_⟩
  · rw [overwrite, opened]
    dsimp only
    rw [copied]
    exact if_pos (accepted.mpr divided)
  · rw [overwrite, opened]
    dsimp only
    rw [copied]
    exact if_neg fun yes => other (accepted.mp yes)

/-- There is no room for too many words, whatever they are. -/
theorem overwrite_of_long (m : ImageMemory rows cols space) {header : Image.Header}
    (opened : Image.readHeader rows cols words = .ok (header, rest)) (long : ¬rest.length ≤ space) :
    (m.overwrite words).2 = .error .outOfSpace := by
  have refused := copy_of_long m.words ⟨0, Nat.succ_pos space⟩ rest (by
    rw [Nat.zero_add]
    exact Nat.lt_of_not_le long)
  rw [overwrite, opened]
  dsimp only
  generalize copy m.words ⟨0, Nat.succ_pos space⟩ rest = copied at refused
  obtain ⟨memory, result⟩ := copied
  obtain rfl : result = .error .outOfSpace := refused
  rfl

/-- A failure is passed on, with nothing left in the memory. -/
theorem load_of_overwrite_error (m : ImageMemory rows cols space) {e : LoadError}
    (failed : (m.overwrite words).2 = .error e) : m.load words = (empty, .error e) := by
  unfold load
  generalize m.overwrite words = written at failed
  obtain ⟨next, result⟩ := written
  obtain rfl : result = .error e := failed
  rfl

/-- What cannot be read as an image leaves the memory as it was at the start. -/
theorem load_of_error (m : ImageMemory rows cols space) {e : LoadError}
    (refused : Image.ofWords rows cols space words = .error e) :
    m.load words = (empty, .error e) := by
  refine m.load_of_overwrite_error ?_
  cases opened : Image.readHeader rows cols words with
  | error e' =>
    rw [Image.ofWords_of_readHeader_error opened] at refused
    rw [overwrite, opened, Except.error.inj refused]
  | ok read =>
    obtain ⟨header, rest⟩ := read
    by_cases room : rest.length ≤ space
    · by_cases divided : Divided rows cols (header.layerCount + header.overlayCount) rest
      · -- such an image is read
        obtain ⟨image, read⟩ := divided.exists_ofWords opened room
        rw [read] at refused
        cases refused
      · rw [Image.ofWords_of_not_divided opened room divided] at refused
        obtain ⟨memory, -, -, corrupt⟩ := m.overwrite_of_fits opened room
        rw [corrupt divided, ← Except.error.inj refused]
    · rw [Image.ofWords_of_long opened room] at refused
      rw [m.overwrite_of_long opened room, ← Except.error.inj refused]

/-- What is read as an image is in the memory. -/
theorem load_of_ok (m : ImageMemory rows cols space) {image : Image}
    (read : Image.ofWords rows cols space words = .ok image) :
    ∃ header rest, Image.readHeader rows cols words = .ok (header, rest) ∧
      Image.readBodies? rows cols (header.layerCount + header.overlayCount) rest =
        some (image.layers ++ image.overlays) ∧
      image.layers.length = header.layerCount ∧ image.settings = header.settings ∧
      (m.load words).2 = .ok () ∧ (m.load words).1.Holds header rest := by
  obtain ⟨header, rest, opened, room, cut, length, settings⟩ := Image.ofWords_eq_ok_iff.mp read
  obtain ⟨divided, -, -⟩ := Image.readBodies?_eq_some_iff.mp cut
  obtain ⟨memory, held, accepted, -⟩ := m.overwrite_of_fits opened room
  have loaded : m.load words =
      (⟨memory, header.layerCount, header.overlayCount, header.settings⟩, .ok ()) := by
    rw [load, accepted divided]
  rw [loaded]
  exact ⟨header, rest, opened, cut, length, settings, rfl, rfl, rfl, rfl, held, divided⟩

/-! ## What a memory shows -/

variable {m m' : ImageMemory rows cols space} {header : Image.Header} {id : LayerId} {i : Nat}

/-- The number of a layer is among those of the directory. -/
theorem Holds.lt_of_index? (h : m.Holds header rest) (number : m.index? id = some i) :
    i < header.layerCount + header.overlayCount := by
  rw [← h.layerCount, ← h.overlayCount]
  obtain ⟨target, n⟩ := id
  cases target with
  | keymap =>
    obtain ⟨less, same⟩ := Option.ite_none_right_eq_some.mp number
    have same : n = i := Option.some.inj same
    have less : n < m.layerCount := less
    omega
  | overlay =>
    obtain ⟨less, same⟩ := Option.ite_none_right_eq_some.mp number
    have same : m.layerCount + n = i := Option.some.inj same
    have less : n < m.overlayCount := less
    omega

/-- **A layer is the words between its offset and the next**, and its number is read within the
directory. -/
theorem Holds.layer?_eq (h : m.Holds header rest) (id : LayerId) :
    m.layer? id = (m.index? id).map (bodyAt rest) := by
  unfold layer?
  cases number : m.index? id with
  | none => rfl
  | some i =>
    have less := h.lt_of_index? number
    have long := h.divided.long
    have most := h.held.length_le
    rw [Vector.length_toList] at most
    have here : i < space := by omega
    have next : i + 1 < space := by omega
    -- both offsets are among the words that were copied
    have start := getElem_of_held h.held (by omega) here
    have stop := getElem_of_held h.held (by omega) next
    have within := h.divided.offset_le less
    show (m.words[i]?.bind fun start => m.words[i + 1]?.bind fun stop =>
      (guard (start.toNat ≤ stop.toNat ∧ stop.toNat ≤ space) : Option Unit).bind fun _ =>
        some (slice m.words start.toNat stop.toNat)) = some (bodyAt rest i)
    rw [getElem?_pos m.words i here, getElem?_pos m.words (i + 1) next, Option.bind_some,
      Option.bind_some, start, stop,
      Image.guard_of ⟨h.divided.order i less, Nat.le_trans within most⟩, Option.bind_some,
      slice_of_held h.held within]
    rfl

/-- A layer of the memory has a code at every place, and none is looked for outside of it. -/
theorem Holds.isSome_code? (h : m.Holds header rest) {body : List Word}
    (found : m.layer? id = some body) (key : Position) :
    (LayerBody.code? rows cols body key).isSome = true := by
  rw [h.layer?_eq] at found
  obtain ⟨i, number, rfl⟩ := Option.map_eq_some_iff.mp found
  obtain ⟨body, read⟩ := h.divided.exists_body (h.lt_of_index? number)
  rw [LayerBody.code?_of_ofWords? read]
  rfl

/-- Two memories that cannot be told apart from outside. -/
structure Alike (m m' : ImageMemory rows cols space) : Prop where
  layerCount : m.layerCount = m'.layerCount
  overlayCount : m.overlayCount = m'.overlayCount
  settings : m.settings = m'.settings
  layers : ∀ id, m.layer? id = m'.layer? id
  keymap : m.keymap = m'.keymap

/-- The keymap of a memory is known from its layers. -/
theorem keymap_congr (layers : ∀ id, m.layer? id = m'.layer? id) : m.keymap = m'.keymap := by
  funext id key
  rw [keymap, keymap, layers]

/-- Two memories that hold one image are alike, whatever else is in them. -/
theorem Holds.alike (h : m.Holds header rest) (h' : m'.Holds header rest) : m.Alike m' := by
  have counts : m.layerCount = m'.layerCount := h.layerCount.trans h'.layerCount.symm
  have overlays : m.overlayCount = m'.overlayCount := h.overlayCount.trans h'.overlayCount.symm
  have layers (id : LayerId) : m.layer? id = m'.layer? id := by
    rw [h.layer?_eq, h'.layer?_eq, index?, index?, counts, overlays]
  exact ⟨counts, overlays, h.settings.trans h'.settings.symm, layers, keymap_congr layers⟩

theorem layer?_empty (id : LayerId) : (empty : ImageMemory rows cols space).layer? id = none := by
  obtain ⟨target, n⟩ := id
  cases target <;> rfl

theorem keymap_empty (id : LayerId) (key : Position) :
    (empty : ImageMemory rows cols space).keymap id key = Action.transparentCode := by
  rw [keymap, layer?_empty]
  rfl

/-! ## What loading does -/

/-- Loading takes the words that follow the format, and no others. The memory has the layers that
are counted then, each of them as its body, and every lookup stays within the words of its layer.
-/
theorem load_eq_ok_iff_follows (m : ImageMemory rows cols space) (words : List Word) :
    ((m.load words).2 = .ok () ↔
        ∃ s : Image.Sections, s.words = words ∧ s.Follows rows cols space) ∧
      ∀ s : Image.Sections, s.words = words → s.Follows rows cols space →
        (∀ n, (m.load words).1.layer? ⟨.keymap, n⟩ =
          if n < s.layers.toNat then some (bodyAt s.rest n) else none) ∧
        (∀ n, (m.load words).1.layer? ⟨.overlay, n⟩ =
          if n < s.overlays.toNat then some (bodyAt s.rest (s.layers.toNat + n)) else none) ∧
        ∀ id body, (m.load words).1.layer? id = some body →
          ∀ key, (LayerBody.code? rows cols body key).isSome = true := by
  constructor
  · -- the memory takes what can be read as an image
    rw [← Image.exists_ofWords_iff]
    constructor
    · intro ok
      cases read : Image.ofWords rows cols space words with
      | error e =>
        rw [m.load_of_error read] at ok
        cases ok
      | ok image => exact ⟨image, rfl⟩
    · rintro ⟨image, read⟩
      obtain ⟨_, _, _, _, _, _, ok, _⟩ := m.load_of_ok read
      exact ok
  · -- it holds the header and the words of the bodies then, and its layers are read off these
    rintro s rfl follows
    obtain ⟨settings, opened⟩ := follows.exists_readHeader
    obtain ⟨image, read⟩ := follows.divided.exists_ofWords opened follows.room
    obtain ⟨header, rest, opened', _, _, _, _, holds⟩ := m.load_of_ok read
    rw [opened] at opened'
    obtain ⟨rfl, rfl⟩ := Prod.mk.inj (Except.ok.inj opened')
    refine ⟨fun n => ?_, fun n => ?_, fun id body found key => holds.isSome_code? found key⟩
    · rw [holds.layer?_eq, index?]
      dsimp only
      rw [holds.layerCount]
      split <;> rfl
    · rw [holds.layer?_eq, index?]
      dsimp only
      rw [holds.layerCount, holds.overlayCount]
      split <;> rfl

/-- Two layers, the first of them row by row, an overlay and a global. -/
theorem load_of_mixed_words :
    let words : List Word := [1, 0x0203, 2, 1, 2, 0, 150, 4, 10, 14, 16, 4, 5, 6, 7, 8, 9,
      0x0001, 0x1e, 0x0102, 0x27, 0x0000, 0x2c]
    let loaded := (empty : ImageMemory 2 3 100).load words
    loaded.2 = .ok () ∧ loaded.1.layer? ⟨.keymap, 0⟩ = some [4, 5, 6, 7, 8, 9] ∧
      loaded.1.layer? ⟨.keymap, 2⟩ = none ∧ loaded.1.layer? ⟨.overlay, 0⟩ = some [0x0000, 0x2c] ∧
      (LayerBody.code? 2 3 [4, 5, 6, 7, 8, 9] ⟨1, 2⟩).isSome = true := by
  intro words loaded
  let s : Image.Sections := ⟨0x0203, 2, 1, 2, [(0, 150)], [4, 10, 14, 16, 4, 5, 6, 7, 8, 9,
    0x0001, 0x1e, 0x0102, 0x27, 0x0000, 0x2c]⟩
  have globals : ∀ g ∈ s.globals, ∀ settings : Settings,
      ∃ next, settings.withGlobal g.1 g.2 = .ok next :=
    List.forall_mem_singleton.mpr fun settings => ⟨{ settings with term := 150 }, rfl⟩
  have divided : Image.Divided 2 3 s.count s.rest :=
    ⟨by decide, by decide, by decide, by decide, by decide⟩
  have follows : s.Follows 2 3 100 :=
    ⟨⟨⟨by decide, by decide, by decide, by decide, globals⟩, by decide⟩, by decide, divided⟩
  obtain ⟨taken, shown⟩ := load_eq_ok_iff_follows empty words
  obtain ⟨layers, overlays, inside⟩ := shown s rfl follows
  exact ⟨taken.mpr ⟨s, rfl, follows⟩, layers 0, layers 2, overlays 0,
    inside ⟨.keymap, 0⟩ _ (layers 0) ⟨1, 2⟩⟩

/-- A matrix of one row and 256 columns has the number `0x0100`. Words that open with it and follow
the format in all else are refused, since they are for a matrix of one row and no column. -/
theorem load_of_wide_matrix :
    let words : List Word := [1, 0x0100, 1, 0, 0, 2, 2]
    let loaded := (empty : ImageMemory 1 256 1024).load words
    loaded.2 = .error .sizeMismatch ∧
      ¬(loaded.2 = .ok () ↔ ∃ s : Image.Sections, s.words = words ∧ s.Heads 1 256 ∧
        s.rest.length ≤ 1024 ∧ Image.Divided 1 256 s.count s.rest) := by
  intro words loaded
  have unread : Image.ofWords 1 256 1024 words = .error .sizeMismatch := rfl
  have refused : loaded.2 = .error .sizeMismatch := congrArg Prod.snd (load_of_error empty unread)
  let s : Image.Sections := ⟨0x0100, 1, 0, 0, [], [2, 2]⟩
  have heads : s.Heads 1 256 :=
    ⟨by decide, by decide, by decide, by decide, List.forall_mem_nil _⟩
  have divided : Image.Divided 1 256 s.count s.rest :=
    ⟨by decide, by decide, by decide, by decide, by decide⟩
  refine ⟨refused, fun grammar => ?_⟩
  have taken := grammar.mpr ⟨s, rfl, heads, by decide, divided⟩
  rw [refused] at taken
  cases taken

/-- Loading an image does not depend on what was loaded before, and a failure leaves nothing
behind. -/
theorem load_forgets (m : ImageMemory rows cols space) (earlier : List (List Word))
    (words : List Word) :
    let loaded := (earlier.foldl (fun m image => (m.load image).1) m).load words
    let fresh := (empty : ImageMemory rows cols space).load words
    loaded.2 = fresh.2 ∧ loaded.1.Alike fresh.1 ∧
      (loaded.2 = .ok () ∨
        loaded.1.layerCount = 0 ∧ loaded.1.overlayCount = 0 ∧ loaded.1.settings = .standard ∧
          (∀ id, loaded.1.layer? id = none) ∧
          ∀ id key, loaded.1.keymap id key = Action.transparentCode) := by
  generalize earlier.foldl (fun m image => (m.load image).1) m = used
  cases read : Image.ofWords rows cols space words with
  | error e =>
    rw [used.load_of_error read, load_of_error _ read]
    exact ⟨rfl, ⟨rfl, rfl, rfl, fun _ => rfl, rfl⟩,
      .inr ⟨rfl, rfl, rfl, layer?_empty, keymap_empty⟩⟩
  | ok image =>
    obtain ⟨header, rest, opened, _, _, _, ok, holds⟩ := used.load_of_ok read
    obtain ⟨header', rest', opened', _, _, _, ok', holds'⟩ :=
      load_of_ok (empty : ImageMemory rows cols space) read
    -- the same header and the same bodies have been read
    rw [opened] at opened'
    obtain ⟨rfl, rfl⟩ := Prod.mk.inj (Except.ok.inj opened')
    exact ⟨ok.trans ok'.symm, holds.alike holds', .inl ok⟩

/-- An image that is cut off is refused, although the words that are missing are still in the memory
from the image before. -/
example :
    let used := ((empty : ImageMemory 1 1 4).load [1, 0x0101, 1, 0, 0, 2, 3, 0x0004]).1
    used.words.toList = [2, 3, 0x0004, 0] ∧
      (used.load [1, 0x0101, 1, 0, 0, 2, 3]).2 = .error .corrupt := by
  decide +kernel

/-! ## The memory and the slot -/

/-- The bodies of an image have the numbers that the directory gives them. -/
theorem Holds.body?_eq {image : Image} (h : m.Holds header rest)
    (layers : image.layers.length = header.layerCount)
    (overlays : image.overlays.length = header.overlayCount) (id : LayerId) :
    image.body? id = (m.index? id).bind fun i => (image.layers ++ image.overlays)[i]? := by
  obtain ⟨target, n⟩ := id
  cases target with
  | keymap =>
    show image.layers[n]? = (if n < m.layerCount then some n else none).bind _
    rw [h.layerCount, ← layers]
    split
    · rename_i less
      rw [Option.bind_some, List.getElem?_append_left less]
    · rename_i long
      exact List.getElem?_eq_none_iff.mpr (Nat.le_of_not_lt long)
  | overlay =>
    show image.overlays[n]? = (if n < m.overlayCount then some (m.layerCount + n) else none).bind _
    rw [h.overlayCount, h.layerCount, ← overlays, ← layers]
    split
    · rw [Option.bind_some, List.getElem?_append_right (Nat.le_add_right _ _),
        Nat.add_sub_cancel_left]
    · rename_i long
      exact List.getElem?_eq_none_iff.mpr (Nat.le_of_not_lt long)

/-- A layer of the memory is read as the body that the image has there. -/
theorem Holds.layer?_eq_map {image : Image} (h : m.Holds header rest)
    (cut : Image.readBodies? rows cols (header.layerCount + header.overlayCount) rest =
      some (image.layers ++ image.overlays))
    (layers : image.layers.length = header.layerCount) (id : LayerId) :
    m.layer? id = (image.body? id).map LayerBody.words ∧
      ∀ body, image.body? id = some body → LayerBody.ofWords? rows cols body.words = some body := by
  obtain ⟨-, count, each⟩ := Image.readBodies?_eq_some_iff.mp cut
  have overlays : image.overlays.length = header.overlayCount := by
    rw [List.length_append] at count
    omega
  rw [h.layer?_eq, h.body?_eq layers overlays]
  cases number : m.index? id with
  | none => exact ⟨rfl, fun _ h => (nomatch h)⟩
  | some i =>
    have less := h.lt_of_index? number
    obtain ⟨body, read⟩ := h.divided.exists_body less
    have same := LayerBody.words_of_ofWords? read
    rw [Option.map_some, Option.bind_some, ← each i less, read, Option.map_some, same]
    refine ⟨rfl, fun body' found => ?_⟩
    obtain rfl := Option.some.inj found
    rwa [same]

/-- **A memory does what a slot does**: it refuses the same images, and shows the same of those that
it takes. -/
theorem load_eq_slot (m : ImageMemory rows cols space) (image : Image) (words : List Word) :
    let slot : ImageSlot := ⟨rows, cols, space, image⟩
    (m.load words).2 = (slot.load words).2 ∧
      (m.load words).1.settings = (slot.load words).1.image.settings ∧
      (∀ id, (m.load words).1.layer? id =
        ((slot.load words).1.image.body? id).map LayerBody.words) ∧
      (m.load words).1.keymap = (slot.load words).1.keymap := by
  intro slot
  unfold ImageSlot.load
  cases read : Image.ofWords slot.rows slot.cols slot.space words with
  | error e =>
    rw [m.load_of_error read]
    have none (id : LayerId) : Image.empty.body? id = none := by
      obtain ⟨target, n⟩ := id
      cases target <;> rfl
    refine ⟨rfl, rfl, fun id => ?_, ?_⟩
    · rw [layer?_empty, none]
      rfl
    · funext id key
      rw [keymap_empty, ImageSlot.keymap, ImageSlot.code?, none]
      rfl
  | ok image' =>
    obtain ⟨header, rest, -, cut, layers, settings, ok, holds⟩ := m.load_of_ok read
    refine ⟨ok, holds.settings.trans settings.symm,
      fun id => (holds.layer?_eq_map cut layers id).1, ?_⟩
    funext id key
    obtain ⟨layer, readable⟩ := holds.layer?_eq_map cut layers id
    rw [keymap, layer]
    show _ = ((image'.body? id).map fun body => body.code rows cols key).getD _
    cases found : image'.body? id with
    | none => rfl
    | some body =>
      rw [Option.map_some, Option.bind_some, LayerBody.code?_of_ofWords? (readable body found)]
      rfl

end ImageMemory

end TapHold
