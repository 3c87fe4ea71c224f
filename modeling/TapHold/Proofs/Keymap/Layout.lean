import Mathlib.Data.List.Forall2
import TapHold.Proofs.Keymap.Body

/-!
# Images of tables

`Image.Parts` is what an image is made of, and `Parts.numbers` how the format puts it down: words
that stand for these numbers are read back as the parts (`ofWords_of_numbers`), by one lemma for
each piece of the format, the globals, the header, the bodies and the directory. An image of tables
therefore becomes the keymap that the tables are (`load_of_numbers`).

There is such an image whenever the numbers are small enough to be words (`exists_words`). A
`Global` is what is accepted as one, and nothing else is (`withGlobal_eq`, `exists_of_withGlobal`).
-/

set_option autoImplicit false

namespace TapHold

/-! ## Globals -/

/-- A global with a value in range. -/
inductive Global where
  | term (ms : Word) (positive : ms ≠ 0)
  | toggle (count : Nat) (least : 2 ≤ count) (most : count ≤ 15)
  | features (oneShot overlays mouseKeys : Bool)

namespace Global

/-- The identifier. -/
def id : Global → Word
  | term _ _ => 0
  | toggle _ _ _ => 1
  | features _ _ _ => 2

/-- The value as a word. -/
def value : Global → Word
  | term ms _ => ms
  | toggle count _ _ => BitVec.ofNat 16 count
  | features oneShot overlays mouseKeys =>
    (BitVec.ofBool mouseKeys ++ BitVec.ofBool overlays ++ BitVec.ofBool oneShot).setWidth 16

/-- The words of a global. -/
def words (g : Global) : List Word := [g.id, g.value]

/-- The settings with the global applied. -/
def applyTo : Global → Settings → Settings
  | term ms _, s => { s with term := ms }
  | toggle count _ _, s => { s with toggle := count }
  | features oneShot overlays mouseKeys, s => { s with oneShot, overlays, mouseKeys }

/-- A global in range is accepted. -/
theorem withGlobal_eq (g : Global) (s : Settings) :
    s.withGlobal g.id g.value = .ok (g.applyTo s) := by
  cases g with
  | term ms positive => exact if_neg positive
  | toggle count least most =>
    have number : (BitVec.ofNat 16 count).toNat = count := by
      rw [BitVec.toNat_ofNat]
      exact Nat.mod_eq_of_lt (by omega)
    have range : 2 ≤ (BitVec.ofNat 16 count).toNat ∧ (BitVec.ofNat 16 count).toNat ≤ 15 := by
      rw [number]
      exact ⟨least, most⟩
    refine (if_pos range).trans ?_
    rw [value, number]
    rfl
  | features oneShot overlays mouseKeys =>
    cases oneShot <;> cases overlays <;> cases mouseKeys <;> rfl

/-- Only a global in range is accepted. -/
theorem exists_of_withGlobal {s t : Settings} {id value : Word}
    (accepted : s.withGlobal id value = .ok t) :
    ∃ g : Global, g.id = id ∧ g.value = value ∧ g.applyTo s = t := by
  unfold Settings.withGlobal at accepted
  split at accepted
  · rename_i zero
    split at accepted
    · cases accepted
    · rename_i positive
      exact ⟨.term value positive, (BitVec.eq_of_toNat_eq zero).symm, rfl, Except.ok.inj accepted⟩
  · rename_i one
    split at accepted
    · rename_i range
      exact ⟨.toggle value.toNat range.1 range.2, (BitVec.eq_of_toNat_eq one).symm,
        BitVec.ofNat_toNat _ _ , Except.ok.inj accepted⟩
    · cases accepted
  · rename_i two
    split at accepted
    · rename_i small
      refine ⟨.features (value.getLsbD 0) (value.getLsbD 1) (value.getLsbD 2),
        (BitVec.eq_of_toNat_eq two).symm, ?_, Except.ok.inj accepted⟩
      have all : ∀ n < 8, (Global.features ((BitVec.ofNat 16 n).getLsbD 0)
          ((BitVec.ofNat 16 n).getLsbD 1) ((BitVec.ofNat 16 n).getLsbD 2)).value =
            BitVec.ofNat 16 n := by decide
      have this := all value.toNat small
      rwa [BitVec.ofNat_toNat, BitVec.setWidth_eq] at this
    · cases accepted
  · cases accepted

end Global

namespace Image

/-- What an image is made of. -/
structure Parts where
  globals : List Global
  layers : List LayerBody
  overlays : List LayerBody

namespace Parts

/-- The bodies in order. -/
def bodies (p : Parts) : List LayerBody := p.layers ++ p.overlays

/-- The words of the bodies. -/
def bodyWords (p : Parts) : List Word := p.bodies.flatMap LayerBody.words

/-- Where bodies start when the first one starts at `start`, and where the last one ends. -/
def offsetsFrom (start : Nat) (bodies : List LayerBody) : List Nat :=
  (bodies.map fun body => body.words.length).scanl (· + ·) start

/-- The directory. -/
def offsets (p : Parts) : List Nat := offsetsFrom (p.bodies.length + 1) p.bodies

/-- The number of words of directory and bodies. -/
def size (p : Parts) : Nat := p.bodies.length + 1 + p.bodyWords.length

/-- The settings that an image comes with. -/
def settings (p : Parts) : Settings := p.globals.foldl (fun s g => g.applyTo s) .standard

/-- The numbers that the words of an image stand for. -/
def numbers (p : Parts) (rows cols : Nat) : List Nat :=
  version.toNat :: (rows * 256 + cols) :: p.layers.length :: p.overlays.length ::
    (p.globals.length * 2) :: ((p.globals.flatMap Global.words).map BitVec.toNat ++
      (p.offsets ++ p.bodyWords.map BitVec.toNat))

end Parts

variable {p : Parts} {rows cols : Nat} {words directory rest : List Word}

/-! ## Before the directory -/

theorem readGlobals_words (globals : List Global) (s : Settings) (rest : List Word) :
    readGlobals globals.length s (globals.flatMap Global.words ++ rest) =
      .ok (globals.foldl (fun s g => g.applyTo s) s, rest) := by
  induction globals generalizing s with
  | nil => rfl
  | cons g globals ih =>
    show (s.withGlobal g.id g.value >>= fun s =>
      readGlobals globals.length s (globals.flatMap Global.words ++ rest)) = _
    rw [g.withGlobal_eq s]
    exact ih (g.applyTo s)

theorem demand_of {c : Prop} [Decidable c] (h : c) (e : LoadError) : demand c e = .ok () := if_pos h

/-- Rows and columns are read off the word of the size. -/
theorem size_of_toNat {size : Word} (narrow : cols ≤ 255)
    (number : size.toNat = rows * 256 + cols) :
    (size.extractLsb' 8 8).toNat = rows ∧ size.low.toNat = cols := by
  have less := size.isLt
  rw [BitVec.extractLsb'_toNat, Word.low, BitVec.toNat_setWidth, number, Nat.shiftRight_eq_div_pow]
  omega

/-- The header of an image is read back, and the directory and the bodies are left. -/
theorem readHeader_of_numbers (narrow : cols ≤ 255) (least : 1 ≤ p.layers.length)
    (most : p.layers.length ≤ maxLayers) (mostOverlays : p.overlays.length ≤ maxLayers)
    (laidOut : words.map BitVec.toNat = p.numbers rows cols) :
    ∃ directory, directory.map BitVec.toNat = p.offsets ∧
      readHeader rows cols words =
        .ok (⟨p.layers.length, p.overlays.length, p.settings⟩, directory ++ p.bodyWords) := by
  obtain ⟨v, words, rfl, hv, laidOut⟩ := List.map_eq_cons_iff.mp laidOut
  obtain ⟨size, words, rfl, hsize, laidOut⟩ := List.map_eq_cons_iff.mp laidOut
  obtain ⟨layers, words, rfl, hlayers, laidOut⟩ := List.map_eq_cons_iff.mp laidOut
  obtain ⟨overlays, words, rfl, hoverlays, laidOut⟩ := List.map_eq_cons_iff.mp laidOut
  obtain ⟨globals, words, rfl, hglobals, laidOut⟩ := List.map_eq_cons_iff.mp laidOut
  obtain ⟨pairs, words, rfl, hpairs, laidOut⟩ := List.map_eq_append_iff.mp laidOut
  obtain ⟨directory, bodies, rfl, hdirectory, hbodies⟩ := List.map_eq_append_iff.mp laidOut
  -- a word is known by its number
  have known (w w' : Word) (same : w.toNat = w'.toNat) : w = w' := BitVec.eq_of_toNat_eq same
  obtain rfl := (List.map_inj_right known).mp hpairs
  obtain rfl := (List.map_inj_right known).mp hbodies
  obtain rfl := known _ _ hv
  refine ⟨directory, hdirectory, ?_⟩
  have even : globals.toNat % 2 = 0 := by omega
  have half : globals.toNat / 2 = p.globals.length := by omega
  have counts : 1 ≤ p.layers.length ∧ p.layers.length ≤ maxLayers ∧ p.overlays.length ≤ maxLayers :=
    ⟨least, most, mostOverlays⟩
  unfold readHeader
  simp only [next, bind, Except.bind, demand_of trivial, demand_of (size_of_toNat narrow hsize),
    hlayers, hoverlays, demand_of counts, demand_of even, half, readGlobals_words]
  rfl

/-! ## Directory and bodies -/

theorem bodies?_cons (rows cols : Nat) (words : List Word) (start stop : Nat) (ends : List Nat) :
    bodies? rows cols words start (stop :: ends) = (do
      guard (start ≤ stop ∧ stop ≤ words.length)
      let body ← LayerBody.ofWords? rows cols ((words.take stop).drop start)
      let rest ← bodies? rows cols words stop ends
      return body :: rest) := rfl

theorem guard_of {c : Prop} [Decidable c] (h : c) : (guard c : Option Unit) = some () := if_pos h

theorem offsetsFrom_cons (start : Nat) (body : LayerBody) (bodies : List LayerBody) :
    Parts.offsetsFrom start (body :: bodies) =
      start :: Parts.offsetsFrom (start + body.words.length) bodies := by
  rw [Parts.offsetsFrom, List.map_cons, List.scanl_cons]
  rfl

theorem offsetsFrom_eq_cons_tail (start : Nat) (bodies : List LayerBody) :
    Parts.offsetsFrom start bodies = start :: (Parts.offsetsFrom start bodies).tail := by
  cases bodies with
  | nil => rfl
  | cons body bodies => rw [offsetsFrom_cons, List.tail_cons]

theorem length_offsetsFrom (start : Nat) (bodies : List LayerBody) :
    (Parts.offsetsFrom start bodies).length = bodies.length + 1 := by
  rw [Parts.offsetsFrom, List.length_scanl, List.length_map]

/-- The last offset is the end of the last body. -/
theorem getLast?_offsetsFrom (start : Nat) (bodies : List LayerBody) :
    (Parts.offsetsFrom start bodies).getLast? =
      some (start + (bodies.flatMap LayerBody.words).length) := by
  induction bodies generalizing start with
  | nil => rfl
  | cons body bodies ih =>
    rw [offsetsFrom_cons, List.getLast?_cons, ih, Option.getD_some, List.flatMap_cons,
      List.length_append, Nat.add_assoc]

/-- Bodies that follow one another are cut out where they start and end. -/
theorem bodies?_offsetsFrom {bodies : List LayerBody} (before : List Word)
    (readable : ∀ body ∈ bodies, LayerBody.ofWords? rows cols body.words = some body) :
    bodies? rows cols (before ++ bodies.flatMap LayerBody.words) before.length
      (Parts.offsetsFrom before.length bodies).tail = some bodies := by
  -- by induction on the bodies that are left, where `before` is all that has been passed
  induction bodies generalizing before with
  | nil => rfl
  | cons body bodies ih =>
    obtain ⟨first, others⟩ := List.forall_mem_cons.mp readable
    have rest := ih (before ++ body.words) others
    rw [List.length_append, List.append_assoc] at rest
    have inside : before.length ≤ before.length + body.words.length ∧
        before.length + body.words.length ≤
          (before ++ (body.words ++ bodies.flatMap LayerBody.words)).length := by
      simp only [List.length_append]
      omega
    have cut : ((before ++ (body.words ++ bodies.flatMap LayerBody.words)).take
        (before.length + body.words.length)).drop before.length = body.words := by
      rw [List.take_length_add_append, List.drop_left, List.take_left]
    rw [offsetsFrom_cons, List.tail_cons, offsetsFrom_eq_cons_tail, List.flatMap_cons,
      bodies?_cons, guard_of inside, cut, first, rest]
    rfl

/-- The bodies are read back from a directory of their offsets and their words. -/
theorem readBodies?_of_offsets
    (readable : ∀ body ∈ p.bodies, LayerBody.ofWords? rows cols body.words = some body)
    (hdirectory : directory.map BitVec.toNat = p.offsets) :
    readBodies? rows cols p.bodies.length (directory ++ p.bodyWords) = some p.bodies := by
  have length : directory.length = p.bodies.length + 1 := by
    rw [← List.length_map BitVec.toNat, hdirectory, Parts.offsets, length_offsetsFrom]
  have taken : ((directory ++ p.bodyWords).take (p.bodies.length + 1)).map BitVec.toNat =
      directory.length :: (Parts.offsetsFrom directory.length p.bodies).tail := by
    rw [List.take_left' length, hdirectory, Parts.offsets, ← length, ← offsetsFrom_eq_cons_tail]
  have tail : (Parts.offsetsFrom directory.length p.bodies).tail.length = p.bodies.length := by
    rw [List.length_tail, length_offsetsFrom, Nat.add_sub_cancel]
  have last : (directory.length :: (Parts.offsetsFrom directory.length p.bodies).tail).getLast? =
      some (directory ++ p.bodyWords).length := by
    rw [← offsetsFrom_eq_cons_tail, getLast?_offsetsFrom, List.length_append]
    rfl
  -- the directory starts at its own length and ends at the number of words
  unfold readBodies?
  rw [taken]
  dsimp only
  rw [if_pos ⟨length, tail, last⟩]
  exact bodies?_offsetsFrom directory readable

/-- An image is read back as what it is made of. -/
theorem ofWords_of_numbers {space : Nat} (narrow : cols ≤ 255) (least : 1 ≤ p.layers.length)
    (most : p.layers.length ≤ maxLayers) (mostOverlays : p.overlays.length ≤ maxLayers)
    (readable : ∀ body ∈ p.bodies, LayerBody.ofWords? rows cols body.words = some body)
    (laidOut : words.map BitVec.toNat = p.numbers rows cols) (room : p.size ≤ space) :
    ofWords rows cols space words = .ok ⟨p.layers, p.overlays, p.settings⟩ := by
  obtain ⟨directory, hdirectory, header⟩ :=
    readHeader_of_numbers narrow least most mostOverlays laidOut
  have length : directory.length = p.bodies.length + 1 := by
    rw [← List.length_map BitVec.toNat, hdirectory, Parts.offsets, length_offsetsFrom]
  have short : (directory ++ p.bodyWords).length ≤ space := by
    rw [List.length_append, length]
    exact room
  have count : p.layers.length + p.overlays.length = p.bodies.length := List.length_append.symm
  unfold ofWords
  simp only [header, bind, Except.bind, demand_of short, count,
    readBodies?_of_offsets readable hdirectory]
  rw [Parts.bodies, List.take_left, List.drop_left]

/-! ## There is an image -/

theorem le_of_mem_offsetsFrom {start n : Nat} {bodies : List LayerBody}
    (h : n ∈ Parts.offsetsFrom start bodies) :
    n ≤ start + (bodies.flatMap LayerBody.words).length := by
  induction bodies generalizing start with
  | nil =>
    obtain rfl := List.mem_singleton.mp h
    exact Nat.le_refl _
  | cons body bodies ih =>
    rw [offsetsFrom_cons, List.mem_cons] at h
    rw [List.flatMap_cons, List.length_append]
    rcases h with rfl | later
    · exact Nat.le_add_right _ _
    · exact Nat.le_trans (ih later) (Nat.le_of_eq (Nat.add_assoc _ _ _))

/-- Where rows and columns are bytes, the counts are in range, and directory and bodies end at an
offset that is a word, there are words for the image. -/
theorem exists_words (tall : rows ≤ 255) (narrow : cols ≤ 255)
    (most : p.layers.length ≤ maxLayers) (mostOverlays : p.overlays.length ≤ maxLayers)
    (globals : p.globals.length ≤ 32767) (short : p.size ≤ 65535) :
    ∃ words : List Word, words.map BitVec.toNat = p.numbers rows cols := by
  have few : maxLayers = 16 := rfl
  have word (w : Word) : w.toNat < 65536 := w.isLt
  -- what is not a word already is a count or an offset
  have small : ∀ n ∈ p.numbers rows cols, n < 65536 := by
    simp only [Parts.numbers, List.forall_mem_cons, List.forall_mem_append, List.forall_mem_map]
    refine ⟨word _, by omega, by omega, by omega, by omega, fun w _ => word w, fun n hn => ?_,
      fun w _ => word w⟩
    exact Nat.lt_succ_of_le (Nat.le_trans (le_of_mem_offsetsFrom hn) short)
  refine ⟨(p.numbers rows cols).map (BitVec.ofNat 16), ?_⟩
  rw [List.map_map]
  refine (List.map_congr_left fun n hn => ?_).trans (List.map_id _)
  exact Nat.mod_eq_of_lt (small n hn)

end Image

/-! ## The keymap of an image -/

/-- All tables have `rows` rows and `cols` columns. -/
def Tables.HaveShape (rows cols : Nat) (t : Tables) : Prop :=
  ∀ table ∈ t.layers ++ t.overlays, Table.HasShape rows cols table

instance (rows cols : Nat) (t : Tables) : Decidable (t.HaveShape rows cols) :=
  inferInstanceAs (Decidable (∀ table ∈ t.layers ++ t.overlays, Table.HasShape rows cols table))

/-- The parts of an image say the same as the tables, each body in one way or the other. -/
structure Image.Parts.Encode (rows cols : Nat) (t : Tables) (p : Image.Parts) : Prop where
  layers : List.Forall₂ (LayerBody.Encodes rows cols) t.layers p.layers
  overlays : List.Forall₂ (LayerBody.Encodes rows cols) t.overlays p.overlays

variable {rows cols : Nat} {tables : List Table} {bodies : List LayerBody}

theorem readable_of_encodes (encode : List.Forall₂ (LayerBody.Encodes rows cols) tables bodies)
    (shape : ∀ table ∈ tables, Table.HasShape rows cols table) :
    ∀ body ∈ bodies, LayerBody.ofWords? rows cols body.words = some body := by
  induction encode with
  | nil => exact List.forall_mem_nil _
  | cons first _ ih =>
    obtain ⟨here, others⟩ := List.forall_mem_cons.mp shape
    exact List.forall_mem_cons.mpr ⟨first.ofWords?_words here, ih others⟩

/-- The bodies and the tables of a family have the same codes, also where there is no layer. -/
theorem code_of_encodes (encode : List.Forall₂ (LayerBody.Encodes rows cols) tables bodies)
    (shape : ∀ table ∈ tables, Table.HasShape rows cols table) (narrow : cols ≤ 255) (n : Nat)
    (key : Position) :
    (bodies[n]?.map fun body => body.code rows cols key).getD Action.transparentCode =
      (tables[n]?.bind fun table => table.code? key.row.toNat key.col.toNat).getD
        Action.transparentCode := by
  induction encode generalizing n with
  | nil => rfl
  | cons first _ ih =>
    obtain ⟨here, others⟩ := List.forall_mem_cons.mp shape
    cases n with
    | zero => exact first.code_eq here narrow key
    | succ n => exact ih others n

namespace ImageSlot

/-- An image of tables, as the format has it, is loaded whatever the slot held before, if there is
room for its directory and bodies. It sets what its globals set, applied one after another to the
standard settings, and its codes are those of the tables on all layers and at all places, whether
there are such or not. -/
theorem load_of_numbers (slot : ImageSlot) (t : Tables) (p : Image.Parts) (words : List Word)
    (narrow : slot.cols ≤ 255) (shape : t.HaveShape slot.rows slot.cols)
    (least : 1 ≤ t.layers.length) (most : t.layers.length ≤ 16)
    (mostOverlays : t.overlays.length ≤ 16) (encode : p.Encode slot.rows slot.cols t)
    (laidOut : words.map BitVec.toNat = p.numbers slot.rows slot.cols)
    (room : p.size ≤ slot.space) :
    (slot.load words).2 = .ok () ∧
      (slot.load words).1.image.settings =
        p.globals.foldl (fun s g => g.applyTo s) .standard ∧
      (slot.load words).1.keymap = t.keymap := by
  obtain ⟨shapeLayers, shapeOverlays⟩ := List.forall_mem_append.mp shape
  have countLayers := encode.layers.length_eq
  have countOverlays := encode.overlays.length_eq
  have readable : ∀ body ∈ p.bodies,
      LayerBody.ofWords? slot.rows slot.cols body.words = some body :=
    List.forall_mem_append.mpr ⟨readable_of_encodes encode.layers shapeLayers,
      readable_of_encodes encode.overlays shapeOverlays⟩
  have read : Image.ofWords slot.rows slot.cols slot.space words =
      .ok ⟨p.layers, p.overlays, p.settings⟩ :=
    Image.ofWords_of_numbers narrow (countLayers ▸ least) (countLayers ▸ most)
      (countOverlays ▸ mostOverlays) readable laidOut room
  have loaded : slot.load words =
      ({ slot with image := ⟨p.layers, p.overlays, p.settings⟩ }, .ok ()) := by
    rw [load, read]
  rw [loaded]
  refine ⟨rfl, rfl, ?_⟩
  funext id key
  obtain ⟨target, n⟩ := id
  cases target with
  | keymap => exact code_of_encodes encode.layers shapeLayers narrow n key
  | overlay => exact code_of_encodes encode.overlays shapeOverlays narrow n key

/-- Two layers, one written row by row and one as pairs, an overlay written as pairs, and a term of
150 ms. -/
theorem load_of_mixed_image :
    let slot := empty 2 3 100
    let t : Tables := ⟨[[[4, 5, 6], [7, 8, 9]], [[1, 0x1e, 1], [1, 1, 0x27]]],
      [[[0x2c, 1, 1], [1, 1, 1]]]⟩
    let words : List Word := [1, 0x0203, 2, 1, 2, 0, 150, 4, 10, 14, 16, 4, 5, 6, 7, 8, 9,
      0x0001, 0x1e, 0x0102, 0x27, 0x0000, 0x2c]
    (slot.load words).2 = .ok () ∧
      (slot.load words).1.image.settings = { Settings.standard with term := 150 } ∧
      (slot.load words).1.keymap = t.keymap := by
  intro slot t words
  let p : Image.Parts := ⟨[.term 150 (by decide)],
    [.dense [4, 5, 6, 7, 8, 9], .sparse [(0x0001, 0x1e), (0x0102, 0x27)]],
    [.sparse [(0x0000, 0x2c)]]⟩
  have second : LayerBody.Encodes 2 3 [[1, 0x1e, 1], [1, 1, 0x27]]
      (.sparse [(0x0001, 0x1e), (0x0102, 0x27)]) := by
    refine .sparse (by decide) ?_ (by decide) (by decide)
    simp only [List.forall_mem_cons]
    exact ⟨⟨0, by decide, 1, by decide, rfl, rfl⟩, ⟨1, by decide, 2, by decide, rfl, rfl⟩, by simp⟩
  have overlay : LayerBody.Encodes 2 3 [[0x2c, 1, 1], [1, 1, 1]] (.sparse [(0x0000, 0x2c)]) := by
    refine .sparse (by decide) ?_ (by decide) (by decide)
    simp only [List.forall_mem_cons]
    exact ⟨⟨0, by decide, 0, by decide, rfl, rfl⟩, by simp⟩
  have encode : p.Encode 2 3 t := ⟨.cons .dense (.cons second .nil), .cons overlay .nil⟩
  exact load_of_numbers slot t p words (by decide) (by decide) (by decide) (by decide) (by decide)
    encode (by decide) (by decide)

end ImageSlot

end TapHold
