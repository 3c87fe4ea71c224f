import Mathlib.Data.Nat.Init
import Mathlib.Data.Option.Basic
import TapHold.Proofs.Keymap.Layout

/-!
# The format of an image

`Image.Sections` names the words of an image by the place that they have in it, and
`Sections.Follows` is the format: what each of them must be for a matrix and a memory of a given
size. Reading keeps to it. What stands before the directory is read exactly when it opens an image
(`readHeader_eq_ok_iff`), and the bodies are cut out exactly when the directory divides the words
after it (`Divided`, `readBodies?_eq_some_iff`). A body is read exactly when it is as long as the
matrix or is made of pairs in order (`LayerBody.isSome_ofWords?_iff`).

Nothing is asked of an image on the way that the format does not say, and the format says all of
it: the globals that the settings accept do not depend on the settings so far
(`withGlobal_of_accepted`), and no offset can be beyond the end, since the last one is the end
(`Divided.offset_le`).
-/

set_option autoImplicit false

namespace TapHold

/-! ## Bodies -/

namespace LayerBody

variable {rows cols : Nat} {words : List Word} {bindings : List (Word × Word)} {body : LayerBody}

/-- The words are those of a layer: as many as the matrix has places, or pairs whose first words
are strictly increasing. -/
def Readable (rows cols : Nat) (words : List Word) : Prop :=
  words.length = rows * cols ∨
    ∃ bindings, Increasing bindings ∧ (LayerBody.sparse bindings).words = words

theorem words_of_pairs? (paired : pairs? words = some bindings) :
    (LayerBody.sparse bindings).words = words := by
  fun_induction pairs? words generalizing bindings with
  | case1 =>
    obtain rfl := Option.some.inj paired
    rfl
  | case2 => cases paired
  | case3 a b rest ih =>
    obtain ⟨others, found, rfl⟩ := Option.map_eq_some_iff.mp paired
    show a :: b :: (LayerBody.sparse others).words = _
    rw [ih found]

theorem isIncreasing_iff : isIncreasing bindings = true ↔ Increasing bindings := by
  refine ⟨fun checked => ?_, isIncreasing_of_increasing⟩
  induction bindings with
  | nil => exact List.Pairwise.nil
  | cons a rest ih =>
    cases rest with
    | nil => exact List.pairwise_singleton _ a
    | cons b rest =>
      rw [isIncreasing, Bool.and_eq_true, decide_eq_true_iff] at checked
      obtain ⟨less, later⟩ := checked
      have others := ih later
      -- what is above the second is above the first
      refine List.pairwise_cons.mpr ⟨fun c hc => ?_, others⟩
      rcases List.mem_cons.mp hc with rfl | behind
      · exact less
      · exact BitVec.lt_trans less ((List.pairwise_cons.mp others).1 c behind)

/-- What is read from words are these words. -/
theorem words_of_ofWords? (read : ofWords? rows cols words = some body) : body.words = words := by
  unfold ofWords? at read
  split at read
  · obtain rfl := Option.some.inj read
    rfl
  · obtain ⟨bindings, found, rfl⟩ := Option.map_eq_some_iff.mp read
    exact words_of_pairs? (Option.filter_eq_some_iff.mp found).1

/-- **The words of a layer are read, and no others.** -/
theorem isSome_ofWords?_iff :
    (ofWords? rows cols words).isSome = true ↔ Readable rows cols words := by
  unfold ofWords?
  split
  · rename_i full
    exact ⟨fun _ => .inl full, fun _ => rfl⟩
  · rename_i other
    rw [Option.isSome_map]
    constructor
    · intro read
      obtain ⟨bindings, found⟩ := Option.isSome_iff_exists.mp read
      obtain ⟨paired, checked⟩ := Option.filter_eq_some_iff.mp found
      exact .inr ⟨bindings, isIncreasing_iff.mp checked, words_of_pairs? paired⟩
    · rintro (full | ⟨bindings, increasing, rfl⟩)
      · exact absurd full other
      · rw [pairs?_words, Option.filter_some, if_pos (isIncreasing_iff.mpr increasing)]
        rfl

instance : Decidable (Readable rows cols words) := decidable_of_iff _ isSome_ofWords?_iff

end LayerBody

namespace Image

/-! ## The format -/

/-- The words of an image, by the places that they have in it. -/
structure Sections where
  size : Word
  layers : Word
  overlays : Word
  globalWords : Word
  /-- Each global with its identifier and its value. -/
  globals : List (Word × Word)
  /-- The directory and the bodies. -/
  rest : List Word

namespace Sections

/-- The words in order. -/
def words (s : Sections) : List Word :=
  version :: s.size :: s.layers :: s.overlays :: s.globalWords ::
    ((s.globals.flatMap fun g => [g.1, g.2]) ++ s.rest)

/-- The number of layers and overlays. -/
def count (s : Sections) : Nat := s.layers.toNat + s.overlays.toNat

end Sections

/-- The offset at a place of the directory, which the words start with. -/
def offset (words : List Word) (i : Nat) : Nat := (words.getD i 0).toNat

/-- The words of a body: those from its offset on and before the next one. -/
def bodyAt (words : List Word) (i : Nat) : List Word :=
  (words.take (offset words (i + 1))).drop (offset words i)

/-- The words are a directory for a number of bodies, and these bodies. The directory starts at its
own length, never decreases and ends at the number of words. -/
structure Divided (rows cols count : Nat) (words : List Word) : Prop where
  long : count + 1 ≤ words.length
  start : offset words 0 = count + 1
  order : ∀ i < count, offset words i ≤ offset words (i + 1)
  stop : offset words count = words.length
  bodies : ∀ i < count, LayerBody.Readable rows cols (bodyAt words i)

namespace Sections

/-- What the format says about the words before the directory, the size of the matrix taken as one
number. -/
structure Heads (rows cols : Nat) (s : Sections) : Prop where
  size : s.size.toNat = rows <<< 8 ||| cols
  layers : 1 ≤ s.layers.toNat ∧ s.layers.toNat ≤ 16
  overlays : s.overlays.toNat ≤ 16
  globalWords : s.globalWords.toNat = 2 * s.globals.length
  globals : ∀ g ∈ s.globals, ∀ settings : Settings, ∃ next, settings.withGlobal g.1 g.2 = .ok next

/-- What the format says about the words before the directory. The rows and the columns are compared
one by one, and the columns are one byte of the size: no matrix of more than 255 columns has an
image, although the number of its size is that of a narrower one, as the `0x0100` of `1` and `256`
is that of `1` and `0`. -/
structure Opens (rows cols : Nat) (s : Sections) : Prop extends Heads rows cols s where
  narrow : cols < 256

/-- The format of an image for a matrix of `rows` and `cols` and a memory of `space` words. -/
structure Follows (rows cols space : Nat) (s : Sections) : Prop extends Opens rows cols s where
  room : s.rest.length ≤ space
  divided : Divided rows cols s.count s.rest

end Sections

variable {rows cols space count : Nat} {words rest : List Word}

/-! ## The directory -/

/-- All offsets are within the words. -/
theorem Divided.offset_le (h : Divided rows cols count words) {i : Nat} (inside : i ≤ count) :
    offset words i ≤ words.length := by
  -- from the last one backwards
  induction inside using Nat.decreasingInduction with
  | self => exact Nat.le_of_eq h.stop
  | of_succ k less ih => exact Nat.le_trans (h.order k less) ih

/-- The bodies that are cut out at `n` offsets from number `i` on. -/
theorem bodies?_offsets (i n : Nat) {bodies : List LayerBody} :
    bodies? rows cols words (offset words i) ((List.range' (i + 1) n).map (offset words)) =
        some bodies ↔
      bodies.length = n ∧ ∀ k < n, offset words (i + k) ≤ offset words (i + k + 1) ∧
        offset words (i + k + 1) ≤ words.length ∧
        LayerBody.ofWords? rows cols (bodyAt words (i + k)) = bodies[k]? := by
  -- by induction on the bodies that are left, of which the first one has number `i`
  induction n generalizing i bodies with
  | zero =>
    constructor
    · intro cut
      obtain rfl := Option.some.inj cut
      exact ⟨rfl, fun k less => absurd less (Nat.not_lt_zero k)⟩
    · rintro ⟨none, -⟩
      rw [List.length_eq_zero_iff.mp none]
      rfl
  | succ n ih =>
    have behind (k : Nat) : i + (k + 1) = i + 1 + k := by omega
    rw [List.range'_succ, List.map_cons, bodies?_cons]
    constructor
    · intro cut
      obtain ⟨_, hguard, cut⟩ := Option.bind_eq_some_iff.mp cut
      obtain ⟨body, hbody, cut⟩ := Option.bind_eq_some_iff.mp cut
      obtain ⟨others, hothers, cut⟩ := Option.bind_eq_some_iff.mp cut
      obtain rfl := Option.some.inj cut
      obtain ⟨length, later⟩ := (ih (i + 1)).mp hothers
      obtain ⟨order, inside⟩ := (Option.guard_eq_some' _).mp hguard
      refine ⟨congrArg (· + 1) length, fun k less => ?_⟩
      cases k with
      | zero => exact ⟨order, inside, hbody⟩
      | succ k =>
        rw [behind]
        exact later k (Nat.lt_of_succ_lt_succ less)
    · rintro ⟨length, each⟩
      obtain ⟨body, others, rfl⟩ := List.exists_cons_of_length_eq_add_one length
      obtain ⟨order, inside, hbody⟩ := each 0 (Nat.succ_pos n)
      have hbody : LayerBody.ofWords? rows cols (bodyAt words i) = some body := hbody
      have hothers := (ih (i + 1)).mpr ⟨Nat.succ.inj length, fun k less => by
        rw [← behind]
        exact each (k + 1) (Nat.succ_lt_succ less)⟩
      rw [guard_of ⟨order, inside⟩, hothers]
      show (LayerBody.ofWords? rows cols (bodyAt words i)).bind _ = _
      rw [hbody]
      rfl

/-- A directory that is long enough has an offset at each place. -/
theorem map_toNat_take (long : count + 1 ≤ words.length) :
    (words.take (count + 1)).map BitVec.toNat =
      (List.range' 0 (count + 1)).map (offset words) := by
  refine List.ext_getElem ?_ fun i short _ => ?_
  · rw [List.length_map, List.length_take, List.length_map, List.length_range']
    exact Nat.min_eq_left long
  · rw [List.length_map, List.length_take] at short
    have inside : i < words.length := by omega
    rw [List.getElem_map, List.getElem_take, List.getElem_map, List.getElem_range', Nat.zero_add,
      Nat.one_mul, offset, List.getD_eq_getElem?_getD, List.getElem?_eq_getElem inside]
    rfl

theorem readBodies?_of_long (long : count + 1 ≤ words.length) :
    readBodies? rows cols count words =
      if offset words 0 = count + 1 ∧ offset words count = words.length then
        bodies? rows cols words (offset words 0) ((List.range' 1 count).map (offset words))
      else none := by
  have last : ((List.range' 0 (count + 1)).map (offset words)).getLast? =
      some (offset words count) := by
    rw [List.range'_1_concat, List.map_append, List.map_singleton, List.getLast?_concat,
      Nat.zero_add]
  rw [List.range'_succ, List.map_cons, Nat.zero_add] at last
  have length : ((List.range' 1 count).map (offset words)).length = count := by
    rw [List.length_map, List.length_range']
  unfold readBodies?
  rw [map_toNat_take long, List.range'_succ, List.map_cons, Nat.zero_add]
  simp only [last, length, Option.some.injEq, true_and]

theorem readBodies?_of_short (short : ¬count + 1 ≤ words.length) :
    readBodies? rows cols count words = none := by
  unfold readBodies?
  split
  · rfl
  · rename_i start ends cut
    refine if_neg ?_
    rintro ⟨-, length, -⟩
    have counted := congrArg List.length cut
    rw [List.length_map, List.length_take, List.length_cons, length] at counted
    omega

/-- **A directory divides the words exactly when bodies are read**, each of them from its words. -/
theorem readBodies?_eq_some_iff {bodies : List LayerBody} :
    readBodies? rows cols count words = some bodies ↔
      Divided rows cols count words ∧ bodies.length = count ∧
        ∀ i < count, LayerBody.ofWords? rows cols (bodyAt words i) = bodies[i]? := by
  by_cases long : count + 1 ≤ words.length
  · rw [readBodies?_of_long long]
    constructor
    · intro read
      split at read
      · rename_i ends
        obtain ⟨length, each⟩ := (bodies?_offsets 0 count).mp read
        simp only [Nat.zero_add] at each
        refine ⟨⟨long, ends.1, fun i less => (each i less).1, ends.2, fun i less => ?_⟩, length,
          fun i less => (each i less).2.2⟩
        -- the body that was cut out here was read, so its words follow the format
        rw [← LayerBody.isSome_ofWords?_iff, (each i less).2.2,
          List.getElem?_eq_getElem (length ▸ less)]
        rfl
      · cases read
    · rintro ⟨divided, length, each⟩
      rw [if_pos ⟨divided.start, divided.stop⟩]
      apply (bodies?_offsets 0 count).mpr
      simp only [Nat.zero_add]
      exact ⟨length, fun i less => ⟨divided.order i less, divided.offset_le less, each i less⟩⟩
  · rw [readBodies?_of_short long]
    exact ⟨fun read => (nomatch read), fun h => absurd h.1.long long⟩

/-- There is a body at each place of a directory. -/
theorem Divided.exists_body (h : Divided rows cols count words) {i : Nat} (less : i < count) :
    ∃ body, LayerBody.ofWords? rows cols (bodyAt words i) = some body :=
  Option.isSome_iff_exists.mp (LayerBody.isSome_ofWords?_iff.mpr (h.bodies i less))

/-- Words that are divided have bodies. -/
theorem Divided.exists_bodies (h : Divided rows cols count words) :
    ∃ bodies, readBodies? rows cols count words = some bodies := by
  choose body read using fun i : Fin count => h.exists_body i.isLt
  refine ⟨List.ofFn body, readBodies?_eq_some_iff.mpr ⟨h, List.length_ofFn, fun i less => ?_⟩⟩
  rw [List.getElem?_ofFn, dif_pos less]
  exact read ⟨i, less⟩

/-! ## Before the directory -/

/-- The settings with globals applied one after another. -/
def withGlobals (s : Settings) (globals : List (Word × Word)) : Except LoadError Settings :=
  globals.foldlM (fun s g => s.withGlobal g.1 g.2) s

/-- Whether a global is accepted does not depend on the settings. -/
theorem withGlobal_of_accepted {s t : Settings} {id value : Word}
    (accepted : s.withGlobal id value = .ok t) (s' : Settings) :
    ∃ t', s'.withGlobal id value = .ok t' := by
  obtain ⟨g, rfl, rfl, -⟩ := Global.exists_of_withGlobal accepted
  exact ⟨g.applyTo s', g.withGlobal_eq s'⟩

theorem bind_eq_ok_iff {ε α β : Type} {x : Except ε α} {f : α → Except ε β} {b : β} :
    (x >>= f) = .ok b ↔ ∃ a, x = .ok a ∧ f a = .ok b := by
  cases x with
  | error e => exact ⟨fun h => (nomatch h), fun ⟨_, h, _⟩ => (nomatch h)⟩
  | ok a =>
    constructor
    · intro h
      exact ⟨a, rfl, h⟩
    · rintro ⟨a', h, h'⟩
      obtain rfl := Except.ok.inj h
      exact h'

theorem next_eq_ok_iff {w : Word} : next words = .ok (w, rest) ↔ words = w :: rest := by
  cases words with
  | nil => exact ⟨fun h => (nomatch h), fun h => (nomatch h)⟩
  | cons v words => rw [next, Except.ok.injEq, Prod.mk.injEq, List.cons.injEq]

theorem demand_eq_ok_iff {c : Prop} [Decidable c] {e : LoadError} {u : Unit} :
    demand c e = .ok u ↔ c := by
  constructor
  · intro h
    by_contra fails
    rw [demand, if_neg fails] at h
    cases h
  · exact fun h => demand_of h e

/-- Globals are read when there are as many as are to be, and all of them are accepted. -/
theorem readGlobals_eq_ok_iff {n : Nat} {s t : Settings} :
    readGlobals n s words = .ok (t, rest) ↔
      ∃ globals : List (Word × Word), globals.length = n ∧
        (globals.flatMap fun g => [g.1, g.2]) ++ rest = words ∧
        withGlobals s globals = .ok t := by
  -- by induction on the globals to come, for the settings that those before have left
  induction n generalizing s words with
  | zero =>
    constructor
    · intro read
      obtain ⟨rfl, rfl⟩ := Prod.mk.inj (Except.ok.inj read)
      exact ⟨[], rfl, rfl, rfl⟩
    · rintro ⟨globals, none, rfl, folded⟩
      obtain rfl := List.length_eq_zero_iff.mp none
      obtain rfl := Except.ok.inj folded
      rfl
  | succ n ih =>
    constructor
    · intro read
      -- fewer than two words are no global
      match words, read with
      | id :: value :: words, read =>
        obtain ⟨next, accepted, read⟩ := bind_eq_ok_iff.mp read
        obtain ⟨globals, length, rfl, folded⟩ := ih.mp read
        refine ⟨(id, value) :: globals, congrArg (· + 1) length, rfl, ?_⟩
        exact bind_eq_ok_iff.mpr ⟨next, accepted, folded⟩
    · rintro ⟨globals, length, rfl, folded⟩
      obtain ⟨g, others, rfl⟩ := List.exists_cons_of_length_eq_add_one length
      obtain ⟨next, accepted, folded⟩ := bind_eq_ok_iff.mp folded
      exact bind_eq_ok_iff.mpr
        ⟨next, accepted, ih.mpr ⟨others, Nat.succ.inj length, rfl, folded⟩⟩

/-- Globals are accepted one after another when each of them is. -/
theorem exists_withGlobals_iff {globals : List (Word × Word)} {s : Settings} :
    (∃ t, withGlobals s globals = .ok t) ↔
      ∀ g ∈ globals, ∀ settings : Settings, ∃ next, settings.withGlobal g.1 g.2 = .ok next := by
  induction globals generalizing s with
  | nil => exact ⟨fun _ => List.forall_mem_nil _, fun _ => ⟨s, rfl⟩⟩
  | cons g globals ih =>
    rw [List.forall_mem_cons]
    constructor
    · rintro ⟨t, folded⟩
      obtain ⟨next, accepted, folded⟩ := bind_eq_ok_iff.mp folded
      exact ⟨withGlobal_of_accepted accepted, ih.mp ⟨t, folded⟩⟩
    · rintro ⟨first, others⟩
      obtain ⟨next, accepted⟩ := first s
      obtain ⟨t, folded⟩ := ih.mpr others
      exact ⟨t, bind_eq_ok_iff.mpr ⟨next, accepted, folded⟩⟩

/-- The word of a size has the rows in its high byte and the columns in its low byte. -/
theorem size_iff {size : Word} :
    (size.extractLsb' 8 8).toNat = rows ∧ size.low.toNat = cols ↔
      cols < 256 ∧ size.toNat = rows <<< 8 ||| cols := by
  have less := size.isLt
  rw [BitVec.extractLsb'_toNat, Word.low, BitVec.toNat_setWidth, Nat.shiftRight_eq_div_pow]
  constructor
  · rintro ⟨rfl, rfl⟩
    have narrow : size.toNat % 2 ^ 8 < 2 ^ 8 := Nat.mod_lt _ (by decide)
    rw [← Nat.shiftLeft_add_eq_or_of_lt narrow, Nat.shiftLeft_eq]
    omega
  · rintro ⟨narrow, number⟩
    rw [← Nat.shiftLeft_add_eq_or_of_lt narrow, Nat.shiftLeft_eq] at number
    omega

/-- **What stands before the directory is read exactly when it opens an image.** -/
theorem readHeader_eq_ok_iff {header : Header} :
    readHeader rows cols words = .ok (header, rest) ↔
      ∃ s : Sections, s.words = words ∧ s.rest = rest ∧ s.Opens rows cols ∧
        header.layerCount = s.layers.toNat ∧ header.overlayCount = s.overlays.toNat ∧
        withGlobals .standard s.globals = .ok header.settings := by
  constructor
  · intro read
    unfold readHeader at read
    obtain ⟨⟨v, words₁⟩, hv, read⟩ := bind_eq_ok_iff.mp read
    obtain ⟨_, hversion, read⟩ := bind_eq_ok_iff.mp read
    obtain ⟨⟨size, words₂⟩, hsize, read⟩ := bind_eq_ok_iff.mp read
    obtain ⟨_, hsizes, read⟩ := bind_eq_ok_iff.mp read
    obtain ⟨⟨layers, words₃⟩, hlayers, read⟩ := bind_eq_ok_iff.mp read
    obtain ⟨⟨overlays, words₄⟩, hoverlays, read⟩ := bind_eq_ok_iff.mp read
    obtain ⟨_, hcounts, read⟩ := bind_eq_ok_iff.mp read
    obtain ⟨⟨globalWords, words₅⟩, hglobals, read⟩ := bind_eq_ok_iff.mp read
    obtain ⟨_, heven, read⟩ := bind_eq_ok_iff.mp read
    obtain ⟨⟨settings, words₆⟩, hread, read⟩ := bind_eq_ok_iff.mp read
    obtain ⟨rfl, rfl⟩ := Prod.mk.inj (Except.ok.inj read)
    obtain ⟨globals, length, rfl, applied⟩ := readGlobals_eq_ok_iff.mp hread
    -- each word in its place
    obtain rfl := next_eq_ok_iff.mp hglobals
    obtain rfl := next_eq_ok_iff.mp hoverlays
    obtain rfl := next_eq_ok_iff.mp hlayers
    obtain rfl := next_eq_ok_iff.mp hsize
    obtain rfl := next_eq_ok_iff.mp hv
    obtain rfl := demand_eq_ok_iff.mp hversion
    obtain ⟨narrow, number⟩ := size_iff.mp (demand_eq_ok_iff.mp hsizes)
    obtain ⟨least, most, mostOverlays⟩ := demand_eq_ok_iff.mp hcounts
    have even : globalWords.toNat % 2 = 0 := demand_eq_ok_iff.mp heven
    have twice : globalWords.toNat = 2 * globals.length := by omega
    exact ⟨⟨size, layers, overlays, globalWords, globals, words₆⟩, rfl, rfl,
      ⟨⟨number, ⟨least, most⟩, mostOverlays, twice, exists_withGlobals_iff.mp ⟨_, applied⟩⟩,
        narrow⟩,
      rfl, rfl, applied⟩
  · rintro ⟨s, rfl, rfl, opens, layerCount, overlayCount, applied⟩
    have counts : 1 ≤ header.layerCount ∧ header.layerCount ≤ maxLayers ∧
        header.overlayCount ≤ maxLayers := by
      rw [layerCount, overlayCount]
      exact ⟨opens.layers.1, opens.layers.2, opens.overlays⟩
    have even : s.globalWords.toNat % 2 = 0 := by
      rw [opens.globalWords, Nat.mul_mod_right]
    have half : s.globals.length = s.globalWords.toNat / 2 := by
      rw [opens.globalWords, Nat.mul_div_cancel_left _ (by decide)]
    have read : readGlobals (s.globalWords.toNat / 2) .standard
        ((s.globals.flatMap fun g => [g.1, g.2]) ++ s.rest) = .ok (header.settings, s.rest) :=
      readGlobals_eq_ok_iff.mpr ⟨s.globals, half, rfl, applied⟩
    have size := size_iff.mpr ⟨opens.narrow, opens.size⟩
    unfold readHeader Sections.words
    simp only [next, bind, Except.bind, demand_of trivial, demand_of size, ← layerCount,
      ← overlayCount, demand_of counts, demand_of even, read]
    rfl

/-- A header that opens an image is read. -/
theorem Sections.Opens.exists_readHeader {s : Sections} (h : s.Opens rows cols) :
    ∃ settings, readHeader rows cols s.words =
      .ok (⟨s.layers.toNat, s.overlays.toNat, settings⟩, s.rest) := by
  obtain ⟨settings, applied⟩ := exists_withGlobals_iff.mpr h.globals
  exact ⟨settings, readHeader_eq_ok_iff.mpr ⟨s, rfl, rfl, h, rfl, rfl, applied⟩⟩

/-- An image has a layer at least. -/
theorem count_pos_of_readHeader {header : Header}
    (read : readHeader rows cols words = .ok (header, rest)) :
    0 < header.layerCount + header.overlayCount := by
  obtain ⟨s, -, -, opens, layerCount, -, -⟩ := readHeader_eq_ok_iff.mp read
  have least := opens.layers.1
  omega

/-- An image is read in three steps. -/
theorem ofWords_eq_ok_iff {image : Image} :
    ofWords rows cols space words = .ok image ↔
      ∃ header rest, readHeader rows cols words = .ok (header, rest) ∧ rest.length ≤ space ∧
        readBodies? rows cols (header.layerCount + header.overlayCount) rest =
          some (image.layers ++ image.overlays) ∧
        image.layers.length = header.layerCount ∧ image.settings = header.settings := by
  constructor
  · intro read
    obtain ⟨⟨header, rest⟩, opened, read⟩ := bind_eq_ok_iff.mp read
    obtain ⟨_, room, read⟩ := bind_eq_ok_iff.mp read
    refine ⟨header, rest, opened, demand_eq_ok_iff.mp room, ?_⟩
    split at read
    · cases read
    · rename_i bodies cut
      obtain rfl := Except.ok.inj read
      obtain ⟨-, length, -⟩ := readBodies?_eq_some_iff.mp cut
      refine ⟨cut.trans (congrArg some (List.take_append_drop _ _).symm), ?_, rfl⟩
      rw [List.length_take, length]
      omega
  · rintro ⟨header, rest, opened, room, cut, length, settings⟩
    refine bind_eq_ok_iff.mpr ⟨_, opened, bind_eq_ok_iff.mpr ⟨(), demand_of room _, ?_⟩⟩
    rw [cut, ← length, ← settings]
    dsimp only
    rw [List.take_left, List.drop_left]

/-- Where the header is read, there is room and the directory divides what follows, there is an
image. -/
theorem Divided.exists_ofWords {header : Header}
    (h : Divided rows cols (header.layerCount + header.overlayCount) rest)
    (opened : readHeader rows cols words = .ok (header, rest)) (room : rest.length ≤ space) :
    ∃ image, ofWords rows cols space words = .ok image := by
  obtain ⟨bodies, cut⟩ := h.exists_bodies
  obtain ⟨-, length, -⟩ := readBodies?_eq_some_iff.mp cut
  refine ⟨⟨bodies.take header.layerCount, bodies.drop header.layerCount, header.settings⟩,
    ofWords_eq_ok_iff.mpr ⟨header, rest, opened, room, ?_, ?_, rfl⟩⟩
  · rw [List.take_append_drop]
    exact cut
  · rw [List.length_take, length]
    omega

/-- **Words are read as an image exactly when they follow the format.** -/
theorem exists_ofWords_iff :
    (∃ image, ofWords rows cols space words = .ok image) ↔
      ∃ s : Sections, s.words = words ∧ s.Follows rows cols space := by
  constructor
  · rintro ⟨image, read⟩
    obtain ⟨header, rest, opened, room, cut, -⟩ := ofWords_eq_ok_iff.mp read
    obtain ⟨divided, -, -⟩ := readBodies?_eq_some_iff.mp cut
    obtain ⟨s, rfl, rfl, opens, layerCount, overlayCount, -⟩ := readHeader_eq_ok_iff.mp opened
    rw [layerCount, overlayCount] at divided
    exact ⟨s, rfl, ⟨opens, room, divided⟩⟩
  · rintro ⟨s, rfl, follows⟩
    obtain ⟨settings, opened⟩ := follows.exists_readHeader
    exact follows.divided.exists_ofWords opened follows.room

theorem ofWords_of_readHeader_error {e : LoadError}
    (refused : readHeader rows cols words = .error e) :
    ofWords rows cols space words = .error e := by
  rw [ofWords, refused]
  rfl

/-- Where there is no room, no offset is looked at. -/
theorem ofWords_of_long {header : Header} (opened : readHeader rows cols words = .ok (header, rest))
    (long : ¬rest.length ≤ space) : ofWords rows cols space words = .error .outOfSpace := by
  rw [ofWords, opened]
  show (demand (rest.length ≤ space) .outOfSpace >>= _) = _
  rw [demand, if_neg long]
  rfl

theorem ofWords_of_not_divided {header : Header}
    (opened : readHeader rows cols words = .ok (header, rest)) (room : rest.length ≤ space)
    (other : ¬Divided rows cols (header.layerCount + header.overlayCount) rest) :
    ofWords rows cols space words = .error .corrupt := by
  have uncut : readBodies? rows cols (header.layerCount + header.overlayCount) rest = none := by
    rw [Option.eq_none_iff_forall_ne_some]
    exact fun bodies cut => other (readBodies?_eq_some_iff.mp cut).1
  rw [ofWords, opened]
  show (demand (rest.length ≤ space) .outOfSpace >>= _) = _
  rw [demand_of room, uncut]
  rfl

end Image

end TapHold
