import TapHold.Keymap.Basic

/-!
# Keymaps given as images

An image is a list of words:

```text
version, size (rows in the high byte, columns in the low byte),
number of layers, number of overlays,
number of global words, that many words as pairs of identifier and value,
directory, bodies
```

The directory has an offset for each layer, then for each overlay, and a last one for the end; all
are counted from the start of the directory. A body as long as the matrix has one code for each
place, row by row. Any other body is a list of pairs of a place and its code, in strictly increasing
order of places.

An image is checked completely before any of it is used (`Image.ofWords`). A slot has room for one
image for a matrix of a fixed size; a refused image leaves it empty.
-/

set_option autoImplicit false

namespace TapHold

/-- The codes of one layer. -/
inductive LayerBody where
  /-- One code for each place, row by row. -/
  | dense (codes : List Word)
  /-- A code for each of some places. -/
  | sparse (bindings : List (Word × Word))
deriving DecidableEq

namespace LayerBody

/-- The words two by two; none when their number is odd. -/
def pairs? : List Word → Option (List (Word × Word))
  | [] => some []
  | [_] => none
  | a :: b :: rest => (pairs? rest).map ((a, b) :: ·)

/-- Whether each place comes after the one before. -/
def isIncreasing : List (Word × Word) → Bool
  | a :: b :: rest => decide (a.1 < b.1) && isIncreasing (b :: rest)
  | _ => true

/-- The body with the given words, if they follow the format. -/
def ofWords? (rows cols : Nat) (words : List Word) : Option LayerBody :=
  if words.length = rows * cols then some (.dense words)
  else ((pairs? words).filter isIncreasing).map .sparse

/-- The words of a body. -/
def words : LayerBody → List Word
  | .dense codes => codes
  | .sparse bindings => bindings.flatMap fun b => [b.1, b.2]

/-- Whether the body has a code for each place. -/
def isDense : LayerBody → Bool
  | .dense _ => true
  | .sparse _ => false

/-- The code of a place among bindings in increasing order of places, of which only those from
number `lo` on and before number `hi` are left: the one in the middle tells in which half to go
on. -/
def search (bindings : List (Word × Word)) (place : Word) (lo hi : Nat) : Word :=
  if lo < hi then
    let mid := (lo + hi) / 2
    match bindings[mid]? with
    | some (p, code) =>
      if place < p then search bindings place lo mid
      else if p < place then search bindings place (mid + 1) hi
      else code
    | none => Action.transparentCode
  else Action.transparentCode
termination_by hi - lo

/-- The code of a place. -/
def code (body : LayerBody) (rows cols : Nat) (key : Position) : Word :=
  match body with
  | .dense codes =>
    if key.row.toNat < rows ∧ key.col.toNat < cols then
      codes.getD (key.row.toNat * cols + key.col.toNat) Action.transparentCode
    else Action.transparentCode
  | .sparse bindings => search bindings key.word 0 bindings.length

end LayerBody

/-- The contents of an image. -/
structure Image where
  layers : List LayerBody
  overlays : List LayerBody
  settings : Settings

namespace Image

/-- No layers, and the standard settings. -/
def empty : Image := ⟨[], [], .standard⟩

/-- The version of the format. -/
def version : Word := 1

/-- The highest number of layers, and of overlays. -/
def maxLayers : Nat := 16

/-- The next word of an image; an image that ends before it is corrupt. -/
def next : List Word → Except LoadError (Word × List Word)
  | [] => .error .corrupt
  | w :: rest => .ok (w, rest)

/-- Goes on only if a condition holds. -/
def demand (c : Prop) [Decidable c] (e : LoadError) : Except LoadError Unit :=
  if c then .ok () else .error e

/-- Applies `count` globals. -/
def readGlobals : Nat → Settings → List Word → Except LoadError (Settings × List Word)
  | 0, s, words => .ok (s, words)
  | count + 1, s, id :: value :: rest => do
    let s ← s.withGlobal id value
    readGlobals count s rest
  | _ + 1, _, _ => .error .corrupt

/-- The numbers at the start of an image. -/
structure Header where
  layerCount : Nat
  overlayCount : Nat
  settings : Settings

/-- Reads everything before the directory. -/
def readHeader (rows cols : Nat) (words : List Word) :
    Except LoadError (Header × List Word) := do
  let (v, words) ← next words
  demand (v = version) .versionMismatch
  let (size, words) ← next words
  demand ((size.extractLsb' 8 8).toNat = rows ∧ size.low.toNat = cols) .sizeMismatch
  let (layerCount, words) ← next words
  let (overlayCount, words) ← next words
  demand (1 ≤ layerCount.toNat ∧ layerCount.toNat ≤ maxLayers ∧ overlayCount.toNat ≤ maxLayers)
    .corrupt
  let (globalWords, words) ← next words
  demand (globalWords.toNat % 2 = 0) .corrupt
  let (settings, words) ← readGlobals (globalWords.toNat / 2) .standard words
  return (⟨layerCount.toNat, overlayCount.toNat, settings⟩, words)

/-- Cuts the bodies out of `words`, the first from offset `start` to the first of `ends`, and so on;
none when an offset is out of order or a body breaks the format. -/
def bodies? (rows cols : Nat) (words : List Word) (start : Nat) :
    List Nat → Option (List LayerBody)
  | [] => some []
  | stop :: ends => do
    guard (start ≤ stop ∧ stop ≤ words.length)
    let body ← LayerBody.ofWords? rows cols ((words.take stop).drop start)
    let rest ← bodies? rows cols words stop ends
    return body :: rest

/-- The bodies that a directory of `count` layers and the words after it hold. The directory starts
at its own length and ends at the number of words. -/
def readBodies? (rows cols count : Nat) (words : List Word) : Option (List LayerBody) :=
  match (words.take (count + 1)).map BitVec.toNat with
  | [] => none
  | start :: ends =>
    if start = count + 1 ∧ ends.length = count ∧ (start :: ends).getLast? = some words.length then
      bodies? rows cols words start ends
    else none

/-- The contents of an image for a matrix of `rows` and `cols`, whose directory and bodies have at
most `space` words. -/
def ofWords (rows cols space : Nat) (words : List Word) : Except LoadError Image := do
  let (header, words) ← readHeader rows cols words
  demand (words.length ≤ space) .outOfSpace
  match readBodies? rows cols (header.layerCount + header.overlayCount) words with
  | none => .error .corrupt
  | some bodies =>
    .ok ⟨bodies.take header.layerCount, bodies.drop header.layerCount, header.settings⟩

/-- The bodies of a family. -/
def family (image : Image) : LayerTarget → List LayerBody
  | .keymap => image.layers
  | .overlay => image.overlays

/-- The body of a layer, if the image has that layer. -/
def body? (image : Image) (id : LayerId) : Option LayerBody := (image.family id.target)[id.number]?

end Image

/-- Room for an image for a matrix of a fixed size. -/
structure ImageSlot where
  rows : Nat
  cols : Nat
  /-- The greatest number of words of directory and bodies. -/
  space : Nat
  image : Image

namespace ImageSlot

/-- A slot with no image in it. -/
def empty (rows cols space : Nat) : ImageSlot := ⟨rows, cols, space, .empty⟩

/-- Puts an image into the slot in place of the one before. A refused image leaves it empty. -/
def load (slot : ImageSlot) (words : List Word) : ImageSlot × Except LoadError Unit :=
  match Image.ofWords slot.rows slot.cols slot.space words with
  | .ok image => ({ slot with image }, .ok ())
  | .error e => ({ slot with image := .empty }, .error e)

/-- The code of a place on a layer of the image, if it has that layer. -/
def code? (slot : ImageSlot) (id : LayerId) (key : Position) : Option Word :=
  (slot.image.body? id).map fun body => body.code slot.rows slot.cols key

/-- The keymap that the slot holds. -/
def keymap (slot : ImageSlot) : Keymap := fun id key =>
  (slot.code? id key).getD Action.transparentCode

end ImageSlot

end TapHold
