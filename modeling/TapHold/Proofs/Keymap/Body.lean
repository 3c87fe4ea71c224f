import TapHold.Keymap.Image
import TapHold.Keymap.Tables

/-!
# Bodies and tables

A layer of an image is written as a body, and there are two ways to write a table of codes
(`LayerBody.Encodes`): all of its codes row by row, or pairs of a place and its code in increasing
order of places, which may leave out what is transparent. A body of either kind is read back from
its words, which are told apart by their number only (`Encodes.ofWords?_words`), and has the code of
the table at every place inside the matrix and outside of it (`Encodes.code_eq`).

The code of a place among pairs is found by halving (`search_of_getElem?`), which relies on their
order, and nothing is found where there is no pair (`search_of_notMem`), whatever their order.
-/

set_option autoImplicit false

namespace TapHold

/-- A table of codes, one list for each row. -/
abbrev Table := List (List Word)

namespace Table

/-- The code at a row and a column, if the table has them. -/
def code? (table : Table) (row col : Nat) : Option Word := do
  let codes ← table[row]?
  codes[col]?

/-- The table has `rows` rows and `cols` columns. -/
def HasShape (rows cols : Nat) (table : Table) : Prop :=
  table.length = rows ∧ ∀ codes ∈ table, codes.length = cols

instance (rows cols : Nat) (table : Table) : Decidable (table.HasShape rows cols) :=
  inferInstanceAs (Decidable (_ ∧ _))

variable {rows cols row col : Nat} {table : Table} {code : Word}

theorem HasShape.length_flatten (h : HasShape rows cols table) :
    table.flatten.length = rows * cols := by
  rw [List.length_flatten, List.map_congr_left h.2, List.map_const', List.sum_replicate_nat, h.1]

/-- The places that have a code are those of the matrix. -/
theorem HasShape.code?_isSome (h : HasShape rows cols table) :
    (table.code? row col).isSome = true ↔ row < rows ∧ col < cols := by
  unfold code?
  constructor
  · intro some
    obtain ⟨code, found⟩ := Option.isSome_iff_exists.mp some
    obtain ⟨codes, hrow, hcol⟩ := Option.bind_eq_some_iff.mp found
    obtain ⟨inRow, -⟩ := List.getElem?_eq_some_iff.mp hrow
    obtain ⟨inCol, -⟩ := List.getElem?_eq_some_iff.mp hcol
    exact ⟨h.1 ▸ inRow, h.2 codes (List.mem_of_getElem? hrow) ▸ inCol⟩
  · rintro ⟨inRow, inCol⟩
    have long : row < table.length := h.1 ▸ inRow
    have wide : col < table[row].length := h.2 _ (List.getElem_mem long) ▸ inCol
    simp [List.getElem?_eq_getElem long, List.getElem?_eq_getElem wide]

/-- Row by row, the code of a place stands behind those of the rows before. -/
theorem getElem?_flatten (wide : ∀ codes ∈ table, codes.length = cols) (inCol : col < cols) :
    table.flatten[row * cols + col]? = table.code? row col := by
  induction table generalizing row with
  | nil => rfl
  | cons codes table ih =>
    obtain ⟨first, rest⟩ := List.forall_mem_cons.mp wide
    cases row with
    | zero =>
      rw [Nat.zero_mul, Nat.zero_add, List.flatten_cons,
        List.getElem?_append_left (first.symm ▸ inCol)]
      rfl
    | succ row =>
      have behind : (row + 1) * cols + col = codes.length + (row * cols + col) := by
        rw [first, Nat.succ_mul]
        omega
      rw [behind, List.flatten_cons, List.getElem?_append_right (Nat.le_add_right _ _),
        Nat.add_sub_cancel_left, ih rest]
      rfl

end Table

namespace LayerBody

variable {rows cols : Nat} {table : Table} {bindings : List (Word × Word)} {body : LayerBody}
  {place code : Word} {lo hi k : Nat}

/-! ## Looking up a place by halving -/

/-- The places of pairs come in strictly increasing order. -/
def Increasing (bindings : List (Word × Word)) : Prop := bindings.Pairwise fun a b => a.1 < b.1

instance (bindings : List (Word × Word)) : Decidable (Increasing bindings) :=
  inferInstanceAs (Decidable (bindings.Pairwise _))

theorem Increasing.lt_iff (h : Increasing bindings) {i j : Nat} {a b : Word × Word}
    (hi : bindings[i]? = some a) (hj : bindings[j]? = some b) : a.1 < b.1 ↔ i < j := by
  obtain ⟨shortI, rfl⟩ := List.getElem?_eq_some_iff.mp hi
  obtain ⟨shortJ, rfl⟩ := List.getElem?_eq_some_iff.mp hj
  have order := List.pairwise_iff_getElem.mp h
  refine ⟨fun less => ?_, order i j shortI shortJ⟩
  rcases Nat.lt_trichotomy i j with before | rfl | after
  · exact before
  · exact absurd less (BitVec.lt_irrefl _)
  · exact absurd (BitVec.lt_trans less (order j i shortJ shortI after)) (BitVec.lt_irrefl _)

/-- The code of a place that is among those left is found. -/
theorem search_of_getElem? (h : Increasing bindings) (lower : lo ≤ k) (upper : k < hi)
    (short : hi ≤ bindings.length) (found : bindings[k]? = some (place, code)) :
    search bindings place lo hi = code := by
  fun_induction search bindings place lo hi with
  | case1 lo hi less mid p c middle before ih =>
    -- the place stands before the middle
    have order := (h.lt_iff found middle).mp before
    exact ih lower order (by omega)
  | case2 lo hi less mid p c middle notBefore after ih =>
    have order := (h.lt_iff middle found).mp after
    exact ih order upper short
  | case3 lo hi less mid p c middle notBefore notAfter =>
    -- it stands in the middle, since two places that are in no order are one
    have here : mid = k := by
      rcases Nat.lt_trichotomy mid k with after | same | before
      · exact absurd ((h.lt_iff middle found).mpr after) notAfter
      · exact same
      · exact absurd ((h.lt_iff found middle).mpr before) notBefore
    rw [here, found] at middle
    exact (Prod.mk.inj (Option.some.inj middle)).2.symm
  | case4 lo hi less mid none =>
    have long := List.getElem?_eq_none_iff.mp none
    omega
  | case5 lo hi notLess => omega

/-- A place that is in no pair is transparent. -/
theorem search_of_notMem (absent : ∀ b ∈ bindings, b.1 ≠ place) :
    search bindings place lo hi = Action.transparentCode := by
  fun_induction search bindings place lo hi with
  | case1 lo hi less mid p c middle before ih => exact ih
  | case2 lo hi less mid p c middle notBefore after ih => exact ih
  | case3 lo hi less mid p c middle notBefore notAfter =>
    have other : p ≠ place := absent _ (List.mem_of_getElem? middle)
    exact absurd (BitVec.le_antisymm (BitVec.not_lt.mp notBefore) (BitVec.not_lt.mp notAfter)) other
  | case4 => rfl
  | case5 => rfl

/-! ## Writing a table as a body -/

/-- The ways to write a table of codes as a body. -/
inductive Encodes (rows cols : Nat) (table : Table) : LayerBody → Prop where
  /-- All codes, row by row. -/
  | dense : Encodes rows cols table (.dense table.flatten)
  /-- Places of the matrix with their codes, in increasing order. What is left out is transparent,
  and there are not as many words as the matrix has places. -/
  | sparse {bindings : List (Word × Word)} (increasing : Increasing bindings)
      (bound : ∀ b ∈ bindings, ∃ row < rows, ∃ col < cols,
        b.1.toNat = row * 256 + col ∧ table.code? row col = some b.2)
      (covered : ∀ row < rows, ∀ col < cols, table.code? row col = some Action.transparentCode ∨
        row * 256 + col ∈ bindings.map fun b => b.1.toNat)
      (length : bindings.length * 2 ≠ rows * cols) : Encodes rows cols table (.sparse bindings)

theorem pairs?_words (bindings : List (Word × Word)) :
    pairs? (LayerBody.sparse bindings).words = some bindings := by
  induction bindings with
  | nil => rfl
  | cons b rest ih =>
    show (pairs? (LayerBody.sparse rest).words).map ((b.1, b.2) :: ·) = _
    rw [ih]
    rfl

theorem length_words_sparse (bindings : List (Word × Word)) :
    (LayerBody.sparse bindings).words.length = bindings.length * 2 := by
  induction bindings with
  | nil => rfl
  | cons b rest ih =>
    show (LayerBody.sparse rest).words.length + 2 = _
    rw [ih, List.length_cons, Nat.succ_mul]

theorem isIncreasing_of_increasing (h : Increasing bindings) : isIncreasing bindings = true := by
  induction bindings with
  | nil => rfl
  | cons a rest ih =>
    cases rest with
    | nil => rfl
    | cons b rest =>
      rw [Increasing, List.pairwise_cons] at h
      rw [isIncreasing, Bool.and_eq_true, decide_eq_true_iff]
      exact ⟨h.1 b List.mem_cons_self, ih h.2⟩

/-- A body is read back from its words. -/
theorem Encodes.ofWords?_words (h : Encodes rows cols table body)
    (shape : Table.HasShape rows cols table) : ofWords? rows cols body.words = some body := by
  cases h with
  | dense => exact if_pos shape.length_flatten
  | @sparse bindings increasing bound covered length =>
    have other : (LayerBody.sparse bindings).words.length ≠ rows * cols := by
      rw [length_words_sparse]
      exact length
    rw [ofWords?, if_neg other, pairs?_words, Option.filter_some,
      if_pos (isIncreasing_of_increasing increasing)]
    rfl

/-- A place as a number. -/
theorem toNat_word (key : Position) : key.word.toNat = key.row.toNat * 256 + key.col.toNat := by
  rw [Position.word, BitVec.toNat_append, ← Nat.shiftLeft_add_eq_or_of_lt key.col.isLt,
    Nat.shiftLeft_eq]

/-- Rows and columns below 256 can be read off the number of a place. -/
theorem row_col_of_toNat_word {key : Position} {row col : Nat} (small : col < 256)
    (same : key.word.toNat = row * 256 + col) : row = key.row.toNat ∧ col = key.col.toNat := by
  have colLt := key.col.isLt
  rw [toNat_word] at same
  omega

/-- A body has the codes of the table, and what lies outside of the matrix is transparent. -/
theorem Encodes.code_eq (h : Encodes rows cols table body) (shape : Table.HasShape rows cols table)
    (narrow : cols ≤ 255) (key : Position) :
    body.code rows cols key =
      (table.code? key.row.toNat key.col.toNat).getD Action.transparentCode := by
  cases h with
  | dense =>
    unfold LayerBody.code
    dsimp only
    split
    · rename_i inside
      rw [List.getD_eq_getElem?_getD, Table.getElem?_flatten shape.2 inside.2]
    · rename_i outside
      rw [← shape.code?_isSome, Bool.not_eq_true, Option.isSome_eq_false_iff,
        Option.isNone_iff_eq_none] at outside
      rw [outside]
      rfl
  | @sparse bindings increasing bound covered length =>
    show search bindings key.word 0 bindings.length = _
    by_cases paired : ∃ b ∈ bindings, b.1 = key.word
    · obtain ⟨b, hb, same⟩ := paired
      obtain ⟨row, -, col, inCol, number, code⟩ := bound b hb
      rw [same] at number
      obtain ⟨rfl, rfl⟩ := row_col_of_toNat_word (by omega) number
      obtain ⟨k, less, found⟩ := List.mem_iff_getElem.mp hb
      rw [code, Option.getD_some]
      refine search_of_getElem? increasing (Nat.zero_le k) less (Nat.le_refl _) ?_
      rw [List.getElem?_eq_getElem less, found, ← same]
    · have absent : ∀ b ∈ bindings, b.1 ≠ key.word := fun b hb same => paired ⟨b, hb, same⟩
      rw [search_of_notMem absent]
      cases bare : table.code? key.row.toNat key.col.toNat with
      | none => rfl
      | some code =>
        -- a code that is not transparent has a pair
        obtain ⟨inRow, inCol⟩ := shape.code?_isSome.mp (Option.isSome_of_mem bare)
        rcases covered _ inRow _ inCol with transparent | listed
        · rw [bare] at transparent
          exact (Option.some.inj transparent).symm
        · obtain ⟨b, hb, number⟩ := List.mem_map.mp listed
          rw [← toNat_word] at number
          exact absurd (BitVec.eq_of_toNat_eq number) (absent b hb)

end LayerBody

end TapHold
