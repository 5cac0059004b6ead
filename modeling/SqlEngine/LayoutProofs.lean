import Mathlib.Data.List.TakeDrop
import SqlEngine.Library.ByteCodec
import SqlEngine.Layout

/-! The layout in natural numbers: where rows lie, and that the checked 64-bit
arithmetic of the engine computes it or reports that it does not fit. What is written is
read back, and paths tell the tables and the kinds of their files apart. -/
namespace SqlEngine

open Library

/-- The offset of a row: 113 rows of 36 bytes in each page of 4096, behind the header. -/
def rowOffset (row : Nat) : Nat := 64 + 4096 * (row / 113) + 36 * (row % 113)

/-- Where the last of so many rows ends. -/
def rowsEnd (count : Nat) : Nat := if count = 0 then 64 else rowOffset (count - 1) + 36

private theorem rowOffset_succ_ge (row : Nat) : rowOffset row + 36 ≤ rowOffset (row + 1) := by
  unfold rowOffset
  omega

private theorem rowOffset_mono {first second : Nat} (order : first ≤ second) :
    rowOffset first ≤ rowOffset second := by
  unfold rowOffset
  omega

/-- Slots of distinct rows are disjoint. -/
theorem rowOffset_lt {first second : Nat} (order : first < second) :
    rowOffset first + 36 ≤ rowOffset second :=
  Nat.le_trans (rowOffset_succ_ge first) (rowOffset_mono order)

/-- No row overlaps the header. -/
theorem rowOffset_ge (row : Nat) : 64 ≤ rowOffset row := by
  unfold rowOffset
  omega

theorem rowOffset_injective {first second : Nat} (same : rowOffset first = rowOffset second) :
    first = second := by
  unfold rowOffset at same
  omega

/-- The rows end behind the slot of the last one. -/
theorem rowsEnd_succ (count : Nat) : rowsEnd (count + 1) = rowOffset count + 36 := by
  simp [rowsEnd]

theorem rowsEnd_mono {first second : Nat} (order : first ≤ second) :
    rowsEnd first ≤ rowsEnd second := by
  unfold rowsEnd rowOffset
  split <;> split <;> omega

theorem rowsEnd_le_rowOffset (count : Nat) : rowsEnd count ≤ rowOffset count := by
  unfold rowsEnd rowOffset
  split <;> omega

/-- The slot of a row lies within the rows. -/
theorem rowOffset_lt_rowsEnd {row count : Nat} (inside : row < count) :
    rowOffset row + 36 ≤ rowsEnd count := by
  unfold rowsEnd rowOffset
  split <;> omega

/-! ## Checked arithmetic -/

private theorem utilMulU64_eq (a b : UInt64) :
    utilMulU64 a b = if a.toNat * b.toNat < 2 ^ 64 then some (a * b) else none := by
  unfold utilMulU64
  by_cases zero : a = 0
  · subst zero
    simp
  · have positive : 0 < a.toNat := Nat.pos_of_ne_zero fun h => zero (UInt64.toNat_inj.mp h)
    have bound : b > 0xFFFFFFFFFFFFFFFF / a ↔ ¬ a.toNat * b.toNat < 2 ^ 64 := by
      have quotient : b ≤ 0xFFFFFFFFFFFFFFFF / a ↔ b.toNat * a.toNat ≤ 2 ^ 64 - 1 := by
        rw [UInt64.le_iff_toNat_le, UInt64.toNat_div]
        exact Nat.le_div_iff_mul_le positive
      rw [gt_iff_lt, ← UInt64.not_le, quotient, Nat.mul_comm a.toNat]
      omega
    simp only [ne_eq, zero, not_false_eq_true, true_and, bound, ite_not]

private theorem utilAddU64_eq (a b : UInt64) :
    utilAddU64 a b = if a.toNat + b.toNat < 2 ^ 64 then some (a + b) else none := by
  unfold utilAddU64
  have below := a.toNat_lt
  have bound : b > 0xFFFFFFFFFFFFFFFF - a ↔ ¬ a.toNat + b.toNat < 2 ^ 64 := by
    have difference : (0xFFFFFFFFFFFFFFFF - a).toNat = 2 ^ 64 - 1 - a.toNat := by
      rw [UInt64.toNat_sub_of_le _ _ (UInt64.le_iff_toNat_le.mpr (by simp; omega))]
      rfl
    rw [gt_iff_lt, UInt64.lt_iff_toNat_lt, difference]
    omega
  simp only [bound, ite_not]

/-- Checked multiplication succeeds with the product exactly when it fits. -/
theorem utilMulU64_iff {a b product : UInt64} :
    utilMulU64 a b = some product ↔ product.toNat = a.toNat * b.toNat := by
  rw [utilMulU64_eq]
  split
  · rename_i fits
    rw [Option.some.injEq, ← UInt64.toNat_inj, UInt64.toNat_mul, Nat.mod_eq_of_lt fits, eq_comm]
  · have below := product.toNat_lt
    constructor
    · nofun
    · intro same
      omega

/-- Checked addition succeeds with the sum exactly when it fits. -/
theorem utilAddU64_iff {a b sum : UInt64} :
    utilAddU64 a b = some sum ↔ sum.toNat = a.toNat + b.toNat := by
  rw [utilAddU64_eq]
  split
  · rename_i fits
    rw [Option.some.injEq, ← UInt64.toNat_inj, UInt64.toNat_add, Nat.mod_eq_of_lt fits, eq_comm]
  · have below := sum.toNat_lt
    constructor
    · nofun
    · intro same
      omega

theorem toNat_ofNat {n : Nat} (fits : n < 2 ^ 64) : (UInt64.ofNat n).toNat = n :=
  UInt64.toNat_ofNat_of_lt fits

private theorem utilMulU64_fits {a b : UInt64} (fits : a.toNat * b.toNat < 2 ^ 64) :
    ∃ product, utilMulU64 a b = some product ∧ product.toNat = a.toNat * b.toNat := by
  refine ⟨a * b, ?_, ?_⟩
  · rw [utilMulU64_eq, if_pos fits]
  · rw [UInt64.toNat_mul, Nat.mod_eq_of_lt fits]

private theorem utilAddU64_fits {a b : UInt64} (fits : a.toNat + b.toNat < 2 ^ 64) :
    ∃ sum, utilAddU64 a b = some sum ∧ sum.toNat = a.toNat + b.toNat := by
  refine ⟨a + b, ?_, ?_⟩
  · rw [utilAddU64_eq, if_pos fits]
  · rw [UInt64.toNat_add, Nat.mod_eq_of_lt fits]

/-! ## Offsets -/

private theorem pageSize_toNat : STORAGE_PAGE_SIZE.toNat = 4096 := rfl

private theorem rowSize_toNat : STORAGE_ROW_SIZE.toNat = 36 := rfl

private theorem headerSize_toNat : STORAGE_HEADER_SIZE.toNat = 64 := rfl

private theorem rowsPerPage_toNat : storageRowsPerPage.toNat = 113 := by decide

/-- The engine computes the offset of a row exactly when it fits in 64 bits. -/
theorem storageOffsetForRow_iff {row offset : UInt64} :
    storageOffsetForRow row = some offset ↔ offset.toNat = rowOffset row.toNat := by
  have page : (row / storageRowsPerPage).toNat = row.toNat / 113 := by
    rw [UInt64.toNat_div, rowsPerPage_toNat]
  have slot : (row % storageRowsPerPage).toNat = row.toNat % 113 := by
    rw [UInt64.toNat_mod, rowsPerPage_toNat]
  have nonzero : ¬ storageRowsPerPage = 0 := by decide
  simp only [storageOffsetForRow, Option.bind_eq_bind, nonzero, ↓reduceIte, Option.bind_eq_some_iff]
  constructor
  · rintro ⟨pageBase, onPage, slotOff, inPage, dataOff, data, last⟩
    rw [utilMulU64_iff] at onPage inPage
    rw [utilAddU64_iff] at data last
    rw [last, data, onPage, inPage, page, slot, pageSize_toNat, rowSize_toNat, headerSize_toNat]
    unfold rowOffset
    omega
  · intro same
    have below := offset.toNat_lt
    rw [same] at below
    unfold rowOffset at same below
    obtain ⟨pageBase, onPage, pageBase_eq⟩ := utilMulU64_fits (a := row / storageRowsPerPage)
      (b := STORAGE_PAGE_SIZE) (by rw [page, pageSize_toNat]; omega)
    obtain ⟨slotOff, inPage, slotOff_eq⟩ := utilMulU64_fits (a := row % storageRowsPerPage)
      (b := STORAGE_ROW_SIZE) (by rw [slot, rowSize_toNat]; omega)
    rw [page, pageSize_toNat] at pageBase_eq
    rw [slot, rowSize_toNat] at slotOff_eq
    obtain ⟨dataOff, data, dataOff_eq⟩ := utilAddU64_fits (a := pageBase) (b := slotOff) (by omega)
    refine ⟨pageBase, onPage, slotOff, inPage, dataOff, data, ?_⟩
    rw [utilAddU64_iff, headerSize_toNat]
    omega

/-- The offset of a row that fits is found. -/
theorem storageOffsetForRow_fits {row : UInt64} (fits : rowOffset row.toNat < 2 ^ 64) :
    ∃ offset, storageOffsetForRow row = some offset ∧ offset.toNat = rowOffset row.toNat := by
  have same : (UInt64.ofNat (rowOffset row.toNat)).toNat = rowOffset row.toNat :=
    toNat_ofNat fits
  exact ⟨_, storageOffsetForRow_iff.mpr same, same⟩

private theorem rowOffset_decodes {offset row : Nat} (long : 64 ≤ offset) :
    offset = rowOffset row ↔
      (offset - 64) % 4096 % 36 = 0 ∧ (offset - 64) % 4096 / 36 < 113 ∧
        row = (offset - 64) / 4096 * 113 + (offset - 64) % 4096 / 36 := by
  -- The page, the slot and the row that an offset decodes to.
  unfold rowOffset
  constructor
  · rintro rfl
    have slot : 36 * (row % 113) < 4096 := by omega
    have data : 64 + 4096 * (row / 113) + 36 * (row % 113) - 64 =
        36 * (row % 113) + 4096 * (row / 113) := by omega
    rw [data, Nat.add_mul_mod_self_left, Nat.mod_eq_of_lt slot,
      Nat.add_mul_div_left _ _ (by decide),
      Nat.div_eq_of_lt slot, Nat.mul_mod_right, Nat.mul_div_cancel_left _ (by decide)]
    omega
  · rintro ⟨aligned, inPage, rfl⟩
    rw [Nat.add_comm (_ * 113), Nat.add_mul_div_right _ _ (by decide), Nat.add_mul_mod_self_right,
      Nat.div_eq_of_lt inPage, Nat.mod_eq_of_lt inPage]
    omega

/-- The engine finds the row of an offset exactly when a row starts there. -/
theorem storageRowNumberForOffset_iff {offset row : UInt64} :
    storageRowNumberForOffset offset = some row ↔ offset.toNat = rowOffset row.toNat := by
  have below := offset.toNat_lt
  by_cases small : offset < STORAGE_HEADER_SIZE
  · have short := UInt64.lt_iff_toNat_lt.mp small
    have least := rowOffset_ge row.toNat
    rw [headerSize_toNat] at short
    simp only [storageRowNumberForOffset, small, ↓reduceIte]
    constructor
    · nofun
    · intro same
      omega
  · have long : STORAGE_HEADER_SIZE ≤ offset := UInt64.not_lt.mp small
    have least : 64 ≤ offset.toNat := UInt64.le_iff_toNat_le.mp long
    have data : (offset - STORAGE_HEADER_SIZE).toNat = offset.toNat - 64 := by
      rw [UInt64.toNat_sub_of_le _ _ long, headerSize_toNat]
    have page : ((offset - STORAGE_HEADER_SIZE) / STORAGE_PAGE_SIZE).toNat =
        (offset.toNat - 64) / 4096 := by
      rw [UInt64.toNat_div, data, pageSize_toNat]
    have within : ((offset - STORAGE_HEADER_SIZE) % STORAGE_PAGE_SIZE).toNat =
        (offset.toNat - 64) % 4096 := by
      rw [UInt64.toNat_mod, data, pageSize_toNat]
    have aligned : (offset - STORAGE_HEADER_SIZE) % STORAGE_PAGE_SIZE % STORAGE_ROW_SIZE = 0 ↔
        (offset.toNat - 64) % 4096 % 36 = 0 := by
      rw [← UInt64.toNat_inj, UInt64.toNat_mod, within, rowSize_toNat]
      rfl
    have slot : ((offset - STORAGE_HEADER_SIZE) % STORAGE_PAGE_SIZE / STORAGE_ROW_SIZE).toNat =
        (offset.toNat - 64) % 4096 / 36 := by
      rw [UInt64.toNat_div, within, rowSize_toNat]
    have full :
        (offset - STORAGE_HEADER_SIZE) % STORAGE_PAGE_SIZE / STORAGE_ROW_SIZE ≥ storageRowsPerPage ↔
        113 ≤ (offset.toNat - 64) % 4096 / 36 := by
      rw [ge_iff_le, UInt64.le_iff_toNat_le, slot, rowsPerPage_toNat]
    simp only [storageRowNumberForOffset, small, ↓reduceIte, ne_eq, aligned, full,
      Option.bind_eq_bind]
    rw [rowOffset_decodes least]
    by_cases misaligned : (offset.toNat - 64) % 4096 % 36 = 0
    · by_cases padding : 113 ≤ (offset.toNat - 64) % 4096 / 36
      · simp only [misaligned, not_true_eq_false, padding, Nat.not_lt.mpr padding, ↓reduceIte]
        exact ⟨nofun, fun same => same.2.1.elim⟩
      · simp only [misaligned, not_true_eq_false, padding, Nat.lt_of_not_le padding, ↓reduceIte,
          Option.bind_eq_some_iff, true_and]
        constructor
        · rintro ⟨first, multiplied, added⟩
          rw [utilMulU64_iff, page, rowsPerPage_toNat] at multiplied
          rw [utilAddU64_iff, slot, multiplied] at added
          exact added
        · intro same
          have rowBelow := row.toNat_lt
          obtain ⟨first, multiplied, first_eq⟩ := utilMulU64_fits
            (a := (offset - STORAGE_HEADER_SIZE) / STORAGE_PAGE_SIZE) (b := storageRowsPerPage)
            (by rw [page, rowsPerPage_toNat]; omega)
          rw [page, rowsPerPage_toNat] at first_eq
          refine ⟨first, multiplied, ?_⟩
          rw [utilAddU64_iff, slot, first_eq]
          exact same
    · simp only [misaligned, not_false_eq_true, ↓reduceIte, false_and]
      exact ⟨nofun, False.elim⟩

/-- The offsets that pass the check are those of rows whose slot lies in the file. -/
theorem storageIsValidRowOffset_iff {offset fileSize rowCount : UInt64} :
    storageIsValidRowOffset offset fileSize rowCount = true ↔
      ∃ row : Nat, row < rowCount.toNat ∧ offset.toNat = rowOffset row ∧
        offset.toNat + 36 ≤ fileSize.toNat ∧ offset.toNat + 36 < 2 ^ 64 := by
  unfold storageIsValidRowOffset
  cases found : storageRowNumberForOffset offset with
  | none =>
    simp only [Bool.false_eq_true, false_iff]
    rintro ⟨row, inside, same, _⟩
    have rowBelow := rowCount.toNat_lt
    have named : (UInt64.ofNat row).toNat = row := toNat_ofNat (by omega)
    have again : storageRowNumberForOffset offset = some (.ofNat row) :=
      storageRowNumberForOffset_iff.mpr (by rw [named, same])
    rw [found] at again
    cases again
  | some row =>
    have same := storageRowNumberForOffset_iff.mp found
    have expected := storageOffsetForRow_iff.mpr same
    simp only [expected, ne_eq, not_true_eq_false, ↓reduceIte]
    by_cases outside : row ≥ rowCount
    · have bound := UInt64.le_iff_toNat_le.mp outside
      simp only [outside, ↓reduceIte, Bool.false_eq_true, false_iff]
      rintro ⟨other, inside, otherSame, _⟩
      have equal : other = row.toNat := rowOffset_injective (otherSame.symm.trans same)
      omega
    · have inside : row.toNat < rowCount.toNat := by
        rw [← UInt64.lt_iff_toNat_lt]
        exact UInt64.not_le.mp outside
      simp only [outside, ↓reduceIte]
      cases ended : utilAddU64 offset STORAGE_ROW_SIZE with
      | none =>
        simp only [Bool.false_eq_true, false_iff]
        rintro ⟨other, _, _, _, fits⟩
        obtain ⟨stop, sum, _⟩ := utilAddU64_fits (a := offset) (b := STORAGE_ROW_SIZE) fits
        rw [ended] at sum
        cases sum
      | some stop =>
        have sum := utilAddU64_iff.mp ended
        have below := stop.toNat_lt
        rw [rowSize_toNat] at sum
        simp only [decide_eq_true_eq, UInt64.le_iff_toNat_le, sum]
        constructor
        · intro fits
          exact ⟨row.toNat, inside, same, fits, by omega⟩
        · rintro ⟨_, _, _, fits, _⟩
          exact fits

/-- The logical size is the end of the last row, when that fits in 64 bits. -/
theorem storageLogicalSize_iff {rowCount size : UInt64} :
    storageLogicalSize rowCount = some size ↔ size.toNat = rowsEnd rowCount.toNat := by
  unfold storageLogicalSize rowsEnd
  by_cases zero : rowCount = 0
  · subst zero
    simp only [↓reduceIte, Option.pure_def, Option.some.injEq, ← UInt64.toNat_inj, headerSize_toNat]
    exact eq_comm
  · have positive : rowCount.toNat ≠ 0 := fun h => zero (UInt64.toNat_inj.mp h)
    have last : (rowCount - 1).toNat = rowCount.toNat - 1 := by
      rw [UInt64.toNat_sub_of_le _ _ (UInt64.le_iff_toNat_le.mpr (by
        have one : (1 : UInt64).toNat = 1 := rfl
        omega))]
      rfl
    simp only [zero, ↓reduceIte, positive, Option.bind_eq_bind, Option.bind_eq_some_iff,
      storageOffsetForRow_iff, utilAddU64_iff, last, rowSize_toNat]
    constructor
    · rintro ⟨lastOffset, found, sum⟩
      rw [sum, found]
    · intro same
      have below := size.toNat_lt
      refine ⟨.ofNat (rowOffset (rowCount.toNat - 1)), toNat_ofNat (by omega), ?_⟩
      rw [toNat_ofNat (by omega), same]

/-- Rows are laid out page by page behind the header: the offset of a row is computed
exactly when it fits in 64 bits, it leads back to the row, slots follow one another
without crossing a page, and the check of an offset accepts those of rows in the file. -/
theorem row_layout_exact :
    (∀ row : UInt64,
      ((storageOffsetForRow row).isSome ↔
        64 + 4096 * (row.toNat / 113) + 36 * (row.toNat % 113) < 2 ^ 64) ∧
        ∀ offset, storageOffsetForRow row = some offset →
          offset.toNat = 64 + 4096 * (row.toNat / 113) + 36 * (row.toNat % 113)) ∧
    (∀ offset row, storageRowNumberForOffset offset = some row ↔
      storageOffsetForRow row = some offset) ∧
    (∀ first second start next, storageOffsetForRow first = some start →
      storageOffsetForRow second = some next →
      first < second → start.toNat + 36 ≤ next.toNat) ∧
    (∀ row offset, storageOffsetForRow row = some offset →
      ∃ page, 64 + 4096 * page ≤ offset.toNat ∧ offset.toNat + 36 ≤ 64 + 4096 * (page + 1)) ∧
    ∀ offset fileSize rowCount, storageIsValidRowOffset offset fileSize rowCount = true ↔
      ∃ row < rowCount, storageOffsetForRow row = some offset ∧ offset.toNat + 36 ≤ fileSize.toNat ∧
        offset.toNat + 36 < 2 ^ 64 := by
  refine ⟨fun row => ⟨?_, fun offset found => storageOffsetForRow_iff.mp found⟩,
    fun offset row => ?_, ?_, ?_, ?_⟩
  · rw [Option.isSome_iff_exists]
    constructor
    · rintro ⟨offset, found⟩
      have same : offset.toNat = 64 + 4096 * (row.toNat / 113) + 36 * (row.toNat % 113) :=
        storageOffsetForRow_iff.mp found
      rw [← same]
      exact offset.toNat_lt
    · intro fits
      obtain ⟨offset, found, _⟩ := storageOffsetForRow_fits fits
      exact ⟨offset, found⟩
  · rw [storageRowNumberForOffset_iff, storageOffsetForRow_iff]
  · intro first second start next found found' order
    rw [storageOffsetForRow_iff.mp found, storageOffsetForRow_iff.mp found']
    exact rowOffset_lt (UInt64.lt_iff_toNat_lt.mp order)
  · intro row offset found
    have same := storageOffsetForRow_iff.mp found
    unfold rowOffset at same
    exact ⟨row.toNat / 113, by omega, by omega⟩
  · intro offset fileSize rowCount
    rw [storageIsValidRowOffset_iff]
    constructor
    · rintro ⟨row, inside, same, fits⟩
      have below := rowCount.toNat_lt
      have named : (UInt64.ofNat row).toNat = row := toNat_ofNat (by omega)
      refine ⟨.ofNat row, UInt64.lt_iff_toNat_lt.mpr (by rwa [named]), ?_, fits⟩
      rw [storageOffsetForRow_iff, named, same]
    · rintro ⟨row, inside, found, fits⟩
      exact ⟨row.toNat, UInt64.lt_iff_toNat_lt.mp inside, storageOffsetForRow_iff.mp found, fits⟩

/-! ## Numbers in files -/

private theorem or_shift {x b k width : Nat} (low : x < 2 ^ k) (byte : b < 2 ^ 8)
    (fits : k + 8 ≤ width) :
    x ||| (b <<< k % 2 ^ width) = x + b * 2 ^ k := by
  have bound : b * 2 ^ k < 2 ^ width :=
    calc b * 2 ^ k < 2 ^ 8 * 2 ^ k := Nat.mul_lt_mul_of_pos_right byte (Nat.two_pow_pos k)
      _ = 2 ^ (8 + k) := (Nat.pow_add ..).symm
      _ ≤ 2 ^ width := Nat.pow_le_pow_right (by decide) (by omega)
  rw [Nat.shiftLeft_eq, Nat.mod_eq_of_lt bound, Nat.or_comm, ← Nat.shiftLeft_eq,
    ← Nat.shiftLeft_add_eq_or_of_lt low, Nat.shiftLeft_eq, Nat.add_comm]

/-- Reading four bytes gives the number they denote. -/
theorem getU32Le_toNat (src : Bytes) :
    (getU32Le src).toNat = leNat [src.getD 0 0, src.getD 1 0, src.getD 2 0, src.getD 3 0] := by
  have b0 := (src.getD 0 0).toNat_lt
  have b1 := (src.getD 1 0).toNat_lt
  have b2 := (src.getD 2 0).toNat_lt
  have b3 := (src.getD 3 0).toNat_lt
  simp only [getU32Le, UInt32.toNat_or, UInt32.toNat_shiftLeft, UInt8.toNat_toUInt32,
    UInt32.reduceToNat,
    Nat.reduceMod]
  rw [or_shift (by omega) b1 (by decide), or_shift (by omega) b2 (by decide),
    or_shift (by omega) b3 (by decide)]
  simp only [leNat]
  omega

/-- Reading eight bytes gives the number they denote. -/
theorem getU64Le_toNat (src : Bytes) :
    (getU64Le src).toNat = leNat ((List.range 8).map fun i => src.getD i 0) := by
  have b0 := (src.getD 0 0).toNat_lt
  have b1 := (src.getD 1 0).toNat_lt
  have b2 := (src.getD 2 0).toNat_lt
  have b3 := (src.getD 3 0).toNat_lt
  have b4 := (src.getD 4 0).toNat_lt
  have b5 := (src.getD 5 0).toNat_lt
  have b6 := (src.getD 6 0).toNat_lt
  have b7 := (src.getD 7 0).toNat_lt
  have positions : List.range 8 = [0, 1, 2, 3, 4, 5, 6, 7] := rfl
  simp only [getU64Le, positions, List.foldl, List.map, UInt64.toNat_or, UInt64.toNat_shiftLeft,
    UInt8.toNat_toUInt64, Nat.reduceMul, Nat.toUInt64_eq, UInt64.reduceOfNat, UInt64.reduceToNat,
      Nat.reduceMod]
  rw [or_shift (by omega) b0 (by decide), or_shift (by omega) b1 (by decide),
    or_shift (by omega) b2 (by decide),
    or_shift (by omega) b3 (by decide), or_shift (by omega) b4 (by decide),
      or_shift (by omega) b5 (by decide),
    or_shift (by omega) b6 (by decide), or_shift (by omega) b7 (by decide)]
  simp only [leNat]
  omega

private theorem putU32Le_eq (value : UInt32) : putU32Le value = leBytes 4 value.toNat := by
  simp only [putU32Le, leBytes, List.cons.injEq, ← UInt8.toNat_inj, UInt32.toNat_toUInt8,
    UInt32.toNat_and,
    UInt32.toNat_shiftRight, UInt32.reduceToNat, Nat.reduceMod]
  have mask (n : Nat) : n &&& 255 = n % 256 := Nat.and_two_pow_sub_one_eq_mod n 8
  have byte (n : Nat) : (n.toUInt8).toNat = n % 256 := rfl
  simp only [mask, byte, Nat.shiftRight_eq_div_pow, Nat.reducePow, Nat.div_div_eq_div_mul,
    Nat.reduceMul, Nat.mod_mod,
    and_self]

/-- The bytes of a 64-bit word are its base-256 digits, the lowest first. -/
theorem putU64Le_eq (value : UInt64) : putU64Le value = leBytes 8 value.toNat := by
  have positions : List.range 8 = [0, 1, 2, 3, 4, 5, 6, 7] := rfl
  simp only [putU64Le, positions, List.map, leBytes, List.cons.injEq, ← UInt8.toNat_inj,
    UInt64.toNat_toUInt8,
    UInt64.toNat_and, UInt64.toNat_shiftRight, Nat.reduceMul, Nat.toUInt64_eq, UInt64.reduceOfNat,
      UInt64.reduceToNat, Nat.reduceMod]
  have mask (n : Nat) : n &&& 255 = n % 256 := Nat.and_two_pow_sub_one_eq_mod n 8
  have byte (n : Nat) : (n.toUInt8).toNat = n % 256 := rfl
  simp only [mask, byte, Nat.shiftRight_eq_div_pow, Nat.reducePow, Nat.div_div_eq_div_mul,
    Nat.reduceMul, Nat.mod_mod,
    Nat.div_one, and_self]

@[simp] theorem length_putU32Le (value : UInt32) : (putU32Le value).length = 4 := rfl

@[simp] theorem length_putU64Le (value : UInt64) : (putU64Le value).length = 8 := rfl

theorem getU32Le_congr {a b : Bytes} (same : ∀ i < 4, a.getD i 0 = b.getD i 0) :
    getU32Le a = getU32Le b := by
  simp only [getU32Le, same 0 (by decide), same 1 (by decide), same 2 (by decide),
    same 3 (by decide)]

theorem getU64Le_congr {a b : Bytes} (same : ∀ i < 8, a.getD i 0 = b.getD i 0) :
    getU64Le a = getU64Le b := by
  apply UInt64.toNat_inj.mp
  rw [getU64Le_toNat, getU64Le_toNat]
  refine congrArg leNat (List.map_congr_left fun i inside => same i ?_)
  simpa using inside

/-- What was written is read back. -/
theorem getU32Le_put (value : UInt32) : getU32Le (putU32Le value) = value := by
  apply UInt32.toNat_inj.mp
  have again := leNat_leBytes 4 value.toNat
  rw [← putU32Le_eq, show 256 ^ 4 = 2 ^ 32 from rfl, Nat.mod_eq_of_lt value.toNat_lt] at again
  rw [getU32Le_toNat]
  exact again

/-- A 64-bit word is read back from its bytes. -/
theorem getU64Le_put (value : UInt64) : getU64Le (putU64Le value) = value := by
  apply UInt64.toNat_inj.mp
  have again := leNat_leBytes 8 value.toNat
  rw [← putU64Le_eq, show 256 ^ 8 = 2 ^ 64 from rfl, Nat.mod_eq_of_lt value.toNat_lt] at again
  rw [getU64Le_toNat]
  exact again

/-- What was read is what stood there. -/
theorem putU32Le_get {bytes : Bytes} (length : bytes.length = 4) :
    putU32Le (getU32Le bytes) = bytes := by
  have four : [bytes.getD 0 0, bytes.getD 1 0, bytes.getD 2 0, bytes.getD 3 0] = bytes := by
    match bytes, length with
    | [_, _, _, _], _ => rfl
  have again := leBytes_leNat bytes
  rwa [length, ← four, ← getU32Le_toNat, four, ← putU32Le_eq] at again

/-- A number tells each of its four bytes. -/
theorem getU32Le_inj {a b : Bytes} (same : getU32Le a = getU32Le b) :
    ∀ i < 4, a.getD i 0 = b.getD i 0 := by
  have four : ∀ bytes : Bytes, putU32Le (getU32Le bytes) =
      [bytes.getD 0 0, bytes.getD 1 0, bytes.getD 2 0, bytes.getD 3 0] := fun bytes =>
    @putU32Le_get [bytes.getD 0 0, bytes.getD 1 0, bytes.getD 2 0, bytes.getD 3 0] rfl
  have bytes := (four a).symm.trans ((congrArg putU32Le same).trans (four b))
  simp only [List.cons.injEq, and_true] at bytes
  obtain ⟨first, second, third, fourth⟩ := bytes
  intro i inside
  match i, inside with
  | 0, _ => exact first
  | 1, _ => exact second
  | 2, _ => exact third
  | 3, _ => exact fourth

/-! ## Rows -/

@[simp] theorem length_storageSerializeRow (row : Row) : (storageSerializeRow row).length = 36 := by
  simp [storageSerializeRow, row.name_size, STORAGE_NAME_SIZE]

/-- A row as it is read: its last name byte is zero. -/
def visibleRow (row : Row) : Row :=
  { id := row.id
    name := row.name.take (STORAGE_NAME_SIZE - 1) ++ [0]
    name_size := by simp [row.name_size, STORAGE_NAME_SIZE] }

/-- A row whose last name byte is zero is read as it is. -/
theorem visibleRow_eq {row : Row} (terminated : row.name.getD 31 0 = 0) : visibleRow row = row := by
  obtain ⟨id, name, size⟩ := row
  have length : name.length = 32 := size
  have last : name.take 31 ++ [0] = name := by
    have tail : name.drop 31 = [0] := by
      rw [List.drop_eq_getElem_cons (by omega), List.drop_eq_nil_of_le (by omega)]
      simpa [List.getD_eq_getElem?_getD, length] using terminated
    rw [← tail, List.take_append_drop]
  simpa [visibleRow, STORAGE_NAME_SIZE] using last

theorem storageDeserializeRow_serialize (row : Row) :
    storageDeserializeRow (storageSerializeRow row) = visibleRow row := by
  have id_read : getU32Le (putU32Le row.id.toUInt32 ++ row.name) = row.id.toUInt32 := by
    rw [← getU32Le_put row.id.toUInt32]
    refine getU32Le_congr fun i inside => ?_
    rw [getU32Le_put, List.getD_append _ _ _ _ inside]
  have name_read : ((putU32Le row.id.toUInt32 ++ row.name).drop 4).takeD (STORAGE_NAME_SIZE - 1) 0 =
      row.name.take (STORAGE_NAME_SIZE - 1) := by
    rw [List.drop_left' (length_putU32Le _),
      List.takeD_eq_take _ (by simp [row.name_size, STORAGE_NAME_SIZE])]
  simp only [storageDeserializeRow, storageSerializeRow, visibleRow, id_read, name_read]
  rfl

private theorem takeD_congr {a b : Bytes} {n : Nat} (same : ∀ i < n, a.getD i 0 = b.getD i 0) :
    a.takeD n 0 = b.takeD n 0 := by
  induction n generalizing a b with
  | zero => rfl
  | succ n ih =>
    have first := same 0 (Nat.succ_pos n)
    have rest : ∀ i < n, a.tail.getD i 0 = b.tail.getD i 0 := by
      intro i inside
      simpa [List.getD_eq_getElem?_getD, List.getElem?_tail] using same (i + 1) (by omega)
    rw [List.takeD_succ, List.takeD_succ, ih rest]
    simpa [List.getD_eq_getElem?_getD, List.head?_eq_getElem?] using first

/-- A row is read from 36 bytes; those that are missing count as zeros. -/
theorem storageDeserializeRow_congr {a b : Bytes} (same : ∀ i < 36, a.getD i 0 = b.getD i 0) :
    storageDeserializeRow a = storageDeserializeRow b := by
  have id_same : getU32Le a = getU32Le b := getU32Le_congr fun i inside => same i (by omega)
  have name_same : (a.drop 4).takeD (STORAGE_NAME_SIZE - 1) 0 =
      (b.drop 4).takeD (STORAGE_NAME_SIZE - 1) 0 := by
    refine takeD_congr fun i inside => ?_
    have small : i < 31 := inside
    simpa [List.getD_eq_getElem?_getD, List.getElem?_drop] using same (4 + i) (by omega)
  simp only [storageDeserializeRow, id_same, name_same]

/-- The row whose bytes are given. -/
def storedRow (bytes : Bytes) (length : bytes.length = 36) : Row :=
  { id := (getU32Le bytes).toInt32
    name := bytes.drop 4
    name_size := by simp [length, STORAGE_NAME_SIZE] }

/-- The bytes of a slot are those of the row that is stored in them. -/
theorem storageSerializeRow_stored (bytes : Bytes) (length : bytes.length = 36) :
    storageSerializeRow (storedRow bytes length) = bytes := by
  have front : getU32Le bytes = getU32Le (bytes.take 4) := by
    refine getU32Le_congr fun i inside => ?_
    simp only [List.getD_eq_getElem?_getD, List.getElem?_take_of_lt inside]
  have first : putU32Le (getU32Le bytes) = bytes.take 4 := by
    rw [front, putU32Le_get (by simp [length])]
  simp only [storageSerializeRow, storedRow, UInt32.toUInt32_toInt32, first, List.take_append_drop]

/-! ## Arrays -/

@[simp] theorem length_copyAt {bytes data : Bytes} {position : Nat}
    (room : position + data.length ≤ bytes.length) :
    (copyAt bytes position data).length = bytes.length := by
  simp [copyAt]
  omega

/-- Copying changes the bytes of its place only. -/
theorem getD_copyAt {bytes data : Bytes} {position : Nat}
    (room : position + data.length ≤ bytes.length) (i : Nat) :
    (copyAt bytes position data).getD i 0 =
      if position ≤ i ∧ i < position + data.length then data.getD (i - position) 0
        else bytes.getD i 0 := by
  by_cases empty : data = []
  · subst empty
    simp [copyAt]
  · have same : copyAt bytes position data = patch bytes position data := by
      simp [copyAt, patch, empty, show position - bytes.length = 0 by omega]
    rw [same, getD_patch]

/-! ## Names -/

def tablePath (tableName : Bytes) : Bytes := tableName ++ str ".tbl"

def indexPath (tableName : Bytes) : Bytes := tableName ++ str ".idx"

def journalPath (tableName : Bytes) : Bytes := tableName ++ str ".tbl.journal"

/-- What a valid table name is made of. -/
structure NameParts (tableName : Bytes) : Prop where
  short : tableName.length ≤ 31
  noDot : 46 ∉ tableName
  noSlash : 47 ∉ tableName
  noNul : 0 ∉ tableName

/-- What the checks of a valid name say about its bytes. -/
theorem storageValidTableName_parts {tableName : Bytes}
    (valid : storageValidTableName tableName = true) :
    NameParts tableName := by
  simp only [storageValidTableName, Bool.and_eq_true, List.all_eq_true] at valid
  obtain ⟨⟨_, characters⟩, short⟩ := valid
  have foreign : ∀ c : UInt8, (isLower c || isUpper c || isDigit c || c == 95) = false →
      c ∉ tableName := by
    intro c other among
    rw [characters c among] at other
    cases other
  exact ⟨of_decide_eq_true short, foreign 46 (by decide), foreign 47 (by decide),
    foreign 0 (by decide)⟩

/-- A valid name fits in the path of its table. -/
theorem storageTablePath_valid {tableName : Bytes}
    (valid : storageValidTableName tableName = true) :
    storageTablePath tableName 96 = some (tablePath tableName) := by
  have short := (storageValidTableName_parts valid).short
  have suffix : (str ".tbl").length = 4 := by decide
  rw [storageTablePath, buildPath, suffix, if_neg (by omega)]
  rfl

theorem storageIndexPath_valid {tableName : Bytes}
    (valid : storageValidTableName tableName = true) :
    storageIndexPath tableName 96 = some (indexPath tableName) := by
  have short := (storageValidTableName_parts valid).short
  have suffix : (str ".idx").length = 4 := by decide
  rw [storageIndexPath, buildPath, suffix, if_neg (by omega)]
  rfl

theorem storageJournalPath_valid {tableName : Bytes}
    (valid : storageValidTableName tableName = true) :
    storageJournalPath tableName 128 = some (journalPath tableName) := by
  have short := (storageValidTableName_parts valid).short
  have suffix : (str ".tbl.journal").length = 12 := by decide
  rw [storageJournalPath, buildPath, suffix, if_neg (by omega)]
  rfl

theorem utilCopyChecked_valid {tableName : Bytes} (valid : storageValidTableName tableName = true) :
    utilCopyChecked SQL_TABLE_NAME_CAPACITY tableName = some tableName := by
  have short := (storageValidTableName_parts valid).short
  have capacity : SQL_TABLE_NAME_CAPACITY = 32 := rfl
  rw [utilCopyChecked, capacity, if_neg (by omega)]

/-- A path is a name and what follows its first dot. -/
theorem path_injective {first second s t : Bytes} (noDot : 46 ∉ first) (noDot' : 46 ∉ second)
    (same : first ++ 46 :: s = second ++ 46 :: t) : first = second ∧ s = t := by
  have front : ∀ {name rest : Bytes}, 46 ∉ name →
      (name ++ 46 :: rest).takeWhile (· != 46) = name := by
    intro name rest clean
    have letters : ∀ c ∈ name, (c != 46) = true := by
      intro c among
      rw [bne_iff_ne]
      rintro rfl
      exact clean among
    rw [List.takeWhile_append_of_pos letters]
    simp
  have names : first = second := by rw [← front noDot, same, front noDot']
  subst names
  exact ⟨rfl, List.tail_eq_of_cons_eq (List.append_cancel_left same)⟩

/-- A path starts with another only if both are about one name. -/
theorem path_front {first second s t : Bytes} (noDot : 46 ∉ first) (noDot' : 46 ∉ second)
    (front : first ++ 46 :: s <+: second ++ 46 :: t) : first = second ∧ s <+: t := by
  obtain ⟨rest, same⟩ := front
  rw [List.append_assoc, List.cons_append] at same
  obtain ⟨names, suffixes⟩ := path_injective noDot noDot' same
  exact ⟨names, rest, suffixes⟩

/-! ## Files of a table -/

theorem tablePath_prefix_journalPath (tableName : Bytes) :
    tablePath tableName <+: journalPath tableName :=
  ⟨str ".journal", by rw [tablePath, journalPath, List.append_assoc]; rfl⟩

theorem journalPath_ne_tablePath (tableName : Bytes) :
    journalPath tableName ≠ tablePath tableName := by
  intro same
  have lengths := congrArg List.length same
  simp only [journalPath, tablePath, List.length_append] at lengths
  revert lengths
  simp [str]

theorem journalPath_not_front (tableName : Bytes) :
    ¬ journalPath tableName <+: tablePath tableName := by
  intro front
  have lengths := front.length_le
  simp only [journalPath, tablePath, List.length_append] at lengths
  revert lengths
  simp [str]

/-- The path of a temporary file lies behind the path it is made for. -/
theorem temp_ne {path suffix : Bytes} : path ++ str ".tmp." ++ suffix ≠ path := by
  intro same
  have lengths := congrArg List.length same
  simp [str] at lengths

theorem prefix_temp (path suffix : Bytes) : path <+: path ++ str ".tmp." ++ suffix :=
  ⟨str ".tmp." ++ suffix, by rw [List.append_assoc]⟩

/-! ## Files of several tables -/

section Names

variable {first second : Bytes}

/-- The path of a table is in front of no path of another table's files. -/
theorem tablePath_front (noDot : 46 ∉ first) (noDot' : 46 ∉ second)
    (front : tablePath first <+: tablePath second ∨ tablePath first <+: journalPath second) :
    first = second := by
  rcases front with front | front <;> exact (path_front noDot noDot' front).1

/-- The path of an index is in front of no other index path. -/
theorem indexPath_front (noDot : 46 ∉ first) (noDot' : 46 ∉ second)
    (front : indexPath first <+: indexPath second) :
    first = second := (path_front noDot noDot' front).1

/-- The index of one table is not about the table file or the journal of any. -/
theorem indexPath_apart (noDot : 46 ∉ first) (noDot' : 46 ∉ second) :
    ¬ indexPath first <+: tablePath second ∧ ¬ indexPath first <+: journalPath second ∧
      ¬ tablePath first <+: indexPath second := by
  refine ⟨fun front => ?_, fun front => ?_, fun front => ?_⟩
  · exact absurd (path_front noDot noDot' front).2 (by decide)
  · exact absurd (path_front noDot noDot' front).2 (by decide)
  · exact absurd (path_front noDot noDot' front).2 (by decide)

end Names

theorem journalPath_noSlash {tableName : Bytes} (parts : NameParts tableName) :
    47 ∉ journalPath tableName := by
  have suffix : 47 ∉ str ".tbl.journal" := by decide
  simp only [journalPath, List.mem_append, parts.noSlash, suffix, or_self, not_false_eq_true]

theorem tablePath_noSlash {tableName : Bytes} (parts : NameParts tableName) :
    47 ∉ tablePath tableName := by
  have suffix : 47 ∉ str ".tbl" := by decide
  simp only [tablePath, List.mem_append, parts.noSlash, suffix, or_self, not_false_eq_true]

end SqlEngine
