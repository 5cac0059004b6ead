import SqlEngine.LayoutProofs
import SqlEngine.Storage

/-! The journal of an insertion is read back as what was written: the table it belongs
to, and the number of rows in front of the insertion. -/
namespace SqlEngine

open Library

/-- The bytes of a journal that rolls a table back to so many rows. -/
structure IsJournal (tableName : Bytes) (count : Nat) (bytes : Bytes) : Prop where
  length : bytes.length = JOURNAL_SIZE
  size : rowsEnd count ≤ maxFileSize
  valid : ∃ previousCount : UInt64, previousCount.toNat = count ∧
    validateJournal bytes tableName = some (previousCount, rowsEnd count)

/-- A journal has one previous count. -/
theorem IsJournal.unique {tableName bytes : Bytes} {first second : Nat}
    (one : IsJournal tableName first bytes) (two : IsJournal tableName second bytes) :
    first = second := by
  obtain ⟨previous, count, valid⟩ := one.valid
  obtain ⟨previous', count', valid'⟩ := two.valid
  rw [valid, Option.some.injEq, Prod.mk.injEq] at valid'
  rw [← count, ← count', valid'.1]

private theorem getD_drop (bytes : Bytes) (n i : Nat) :
    (bytes.drop n).getD i 0 = bytes.getD (n + i) 0 := by
  simp only [List.getD_eq_getElem?_getD, List.getElem?_drop]

private theorem checksum_step_injective {hash hash' : UInt32} {byte byte' : UInt8}
    (same : (hash ^^^ byte.toUInt32) * 16777619 = (hash' ^^^ byte'.toUInt32) * 16777619) :
    hash ^^^ byte.toUInt32 = hash' ^^^ byte'.toUInt32 := by
  -- the factor is odd, so it has an inverse
  have inverse : (16777619 : UInt32) * 899433627 = 1 := by decide
  have cancelled := congrArg (· * 899433627) same
  simpa only [UInt32.mul_assoc, inverse, UInt32.mul_one] using cancelled

private theorem xor_cancel_right {a b c : UInt32} (same : a ^^^ c = b ^^^ c) : a = b := by
  have cancelled := congrArg (· ^^^ c) same
  simpa only [UInt32.xor_assoc, UInt32.xor_self, UInt32.xor_zero] using cancelled

private theorem xor_cancel_left {hash : UInt32} {byte byte' : UInt8}
    (same : hash ^^^ byte.toUInt32 = hash ^^^ byte'.toUInt32) : byte = byte' := by
  rw [UInt32.xor_comm hash, UInt32.xor_comm hash] at same
  have numbers := congrArg UInt32.toNat (xor_cancel_right same)
  rw [UInt8.toNat_toUInt32, UInt8.toNat_toUInt32] at numbers
  exact UInt8.toNat_inj.mp numbers

private theorem checksum_fold_differs {bytes bytes' : Nat → UInt8} {n k : Nat} (inside : k < n)
    (elsewhere : ∀ i < n, i ≠ k → bytes i = bytes' i) (differ : bytes k ≠ bytes' k)
    (start : UInt32) :
    (List.range n).foldl (fun hash i => (hash ^^^ (bytes i).toUInt32) * 16777619) start ≠
      (List.range n).foldl (fun hash i => (hash ^^^ (bytes' i).toUInt32) * 16777619) start := by
  -- Two inputs that differ in one place have different checksums: a fold by induction on its
  -- length, in front of the place, at it, and behind it.
  induction n with
  | zero => cases inside
  | succ n ih =>
    simp only [List.range_succ, List.foldl_append, List.foldl_cons, List.foldl_nil]
    intro same
    have stepped := checksum_step_injective same
    by_cases last : k = n
    · subst last
      have front : (List.range k).foldl
          (fun hash i => (hash ^^^ (bytes i).toUInt32) * 16777619) start =
          (List.range k).foldl (fun hash i => (hash ^^^ (bytes' i).toUInt32) * 16777619) start := by
        refine List.foldl_ext _ _ _ fun hash i among => ?_
        have before := List.mem_range.mp among
        rw [elsewhere i (by omega) (by omega)]
      rw [front] at stepped
      exact differ (xor_cancel_left stepped)
    · rw [elsewhere n (Nat.lt_succ_self n) (Ne.symm last)] at stepped
      exact ih (by omega) (fun i before => elsewhere i (by omega)) (xor_cancel_right stepped)

/-- The checksum does not depend on its own four bytes. -/
theorem journalChecksum_congr {a b : Bytes}
    (same : ∀ i, i < JOURNAL_CHECKSUM_AT ∨ JOURNAL_CHECKSUM_AT + 4 ≤ i → a.getD i 0 = b.getD i 0) :
    journalChecksum a = journalChecksum b := by
  have each : ∀ i, (if i ≥ JOURNAL_CHECKSUM_AT ∧ i < JOURNAL_CHECKSUM_AT + 4 then 0
      else a.getD i 0) =
      (if i ≥ JOURNAL_CHECKSUM_AT ∧ i < JOURNAL_CHECKSUM_AT + 4 then 0 else b.getD i 0) := by
    intro i
    split
    · rfl
    · exact same i (by omega)
  simp only [journalChecksum, each]

section Image

variable {table : Table} {row : Row} {offset newCount : UInt64}

private theorem length_fields {bytes data : Bytes} {position : Nat} (length : bytes.length = 128)
    (room : position + data.length ≤ 128) : (copyAt bytes position data).length = 128 := by
  rw [length_copyAt (by omega), length]

private theorem getD_journalBody (row : Row) (offset newCount : UInt64)
    (short : table.name.length ≤ 31) (i : Nat) :
    (journalBody table row offset newCount).length = 128 ∧
    (journalBody table row offset newCount).getD i 0 =
      if 72 ≤ i ∧ i < 108 then (storageSerializeRow row).getD (i - 72) 0
      else if 40 ≤ i ∧ i < 40 + table.name.length then table.name.getD (i - 40) 0
      else if 32 ≤ i ∧ i < 40 then (putU64Le offset).getD (i - 32) 0
      else if 24 ≤ i ∧ i < 32 then (putU64Le newCount).getD (i - 24) 0
      else if 16 ≤ i ∧ i < 24 then (putU64Le table.rowCount).getD (i - 16) 0
      else if 8 ≤ i ∧ i < 12 then (putU32Le JOURNAL_SIZE.toUInt32).getD (i - 8) 0
      else if 4 ≤ i ∧ i < 8 then (putU32Le JOURNAL_VERSION).getD (i - 4) 0
      else if 0 ≤ i ∧ i < 4 then (putU32Le JOURNAL_MAGIC).getD (i - 0) 0
      else 0 := by
  -- The image in front of its checksum, byte by byte: the last field that covers a byte.
  unfold journalBody
  extract_lets b0 b1 b2 b3 b4 b5 b6 b7
  have l0 : b0.length = 128 := List.length_replicate
  have l1 : b1.length = 128 := length_fields l0 (by decide)
  have l2 : b2.length = 128 := length_fields l1 (by decide)
  have l3 : b3.length = 128 := length_fields l2 (by decide)
  have l4 : b4.length = 128 := length_fields l3 (by rw [length_putU64Le]; decide)
  have l5 : b5.length = 128 := length_fields l4 (by rw [length_putU64Le]; decide)
  have l6 : b6.length = 128 := length_fields l5 (by rw [length_putU64Le]; decide)
  have l7 : b7.length = 128 := length_fields l6 (by omega)
  have zeros : b0.getD i 0 = 0 := by
    simp only [b0, List.getD_eq_getElem?_getD, List.getElem?_replicate]
    split <;> rfl
  refine ⟨length_fields l7 (by rw [length_storageSerializeRow]; decide), ?_⟩
  rw [getD_copyAt (by rw [l7, length_storageSerializeRow]; decide), length_storageSerializeRow,
    getD_copyAt (by rw [l6]; omega), getD_copyAt (by rw [l5, length_putU64Le]; decide),
      length_putU64Le,
    getD_copyAt (by rw [l4, length_putU64Le]; decide), length_putU64Le,
    getD_copyAt (by rw [l3, length_putU64Le]; decide), length_putU64Le,
    getD_copyAt (by rw [l2, length_putU32Le]; decide), length_putU32Le,
    getD_copyAt (by rw [l1, length_putU32Le]; decide), length_putU32Le,
    getD_copyAt (by rw [l0, length_putU32Le]; decide), length_putU32Le, zeros]

private theorem getD_journalImage (row : Row) (offset newCount : UInt64)
    (short : table.name.length ≤ 31) (i : Nat) :
    (journalImage table row offset newCount).getD i 0 =
      if 108 ≤ i ∧ i < 112 then
        (putU32Le (journalChecksum (journalBody table row offset newCount))).getD (i - 108) 0
      else (journalBody table row offset newCount).getD i 0 := by
  have length := (getD_journalBody row offset newCount short 0).1
  rw [journalImage, getD_copyAt (by rw [length, length_putU32Le]; decide), length_putU32Le]
  rfl

private theorem field32 {bytes : Bytes} {position : Nat} {value : UInt32}
    (same : ∀ j < 4, bytes.getD (position + j) 0 = (putU32Le value).getD j 0) :
    getU32Le (bytes.drop position) = value := by
  rw [← getU32Le_put value]
  refine getU32Le_congr fun j inside => ?_
  rw [getD_drop, same j inside]

private theorem field64 {bytes : Bytes} {position : Nat} {value : UInt64}
    (same : ∀ j < 8, bytes.getD (position + j) 0 = (putU64Le value).getD j 0) :
    getU64Le (bytes.drop position) = value := by
  rw [← getU64Le_put value]
  refine getU64Le_congr fun j inside => ?_
  rw [getD_drop, same j inside]

private theorem stored_name {bytes name : Bytes} (short : name.length ≤ 31) (noNul : 0 ∉ name)
    (long : 71 ≤ bytes.length)
    (same : ∀ j < 31, bytes.getD (40 + j) 0 = if j < name.length then name.getD j 0 else 0) :
    cstr ((bytes.drop 40).take (SQL_TABLE_NAME_CAPACITY - 1)) = name := by
  -- The stored name is the text up to its first NUL, and the array behind it is zero.
  have array : (bytes.drop 40).take 31 = name ++ List.replicate (31 - name.length) 0 := by
    apply List.ext_getElem
    · simp
      omega
    · intro j left right
      have inside : j < 31 := by simpa using Nat.lt_of_lt_of_le left (List.length_take_le _ _)
      have byte := same j inside
      rw [List.getD_eq_getElem _ _ (by omega)] at byte
      simp only [List.getElem_take, List.getElem_drop, List.getElem_append,
        List.getElem_replicate, byte]
      split
      · rename_i early
        rw [List.getD_eq_getElem _ _ early]
      · rfl
  have capacity : SQL_TABLE_NAME_CAPACITY - 1 = 31 := rfl
  have letters : ∀ c ∈ name, (c != 0) = true := by
    intro c among
    rw [bne_iff_ne]
    rintro rfl
    exact noNul among
  rw [capacity, array, cstr, List.takeWhile_append_of_pos letters]
  cases left : 31 - name.length <;> simp [List.replicate_succ]

/-- A journal is accepted for the table it was written for, and for no other. -/
theorem validateJournal_image (parts : NameParts table.name)
    (counted : utilAddU64 table.rowCount 1 = some newCount)
    (placed : storageOffsetForRow table.rowCount = some offset)
    (small : rowsEnd table.rowCount.toNat ≤ maxFileSize) (tableName : Bytes) :
    (journalImage table row offset newCount).length = JOURNAL_SIZE ∧
      validateJournal (journalImage table row offset newCount) tableName =
        if table.name = tableName then some (table.rowCount, rowsEnd table.rowCount.toNat)
          else none := by
  have short := parts.short
  have body := getD_journalBody row offset newCount short
  have image := getD_journalImage row offset newCount short
  have length : (journalImage table row offset newCount).length = 128 :=
    length_fields (body 0).1 (by rw [length_putU32Le]; decide)
  have front : getU32Le ((journalImage table row offset newCount).drop 0) = JOURNAL_MAGIC := by
    refine field32 fun j inside => ?_
    rw [image, if_neg (by omega), (body _).2]
    iterate 7 rw [if_neg (by omega)]
    rw [if_pos (by omega), Nat.zero_add, Nat.sub_zero]
  have magic : getU32Le (journalImage table row offset newCount) = JOURNAL_MAGIC := by
    rwa [List.drop_zero] at front
  have version : getU32Le ((journalImage table row offset newCount).drop 4) = JOURNAL_VERSION := by
    refine field32 fun j inside => ?_
    rw [image, if_neg (by omega), (body _).2]
    iterate 6 rw [if_neg (by omega)]
    rw [if_pos (by omega), Nat.add_sub_cancel_left]
  have size : getU32Le ((journalImage table row offset newCount).drop 8) =
      JOURNAL_SIZE.toUInt32 := by
    refine field32 fun j inside => ?_
    rw [image, if_neg (by omega), (body _).2]
    iterate 5 rw [if_neg (by omega)]
    rw [if_pos (by omega), Nat.add_sub_cancel_left]
  have reserved : getU32Le ((journalImage table row offset newCount).drop 12) = 0 := by
    refine field32 fun j inside => ?_
    have zero : ∀ j < 4, (putU32Le 0).getD j 0 = 0 := by decide
    rw [image, if_neg (by omega), (body _).2, zero j inside]
    iterate 8 rw [if_neg (by omega)]
  have previous : getU64Le ((journalImage table row offset newCount).drop 16) = table.rowCount := by
    refine field64 fun j inside => ?_
    rw [image, if_neg (by omega), (body _).2]
    iterate 4 rw [if_neg (by omega)]
    rw [if_pos (by omega), Nat.add_sub_cancel_left]
  have intended : getU64Le ((journalImage table row offset newCount).drop 24) = newCount := by
    refine field64 fun j inside => ?_
    rw [image, if_neg (by omega), (body _).2]
    iterate 3 rw [if_neg (by omega)]
    rw [if_pos (by omega), Nat.add_sub_cancel_left]
  have position : getU64Le ((journalImage table row offset newCount).drop 32) = offset := by
    refine field64 fun j inside => ?_
    rw [image, if_neg (by omega), (body _).2]
    iterate 2 rw [if_neg (by omega)]
    rw [if_pos (by omega), Nat.add_sub_cancel_left]
  have name :
      cstr (((journalImage table row offset newCount).drop 40).take (SQL_TABLE_NAME_CAPACITY - 1)) =
      table.name := by
    refine stored_name short parts.noNul (by omega) fun j inside => ?_
    rw [image, if_neg (by omega), (body _).2, if_neg (by omega)]
    by_cases early : j < table.name.length
    · rw [if_pos (by omega), if_pos early, Nat.add_sub_cancel_left]
    · iterate 7 rw [if_neg (by omega)]
      rw [if_neg early]
  have checksum : getU32Le ((journalImage table row offset newCount).drop JOURNAL_CHECKSUM_AT) =
      journalChecksum (journalImage table row offset newCount) := by
    have same : journalChecksum (journalImage table row offset newCount) =
        journalChecksum (journalBody table row offset newCount) :=
      journalChecksum_congr fun i outside => by
        unfold JOURNAL_CHECKSUM_AT at outside
        rw [image, if_neg (by omega)]
    rw [same]
    refine field32 fun j inside => ?_
    unfold JOURNAL_CHECKSUM_AT
    rw [image, if_pos (by omega), Nat.add_sub_cancel_left]
  have bound : rowsEnd table.rowCount.toNat < 2 ^ 64 := by
    unfold maxFileSize at small
    omega
  have sized : storageLogicalSize table.rowCount = some (.ofNat (rowsEnd table.rowCount.toNat)) :=
    storageLogicalSize_iff.mpr (toNat_ofNat bound)
  refine ⟨length, ?_⟩
  by_cases same : table.name = tableName
  · simp only [validateJournal, magic, version, size, reserved, checksum, name, previous, intended,
      position, counted,
      placed, sized, toNat_ofNat bound, Nat.not_lt.mpr small, same, ne_eq, not_true_eq_false,
        ↓reduceIte, gt_iff_lt,
      Option.bind_eq_bind, Option.bind_some, Option.pure_def]
  · simp only [validateJournal, magic, version, size, reserved, checksum, name, same, ne_eq,
      not_true_eq_false,
      not_false_eq_true, ↓reduceIte, Option.bind_eq_bind, Option.bind_none]

/-- A journal is accepted by recovery, which then knows the count in front of the row. -/
theorem journalImage_valid (parts : NameParts table.name)
    (counted : utilAddU64 table.rowCount 1 = some newCount)
    (placed : storageOffsetForRow table.rowCount = some offset)
    (small : rowsEnd table.rowCount.toNat ≤ maxFileSize) :
    IsJournal table.name table.rowCount.toNat (journalImage table row offset newCount) := by
  obtain ⟨length, accepted⟩ :=
    @validateJournal_image _ row _ _ parts counted placed small table.name
  exact ⟨length, small, table.rowCount, rfl, by rw [accepted, if_pos rfl]⟩

end Image

/-! ## Damaged journals -/

section Damage

variable {bytes tableName : Bytes} {result : UInt64 × Nat} {i : Nat} {b : UInt8}

private theorem validateJournal_checksum
    (accepted : validateJournal bytes tableName = some result) :
    getU32Le (bytes.drop JOURNAL_CHECKSUM_AT) = journalChecksum bytes := by
  by_contra differs
  simp [validateJournal, differs] at accepted

private theorem getD_set (inside : i < bytes.length) (j : Nat) :
    (bytes.set i b).getD j 0 = if j = i then b else bytes.getD j 0 := by
  simp only [List.getD_eq_getElem?_getD]
  split
  · rename_i same
    rw [same, List.getElem?_set_self inside, Option.getD_some]
  · rename_i other
    rw [List.getElem?_set_ne (Ne.symm other)]

/-- A change of any one byte is noticed: in the checksum field the stored number changes
and the computed one does not, elsewhere it is the other way round. -/
theorem validateJournal_set (length : bytes.length = JOURNAL_SIZE)
    (accepted : validateJournal bytes tableName = some result) (inside : i < JOURNAL_SIZE)
    (other : b ≠ bytes.getD i 0) : validateJournal (bytes.set i b) tableName = none := by
  have bound : i < bytes.length := length ▸ inside
  cases again : validateJournal (bytes.set i b) tableName with
  | none => rfl
  | some found =>
    have stored := validateJournal_checksum accepted
    have stored' := validateJournal_checksum again
    by_cases field : JOURNAL_CHECKSUM_AT ≤ i ∧ i < JOURNAL_CHECKSUM_AT + 4
    · have computed : journalChecksum (bytes.set i b) = journalChecksum bytes :=
        journalChecksum_congr fun j outside => by rw [getD_set bound, if_neg (by omega)]
      have byte := getU32Le_inj (stored'.trans (computed.trans stored.symm))
          (i - JOURNAL_CHECKSUM_AT) (by omega)
      rw [getD_drop, getD_drop, Nat.add_sub_cancel' field.1, getD_set bound, if_pos rfl] at byte
      exact absurd byte other
    · have same : getU32Le ((bytes.set i b).drop JOURNAL_CHECKSUM_AT) =
          getU32Le (bytes.drop JOURNAL_CHECKSUM_AT) :=
        getU32Le_congr fun j within => by
          rw [getD_drop, getD_drop, getD_set bound, if_neg (by omega)]
      have computed : journalChecksum (bytes.set i b) = journalChecksum bytes :=
        stored'.symm.trans (same.trans stored)
      refine absurd computed (checksum_fold_differs inside (fun j _ away => ?_) ?_ _)
      · rw [getD_set bound, if_neg away]
      · rw [if_neg field, if_neg field, getD_set bound, if_pos rfl]
        exact other

end Damage

end SqlEngine
