import SqlEngine.Executor
import SqlEngine.IndexFileProofs

/-! What the parts of a statement do on an open table: the check of an index entry, the
search for an id, the printed rows of a SELECT, and the upkeep of the index. -/
namespace SqlEngine

open Library Program World Posix

variable {faults : Faults} {inv : World → Prop} {w u v x : World} {tableName : Bytes} {h : Nat}
    {path : Path}
  {index : Index} {file : File} {table : Table} {position : Nat}

/-! ## Looking for an id -/

/-- The row with an id, and where it is. -/
structure RowFound (bytes : Bytes) (count : Nat) (id : Int32) (row : Row) (r : Nat) : Prop where
  inside : r < count
  row_at : row = rowAt bytes r
  same_id : row.id = id

theorem RowFound.among {bytes : Bytes} {count r : Nat} {id : Int32} {row : Row}
    (found : RowFound bytes count id row r) :
    row ∈ tableRows bytes count :=
  List.mem_map.mpr ⟨r, List.mem_range.mpr found.inside, found.row_at.symm⟩

private theorem offset_toInt64 {r count : Nat} (inside : r < count)
    (whole : rowsEnd count ≤ file.bytes.length) :
    ¬ (offsetOf r).toInt64 < 0 ∧ (offsetOf r).toInt64.toUInt64 = offsetOf r := by
  refine ⟨?_, UInt64.toUInt64_toInt64 _⟩
  have last := rowOffset_lt_rowsEnd inside
  have fits := file.fits
  unfold maxFileSize at fits
  rw [offsetOf, UInt64.toInt64_ofNat', Int64.lt_iff_toInt_lt, Int64.toInt_ofNat_of_lt (by omega),
    Int64.toInt_zero]
  omega

/-- An index entry is believed only if the row at its offset has the id, and then it is
that row. -/
theorem indexValidateLookup_spec (found : w.file path = some file) (table : Table) (key : Int32)
    (offset : Int64) :
    wp (Steps faults) (Still w) (indexValidateLookup table key offset)
      (fun result v => (∃ p, v = w.cursor table.file path p) ∧
        (∀ row, result = .ok row → ∃ r, RowFound file.bytes table.rowCount.toNat key row r) ∧
        ∀ row r, RowFound file.bytes table.rowCount.toNat key row r →
          rowsEnd table.rowCount.toNat ≤ file.bytes.length →
          offset = (offsetOf r).toInt64 → result = .ok row ∨ faults.calls = true)
      (w.cursor table.file path position) := by
  unfold indexValidateLookup
  split
  · rename_i negative
    refine ⟨rfl, ⟨_, rfl⟩, nofun, ?_⟩
    rintro row r ⟨inside, _⟩ whole rfl
    exact absurd negative (offset_toInt64 inside whole).1
  · unfold storageFileSize
    rw [Program.bind_assoc]
    refine wp_seekEnd found (fun _ => rfl) ?_ fun calls error p =>
      ⟨rfl, ⟨p, rfl⟩, nofun, fun _ _ _ _ _ => .inr calls⟩
    dsimp only
    rw [Program.pure_eq, Program.pure_bind]
    dsimp only
    have fits := file.fits
    unfold maxFileSize at fits
    have size : file.bytes.length.toUInt64.toNat = file.bytes.length := toNat_ofNat (by omega)
    cases valid :
      storageIsValidRowOffset offset.toUInt64 file.bytes.length.toUInt64 table.rowCount with
    | false =>
      refine ⟨rfl, ⟨_, rfl⟩, nofun, ?_⟩
      rintro row r ⟨inside, _⟩ whole rfl
      have position := offsetOf_toNat inside file.bytes whole file.fits
      have last := rowOffset_lt_rowsEnd inside
      rw [(offset_toInt64 inside whole).2,
        storageIsValidRowOffset_iff.mpr ⟨r, inside, position, by omega, by omega⟩] at valid
      cases valid
    | true =>
      obtain ⟨r, inside, same, _⟩ := storageIsValidRowOffset_iff.mp valid
      simp only [Bool.not_true, Bool.false_eq_true, ↓reduceIte]
      refine wp_seq (storageReadRowAtOffset_spec found table offset.toUInt64)
        (fun _ still => still) ?_
      rw [valid]
      rintro result _ _ ⟨⟨p, rfl⟩, rfl | ⟨calls, rfl⟩⟩
      · have slot : ∀ row s, RowFound file.bytes table.rowCount.toNat key row s →
            rowsEnd table.rowCount.toNat ≤ file.bytes.length → offset = (offsetOf s).toInt64 →
            row = rowAt file.bytes r := by
          rintro row s ⟨within, row_at, _⟩ whole rfl
          rw [(offset_toInt64 within whole).2,
            offsetOf_toNat within file.bytes whole file.fits] at same
          rw [row_at, rowOffset_injective same]
        simp only [↓reduceIte, same]
        split
        · rename_i other
          refine ⟨rfl, ⟨p, rfl⟩, nofun, fun row s there whole at_offset => ?_⟩
          have id := there.same_id
          rw [slot row s there whole at_offset] at id
          exact absurd id other
        · rename_i id
          refine ⟨rfl, ⟨p, rfl⟩, ?_, fun row s there whole at_offset => .inl ?_⟩
          · rintro _ ⟨⟩
            exact ⟨r, inside, rfl, of_not_not id⟩
          · rw [slot row s there whole at_offset]
            rfl
      · exact ⟨rfl, ⟨p, rfl⟩, nofun, fun _ _ _ _ _ => .inr calls⟩

/-- The search for an id finds a row with it, or sees every row. -/
theorem storageFindId_spec (found : w.file path = some file)
    (whole : rowsEnd table.rowCount.toNat ≤ file.bytes.length) (id : Int32) :
    wp (Steps faults) (Still w) (storageFindId table id)
      (fun result v => (∃ p, v = w.cursor table.file path p) ∧ match result with
        | .ok (row, offset) => ∃ r, RowFound file.bytes table.rowCount.toNat id row r ∧
            offset = offsetOf r
        | .error .end => id ∉ (tableRows file.bytes table.rowCount.toNat).map Row.id
        | .error _ => faults.calls = true)
      (w.cursor table.file path position) := by
  unfold storageFindId
  rw [storageScanBegin_eq]
  refine wp_seq (forRows_spec path
    (fun i (_ : Unit) v => (∃ p, v = w.cursor table.file path p) ∧
      id ∉ (tableRows file.bytes i).map Row.id)
    (fun hit v => (∃ p, v = w.cursor table.file path p) ∧
      ∃ r, RowFound file.bytes table.rowCount.toNat id hit.1 r ∧ hit.2 = offsetOf r)
    (fun u v still same => same.trans still) whole ?_ ?_ ?_ (Nat.zero_le _) (Nat.le_refl _)
    ⟨⟨position, rfl⟩, List.not_mem_nil⟩) (fun _ still => still) ?_
  · rintro i state _ ⟨⟨p, rfl⟩, _⟩
    exact ⟨rfl, openOn_cursor found p⟩
  · rintro i state _ p ⟨⟨q, rfl⟩, absent⟩
    exact ⟨⟨p, cursor_cursor ..⟩, absent⟩
  · rintro i state _ inside ⟨⟨p, rfl⟩, absent⟩
    by_cases same : (rowAt file.bytes i).id = id
    · rw [if_pos same]
      exact ⟨rfl, ⟨p, rfl⟩, i, ⟨inside, rfl, same⟩, rfl⟩
    · rw [if_neg same]
      refine ⟨rfl, ⟨p, rfl⟩, ?_⟩
      rw [tableRows, List.range_succ, List.map_append, List.map_append, List.mem_append]
      rintro (old | new)
      · exact absent old
      · exact same (List.mem_singleton.mp new).symm
  · rintro (hit | ⟨status, ⟨⟩⟩) v _ outcome
    · exact ⟨outcome.1.choose_spec ▸ rfl, outcome⟩
    · rcases outcome with ⟨rfl, ⟨p, rfl⟩, absent⟩ | ⟨calls, rfl, i, ⟨p, rfl⟩, _⟩
      · exact ⟨rfl, ⟨p, rfl⟩, absent⟩
      · exact ⟨rfl, ⟨p, rfl⟩, calls⟩

private theorem findDuplicate_scan (found : w.file path = some file)
    (whole : rowsEnd table.rowCount.toNat ≤ file.bytes.length) (id : Int32) :
    wp (Steps faults) (Still w) (findDuplicate table id none)
      (fun result v => (∃ p, v = w.cursor table.file path p) ∧ match result with
        | .ok taken => (taken = true ↔ id ∈ (tableRows file.bytes table.rowCount.toNat).map Row.id)
        | .error _ => faults.calls = true)
      (w.cursor table.file path position) := by
  change wp _ _ (storageFindId table id >>= _) _ _
  refine wp_seq (storageFindId_spec found whole id) (fun _ still => still) ?_
  rintro (status | hit) _ _ ⟨⟨p, rfl⟩, outcome⟩
  · cases status with
    | «end» => exact ⟨rfl, ⟨p, rfl⟩, fun taken => Bool.noConfusion taken, fun among =>
      absurd among outcome⟩
    | _ => exact ⟨rfl, ⟨p, rfl⟩, outcome⟩
  · obtain ⟨r, there, _⟩ := outcome
    exact ⟨rfl, ⟨p, rfl⟩, fun _ => List.mem_map.mpr ⟨_, there.among, there.same_id⟩, fun _ => rfl⟩

/-- Whether the id is taken; a wrong index entry does not decide. -/
theorem findDuplicate_spec (found : w.file path = some file)
    (whole : rowsEnd table.rowCount.toNat ≤ file.bytes.length) (id : Int32) (index : Option Index) :
    wp (Steps faults) (Still w) (findDuplicate table id index)
      (fun result v => (∃ p, v = w.cursor table.file path p) ∧ match result with
        | .ok taken => (taken = true ↔ id ∈ (tableRows file.bytes table.rowCount.toNat).map Row.id)
        | .error _ => faults.calls = true)
      (w.cursor table.file path position) := by
  have scanning : ∀ p, wp (Steps faults) (Still w) (findDuplicate table id none) _
      (w.cursor table.file path p) :=
    fun _ => findDuplicate_scan found whole id
  unfold findDuplicate
  split
  · dsimp only
    refine wp_seq (indexValidateLookup_spec found table id _) (fun _ still => still) ?_
    rintro (status | row) _ _ ⟨⟨p, rfl⟩, believed, _⟩
    · exact scanning p
    · obtain ⟨r, there⟩ := believed row rfl
      exact ⟨rfl, ⟨p, rfl⟩, fun _ => List.mem_map.mpr ⟨row, there.among, there.same_id⟩,
        fun _ => rfl⟩
  · exact scanning position

/-! ## The upkeep of the index -/

/-- One key of a map has changed. -/
structure Updated (base : Index) (key : Int32) (fileOffset : Int64) (after : Index) : Prop where
  valid : after.Valid
  named : after.tableName = base.tableName
  maps : ∀ k, after.find k = if k = key then some fileOffset else base.find k
  counted : after.entryCount = base.entryCount + if base.find key = none then 1 else 0

/-- The index that an insertion starts from: the one that was loaded, or an empty one. -/
def StartsFrom (loaded : Option Index) (tableName : Bytes) (base : Index) : Prop :=
  loaded = some base ∨ loaded = none ∧ IndexOf [] tableName base

/-- The bytes that the upkeep of an index writes. -/
def Maintained (loaded : Option Index) (tableName : Bytes) (id : Int32) (offset : UInt64)
    (bytes : Bytes) : Prop :=
  ∃ base after, StartsFrom loaded tableName base ∧ Updated base id offset.toInt64 after ∧
    Image after bytes

/-- The message for a row that was inserted and indexed. -/
def insertedText (id : Int32) : Bytes :=
  str "Row inserted successfully (id=" ++ decimal id ++ str ")." ++ newline

/-- What the upkeep of an index comes to. -/
def IndexMaintained (faults : Faults) (loaded : Option Index) (tableName : Bytes) (id : Int32)
    (offset : UInt64)
    (w : World) (status : ExecStatus) (v : World) : Prop :=
  ∃ x text, v = x.printed text ∧ AroundIndex tableName (Maintained loaded tableName id offset) w x ∧
    (faults.calls = true ∨ Tidy tableName w x ∧
      ((∀ base, loaded = some base → base.entryCount < UINT32_MAX) →
        status = .ok ∧ text = insertedText id))

private theorem inserted_updated {base after : Index} {key : Int32} {fileOffset : Int64}
    {replace refusals : Bool} {status : IndexStatus}
    (inserted : Inserted base key fileOffset replace refusals status after) (done : status = .ok) :
    Updated base key fileOffset after := by
  obtain ⟨valid, named, ⟨wrong, _⟩ | ⟨_, _, maps, counted⟩ | ⟨wrong, _⟩⟩ := inserted
  · rw [wrong] at done
    cases done
  · exact ⟨valid, named, maps, counted⟩
  · rw [wrong] at done
    cases done

private theorem maintain_persist {base after : Index} {id : Int32} {offset : UInt64}
    {loaded : Option Index} (valid : storageValidTableName tableName = true)
    (starts : StartsFrom loaded tableName base) (named : base.tableName = tableName)
    (updated : Updated base id offset.toInt64 after)
    (possible : faults.calls = true ∨ Spare (indexPath tableName) w) :
    wp (Steps faults) (IndexKept tableName (Maintained loaded tableName id offset) w)
      (show Prog ExecStatus from do
      if (← indexPersist after) ≠ .ok then
        print (insertWarningText id (str "persistence failed"))
        return .indexPersistFailed
      print (str "Row inserted successfully (id=" ++ decimal id ++ str ")." ++ newline)
      return .ok)
      (IndexMaintained faults loaded tableName id offset w) w := by
  obtain rfl : after.tableName = tableName := updated.named.trans named
  have image : ∀ bytes, Image after bytes → Maintained loaded after.tableName id offset bytes :=
    fun bytes same => ⟨base, after, starts, updated, same⟩
  dsimp only
  refine wp_seq (indexPersist_spec valid updated.valid possible)
    (fun v around => (around.mono image).kept) ?_
  rintro status v _ ⟨around, _, tidy, _⟩
  have around := around.mono image
  split
  · rename_i failed
    refine wp_print around.kept ⟨around.kept, v, _, rfl, around, ?_⟩
    rcases tidy with calls | ⟨tidy, done | large⟩
    · exact .inl calls
    · exact absurd done failed
    · refine .inr ⟨tidy, fun small => ?_⟩
      have counted := updated.counted
      rcases starts with rfl | ⟨_, empty⟩
      · have below := small base rfl
        split at counted <;> omega
      · have none_yet : base.entryCount = 0 := empty.counted
        unfold UINT32_MAX at large
        split at counted <;> omega
  · exact wp_print around.kept ⟨around.kept, v, _, rfl, around,
      tidy.imp_right fun tidy => ⟨tidy.1, fun _ => ⟨rfl, rfl⟩⟩⟩

private theorem indexCreate_spec {refusals : Bool}
    (valid : storageValidTableName tableName = true) :
    wp (Grants refusals) (fun _ => True) (indexCreate tableName)
      (fun result _ => (∀ index, result = some index → IndexOf [] tableName index) ∧
        (result = none → refusals = true)) () := by
  refine wp_mono (indexCreateSized_exact valid (utilCopyChecked_valid valid) 0)
    (fun _ holds => holds) ?_
  rintro result _ _ ⟨created, refused⟩
  exact ⟨fun index found => .empty (created index found),
    fun gone => (refused gone).resolve_right (Nat.not_lt_zero _)⟩

/-- The upkeep of the index behind an insertion. -/
theorem maintainIndex_spec {loaded : Option Index} (valid : storageValidTableName tableName = true)
    (sound : ∀ base, loaded = some base → base.Valid ∧ base.tableName = tableName) (id : Int32)
    (offset : UInt64) (possible : faults.calls = true ∨ Spare (indexPath tableName) w) :
    wp (Steps faults) (IndexKept tableName (Maintained loaded tableName id offset) w)
      (maintainIndex loaded tableName id offset)
        (IndexMaintained faults loaded tableName id offset w) w := by
  have here : IndexKept tableName (Maintained loaded tableName id offset) w w := .still rfl
  have tidy : Tidy tableName w w := fun _ _ gone => gone
  have around : AroundIndex tableName (Maintained loaded tableName id offset) w w :=
    .quiet (.refl w)
  have upkeep : ∀ base : Index, base.Valid → StartsFrom loaded tableName base →
      base.tableName = tableName →
      wp (Steps faults) (IndexKept tableName (Maintained loaded tableName id offset) w)
        (maintainIndex (some base) tableName id offset)
          (IndexMaintained faults loaded tableName id offset w) w := by
    intro base valid_base starts named
    unfold maintainIndex
    dsimp only
    rw [Program.pure_eq, Program.pure_bind]
    refine wp_liftMemory (indexInsert_spec valid_base id offset.toInt64 false) here ?_
    rintro ⟨status, after⟩ inserted
    -- an entry that was there is replaced
    by_cases there : status = .duplicateKey
    · subst there
      obtain ⟨_, _, ⟨_, _, known, rfl⟩ | ⟨wrong, _⟩ | ⟨wrong, _⟩⟩ := inserted
      · simp only [↓reduceIte]
        refine wp_liftMemory (indexInsert_spec valid_base id offset.toInt64 true) here ?_
        rintro ⟨status, replaced⟩ inserted
        obtain ⟨_, wrong, _⟩ | ⟨rfl, _⟩ | ⟨_, absent, _⟩ := inserted.outcome
        · cases wrong
        · exact maintain_persist valid starts named (inserted_updated inserted rfl) possible
        · exact absurd absent known
      · cases wrong
      · cases wrong
    · rw [if_neg there]
      dsimp only
      rw [Program.pure_eq, Program.pure_bind]
      obtain ⟨rfl, _⟩ | ⟨rfl, _⟩ | ⟨rfl, absent, _, refused⟩ := inserted.outcome
      · exact absurd rfl there
      · exact maintain_persist valid starts named (inserted_updated inserted rfl) possible
      · refine wp_print here ⟨here, w, _, rfl, around, ?_⟩
        rcases refused with calls | large
        · exact .inl calls
        · refine .inr ⟨tidy, fun small => ?_⟩
          rcases starts with rfl | ⟨_, empty⟩
          · have below := small base rfl
            unfold UINT32_MAX at below
            omega
          · have none_yet : base.entryCount = 0 := empty.counted
            omega
  cases loaded with
  | some base => exact upkeep base (sound base rfl).1 (.inl rfl) (sound base rfl).2
  | none =>
    unfold maintainIndex
    dsimp only
    refine wp_liftMemory (indexCreate_spec valid) here ?_
    rintro (_ | base) ⟨created, refused⟩
    · refine wp_print here ⟨here, w, _, rfl, around, .inl (refused rfl)⟩
    · exact upkeep base (created base rfl).valid (.inr ⟨rfl, created base rfl⟩)
        (created base rfl).named

end SqlEngine
