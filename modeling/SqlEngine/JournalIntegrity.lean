import SqlEngine.Library.Replay
import SqlEngine.JournalFile
import SqlEngine.TableInvariant

/-! What a journal is worth: it is accepted for its own table only, every small damage to
it is noticed, and it alone decides how many rows a recovered table shows. -/
namespace SqlEngine

open Library Program World Posix

variable {faults : Faults} {w v : World} {tableName bytes other : Bytes} {h position : Nat}
    {file journal : File}
  {count : UInt64} {size n : Nat}

/-! ## The table behind recovery -/

/-- Recovery leaves a header with the count, and the size for so many rows. -/
theorem rolledBack_header (accepted : acceptedJournal bytes tableName = some (count, size))
    (content : Bytes) :
    (rolledBack content count size).length = size ∧
      (headerOf (rolledBack content count size)).count = count := by
  obtain ⟨_, sized, _⟩ := acceptedJournal_size accepted
  have least : 64 ≤ size := sized ▸ rowsEnd_mono (Nat.zero_le _)
  refine ⟨length_resize ..,
    UInt64.toNat_inj.mp (count_of_fits (fun i b fixed => ?_) count.toNat_lt)⟩
  have within := countByte_bounds fixed
  rw [rolledBack, getD_resize _ _ _ (by omega), getD_patch,
    if_pos (by rw [length_headerBytes]; omega), Nat.sub_zero]
  exact getD_headerBytes fixed

/-- Rows that were in the file, and are in front of the new end, are kept. -/
theorem tableRows_rolledBack (content : Bytes) (count : UInt64)
    (before : rowsEnd n ≤ content.length) (after : rowsEnd n ≤ size) :
    tableRows (rolledBack content count size) n = tableRows content n := by
  refine List.map_congr_left fun r among => ?_
  have last := rowOffset_lt_rowsEnd (List.mem_range.mp among)
  have least := rowOffset_ge r
  have length : (rolledBack content count size).length = size := length_resize ..
  have slot : slice (rolledBack content count size) (rowOffset r) 36 =
      slice content (rowOffset r) 36 := by
    refine slice_congr (by omega) (by omega) fun i inside => ?_
    rw [rolledBack, getD_resize _ _ _ (by omega), getD_patch,
      if_neg (by rw [length_headerBytes]; omega)]
  rw [rowAt, rowAt, slot]

private theorem tableRows_dropLast (bytes : Bytes) (n : Nat) :
    (tableRows bytes (n + 1)).dropLast = tableRows bytes n := by
  rw [tableRows, List.range_succ, List.map_append, List.map_singleton, List.dropLast_concat]
  rfl

/-! ## A directory with one table and its journal -/

private def fileOf (bytes : Bytes) (fits : bytes.length ≤ maxFileSize) : File :=
  { bytes, older := [], fits }

private def journaledWorld (table journal : File) : World :=
  (World.empty.setEntry (tablePath (str "t")) { now := some table, before := [] }).setEntry
    (journalPath (str "t"))
    { now := some journal, before := [] }

private def blankRow : Row := .nameless 7

private def tableOf (rowCount : UInt64) : Table :=
  { name := str "t", file := 0, rowCount, writable := true }

/-- The journal of an insertion behind no row. -/
private def firstJournal : File :=
  fileOf (journalImage (tableOf 0) blankRow 64 1) (by decide +kernel)

private def oneRowTable : File := fileOf (headerBytes 1 ++ (7 :: List.replicate 35 0)) (by decide)

/-- The directory of a table with one row, whose insertion has left its journal, and the
table open as the first stream. -/
private def recoveringWorld (journal : File) : World :=
  { journaledWorld oneRowTable journal with next := 1 }.cursor 0 (tablePath (str "t")) 0

/-! ## Names -/

section Names

variable {table : Table} {row : Row} {offset newCount : UInt64}

/-- The numbers with which an insertion into a table reaches its journal. -/
structure Numbered (table : Table) (offset newCount : UInt64) : Prop where
  placed : storageOffsetForRow table.rowCount = some offset
  seekable : offset.toNat ≤ LONG_MAX
  counted : utilAddU64 table.rowCount 1 = some newCount

private theorem Numbered.small (numbered : Numbered table offset newCount) :
    rowsEnd table.rowCount.toNat ≤ offset.toNat ∧ rowsEnd table.rowCount.toNat ≤ maxFileSize := by
  have position := storageOffsetForRow_iff.mp numbered.placed
  have ends := rowsEnd_le_rowOffset table.rowCount.toNat
  have bound : offset.toNat ≤ maxFileSize := numbered.seekable
  omega

private theorem acceptedJournal_image (row : Row) (valid : storageValidTableName table.name = true)
    (numbered : Numbered table offset newCount) (tableName : Bytes) :
    (journalImage table row offset newCount).length = JOURNAL_SIZE ∧
      acceptedJournal (journalImage table row offset newCount) tableName =
        if table.name = tableName then some (table.rowCount, rowsEnd table.rowCount.toNat)
          else none := by
  obtain ⟨length, which⟩ :=
    @validateJournal_image _ row _ _ (storageValidTableName_parts valid) numbered.counted
    numbered.placed numbered.small.2 tableName
  exact ⟨length, by rw [acceptedJournal, if_pos length, which]⟩

private theorem persistInsertJournal_image (valid : storageValidTableName table.name = true)
    (numbered : Numbered table offset newCount)
    (ran : Returns (Steps .any) (persistInsertJournal table row offset newCount) w (.ok ()) v) :
    ∃ journal, v.file (journalPath table.name) = some journal ∧
      journal.bytes = journalImage table row offset newCount := by
  have length := (acceptedJournal_image row valid numbered table.name).1
  have there : ∀ u, Placed table.name (journalImage table row offset newCount) w u →
      ∃ journal, u.file (journalPath table.name) = some journal ∧
        journal.bytes = journalImage table row offset newCount := by
    rintro u ⟨_, x, after, _, ne, _, rfl, _, written⟩
    exact ⟨after, by rw [World.file, entries_rebind_ne (Ne.symm ne), ← World.file, file_rebind],
      written⟩
  obtain ⟨_, ⟨u, placed, rfl⟩ | ⟨_, placed⟩⟩ :=
    wp_returns (persistInsertJournal_places valid length (.inl rfl)) ran
  · exact there u placed
  · exact there v placed

/-- The journal of an insertion is accepted for its own table only: there it goes back to
the rows in front of the insertion, and elsewhere it is reported and nothing is touched. -/
theorem journal_own_table_only (row : Row) (valid : storageValidTableName table.name = true)
    (validOther : storageValidTableName other = true) (numbered : Numbered table offset newCount) :
    (∀ w v, Returns (Steps .any) (persistInsertJournal table row offset newCount) w (.ok ()) v →
        ∃ journal, v.file (journalPath table.name) = some journal ∧
          journal.bytes = journalImage table row offset newCount) ∧
      (journalImage table row offset newCount).length = 128 ∧
      ∃ size : UInt64, storageLogicalSize table.rowCount = some size ∧ size ≤ offset ∧
        (∀ r at', r < table.rowCount → storageOffsetForRow r = some at' →
          at'.toNat + 36 ≤ size.toNat) ∧
        ∀ w h file journal, w.file (tablePath other) = some file →
          w.file (journalPath other) = some journal →
          journal.bytes = journalImage table row offset newCount → h < w.next →
          w.streams h = some { path := tablePath other, position := 0, pending := [] } →
          (∃ result v, Returns (Steps .none) (recoverInsertJournal h other) w result v) ∧
            ∀ result v, Returns (Steps .none) (recoverInsertJournal h other) w result v →
              (result = .ok () ↔ table.name = other) ∧
              (table.name = other → ∃ after, v.file (tablePath other) = some after ∧
                (headerOf after.bytes).count = table.rowCount ∧ after.bytes.length = size.toNat) ∧
              (table.name ≠ other → result = .error .corrupt ∧ v.entries = w.entries) := by
  obtain ⟨length, accepted⟩ := acceptedJournal_image row valid numbered other
  obtain ⟨below, small⟩ := numbered.small
  have bound : rowsEnd table.rowCount.toNat < 2 ^ 64 := Nat.lt_of_le_of_lt below offset.toNat_lt
  have sized := toNat_ofNat bound
  refine ⟨fun w v ran => persistInsertJournal_image valid numbered ran, length,
    .ofNat (rowsEnd table.rowCount.toNat),
    storageLogicalSize_iff.mpr sized, ?_, fun r at' inside placed => ?_, ?_⟩
  · rw [UInt64.le_iff_toNat_le, sized]
    exact below
  · rw [storageOffsetForRow_iff.mp placed, sized]
    exact rowOffset_lt_rowsEnd (UInt64.lt_iff_toNat_lt.mp inside)
  · intro w h file journal found journaled image old stream
    rw [← image] at accepted
    by_cases same : table.name = other
    · rw [if_pos same] at accepted
      have verified : wp (Steps .none) _ (recoverInsertJournal h other) _ w :=
        recoverInsertJournal_rollsBack validOther found journaled accepted old stream
      refine ⟨wp_progress verified, fun result v ran => ?_⟩
      obtain ⟨_, outcome⟩ := wp_returns verified ran
      rcases result with _ | _
      · cases outcome
      · obtain ⟨after, there, bytes⟩ := outcome.table
        obtain ⟨size, count⟩ := rolledBack_header accepted file.bytes
        exact ⟨iff_of_true rfl same, fun _ =>
          ⟨after, there, by rw [bytes, count], by rw [bytes, size, sized]⟩,
          fun differs => absurd same differs⟩
    · rw [if_neg same] at accepted
      have verified : wp (Steps .none) _ (recoverInsertJournal h other) _ w :=
        recoverInsertJournal_refuses validOther journaled accepted
      refine ⟨wp_progress verified, fun result v ran => ?_⟩
      obtain ⟨still, _, rfl | ⟨calls, _⟩⟩ := wp_returns verified ran
      · exact ⟨iff_of_false nofun same, fun equal => absurd equal same, fun _ => ⟨rfl, still⟩⟩
      · cases calls

private def restoredWorld : World :=
  replayed .none (recoverInsertJournal 0 (str "t")) [] (recoveringWorld firstJournal)

/-- The journal of the first row takes a table back to its header. -/
theorem journal_own_table_only_one :
    ∃ after, restoredWorld.file (tablePath (str "t")) = some after ∧
    (headerOf after.bytes).count = 0 ∧ after.bytes.length = (64 : UInt64).toNat := by
  have ran : Returns (Steps .none) (recoverInsertJournal 0 (str "t"))
      (recoveringWorld firstJournal) (.ok ())
      restoredWorld := replayed_returns (by decide +kernel)
  have valid : storageValidTableName (str "t") = true := by decide
  have numbered : Numbered (tableOf 0) 64 1 := ⟨by decide, by decide, by decide⟩
  obtain ⟨_, _, size, sized, _, _, recovers⟩ := journal_own_table_only blankRow valid valid numbered
  obtain ⟨_, each⟩ :=
    recovers (recoveringWorld firstJournal) 0 oneRowTable firstJournal rfl rfl rfl (by decide) rfl
  obtain rfl : size = 64 := Option.some.inj (sized.symm.trans (by decide))
  exact (each _ _ ran).2.1 rfl

end Names

/-! ## Damage -/

/-- A journal with another byte in one place, cut short, or with more behind it. -/
inductive Damaged (bytes : Bytes) : Bytes → Prop where
  | changed {i : Nat} {b : UInt8} (inside : i < bytes.length) (differs : b ≠ bytes.getD i 0) :
      Damaged bytes (bytes.set i b)
  | shortened {k : Nat} (less : k < bytes.length) : Damaged bytes (bytes.take k)
  | extended {more : Bytes} (nonempty : more ≠ []) : Damaged bytes (bytes ++ more)

private theorem acceptedJournal_damaged {result : UInt64 × Nat}
    (accepted : acceptedJournal bytes tableName = some result)
    (damage : Damaged bytes other) : acceptedJournal other tableName = none := by
  unfold acceptedJournal at accepted ⊢
  split at accepted
  · rename_i length
    cases damage with
    | changed inside differs =>
      rw [if_pos (by rw [List.length_set, length]),
        validateJournal_set length accepted (length ▸ inside) differs]
    | shortened less => rw [if_neg (by rw [List.length_take]; omega)]
    | extended nonempty =>
      have longer := List.length_pos_of_ne_nil nonempty
      rw [if_neg (by rw [List.length_append]; omega)]
  · cases accepted

private theorem acceptedJournal_of_returns (valid : storageValidTableName tableName = true)
    (journaled : w.file (journalPath tableName) = some journal)
    (ran : Returns (Steps faults) (recoverInsertJournal h tableName) w (.ok ()) v) :
    ∃ result, acceptedJournal journal.bytes tableName = some result := by
  cases accepted : acceptedJournal journal.bytes tableName with
  | some result => exact ⟨result, rfl⟩
  | none =>
    obtain ⟨_, _, refused | ⟨_, refused⟩⟩ :=
      wp_returns (recoverInsertJournal_refuses valid journaled accepted) ran <;>
      cases refused

/-- A journal that differs from an accepted one in a byte, or in its length, is reported
before anything is touched, wherever recovery is stopped. -/
theorem damaged_journal_refused {faults' : Faults} {u : World} {g : Nat} {damaged : File}
    (valid : storageValidTableName tableName = true)
    (journaled : w.file (journalPath tableName) = some journal)
    (ran : Returns (Steps faults) (recoverInsertJournal h tableName) w (.ok ()) v)
    (damage : Damaged journal.bytes damaged.bytes)
    (instead : u.file (journalPath tableName) = some damaged) :
    (∃ result x, Returns (Steps faults') (recoverInsertJournal g tableName) u result x) ∧
      (∀ result x, Returns (Steps faults') (recoverInsertJournal g tableName) u result x →
        x.entries = u.entries ∧
          (result = .error .corrupt ∨ faults'.calls = true ∧ result = .error .durabilityError)) ∧
      ∀ x, Stops (Steps faults') (recoverInsertJournal g tableName) u x →
        x.entries = u.entries := by
  obtain ⟨_, accepted⟩ := acceptedJournal_of_returns valid journaled ran
  have refused : wp (Steps faults') _ (recoverInsertJournal g tableName) _ u :=
    recoverInsertJournal_refuses valid instead (acceptedJournal_damaged accepted damage)
  refine ⟨wp_progress refused, fun result x ran => ?_, fun x stopped =>
    (wp_stops refused stopped : Still u x)⟩
  obtain ⟨still, _, which⟩ := wp_returns refused ran
  exact ⟨still, which⟩

private def damagedJournal : File := fileOf (firstJournal.bytes.set 100 1) (by decide +kernel)

private def refusedWorld : World :=
  replayed .none (recoverInsertJournal 0 (str "t")) [] (recoveringWorld damagedJournal)

/-- A journal with another byte in its row is refused. -/
theorem damaged_journal_refused_one :
    refusedWorld.entries = (recoveringWorld damagedJournal).entries := by
  have ran : Returns (Steps .none) (recoverInsertJournal 0 (str "t"))
      (recoveringWorld firstJournal) (.ok ())
      restoredWorld := replayed_returns (by decide +kernel)
  have again : Returns (Steps .none) (recoverInsertJournal 0 (str "t"))
      (recoveringWorld damagedJournal)
      (.error .corrupt) refusedWorld := replayed_returns (by decide +kernel)
  have damage : Damaged firstJournal.bytes damagedJournal.bytes :=
    .changed (by decide +kernel) (by decide +kernel)
  exact ((damaged_journal_refused (by decide) rfl ran damage rfl).2.1 _ _ again).1

/-! ## Rows -/

/-- The row count that a journal goes back to. -/
def previousCountOf (journal : Bytes) : UInt64 := getU64Le (journal.drop 16)

/-- An opening for writing that found a journal shows the rows that the header counted
before, or these without the last. -/
def RecoversRows : Prop :=
  ∀ tableName w file count journal table v after, storageValidTableName tableName = true →
    w.file (tablePath tableName) = some file → acceptedCount file.bytes = .ok count →
    w.file (journalPath tableName) = some journal →
    Returns (Steps .none) (storageOpenTable tableName) w (.ok table) v →
    v.file (tablePath tableName) = some after →
    tableRows after.bytes table.rowCount.toNat = tableRows file.bytes count.toNat ∨
      tableRows after.bytes table.rowCount.toNat = (tableRows file.bytes count.toNat).dropLast

private theorem recovers_rows_iff {content : Bytes} {rowCount : UInt64}
    (accepted : acceptedCount file.bytes = .ok count)
    (journaled : w.file (journalPath tableName) = some journal)
    (recovered : Recovers tableName w file content)
    (counted : acceptedCount content = .ok rowCount) :
    (tableRows content rowCount.toNat = tableRows file.bytes count.toNat ∨
        tableRows content rowCount.toNat = (tableRows file.bytes count.toNat).dropLast) ↔
      ((previousCountOf journal.bytes).toNat = count.toNat ∨
        (previousCountOf journal.bytes).toNat + 1 = count.toNat) := by
  cases recovered with
  | clean gone =>
    rw [journaled] at gone
    cases gone
  | @rolledBack found previous size foundJ usable =>
    obtain rfl : found = journal := Option.some.inj (foundJ.symm.trans journaled)
    obtain ⟨named, sized, _⟩ := acceptedJournal_size usable
    obtain rfl : rowCount = previous := by
      rw [(acceptedCount_iff.mp counted).2.2.1, (rolledBack_header usable file.bytes).2]
    have whole := (acceptedCount_iff.mp accepted).2.2.2.2
    rw [previousCountOf, ← named]
    constructor
    · rintro (same | same)
      · have lengths := congrArg List.length same
        rw [length_tableRows, length_tableRows] at lengths
        exact .inl lengths
      · have lengths := congrArg List.length same
        rw [List.length_dropLast, length_tableRows, length_tableRows] at lengths
        omega
    · rintro (same | less)
      · left
        rw [tableRows_rolledBack file.bytes rowCount (same ▸ whole) (Nat.le_of_eq sized.symm), same]
      · right
        have fewer : rowsEnd rowCount.toNat ≤ rowsEnd count.toNat := rowsEnd_mono (by omega)
        rw [tableRows_rolledBack file.bytes rowCount (by omega) (Nat.le_of_eq sized.symm), ← less,
          tableRows_dropLast]

/-- Recovery shows the rows that were there, or these without the last, exactly if the
journal goes back to their number or to one less. -/
theorem recovery_rows_iff {table : Table} {after : File}
    (valid : storageValidTableName tableName = true)
    (found : w.file (tablePath tableName) = some file)
    (accepted : acceptedCount file.bytes = .ok count)
    (journaled : w.file (journalPath tableName) = some journal)
    (ran : Returns (Steps .none) (storageOpenTable tableName) w (.ok table) v)
    (there : v.file (tablePath tableName) = some after) :
    (tableRows after.bytes table.rowCount.toNat = tableRows file.bytes count.toNat ∨
        tableRows after.bytes table.rowCount.toNat = (tableRows file.bytes count.toNat).dropLast) ↔
      ((previousCountOf journal.bytes).toNat = count.toNat ∨
        (previousCountOf journal.bytes).toNat + 1 = count.toNat) := by
  obtain ⟨_, opened⟩ := wp_returns (storageOpenTable_opens valid) ran
  obtain ⟨_, ⟨other, there', found', after', recovered, counted⟩, _, _⟩ := opened table rfl
  rw [found, Option.some.injEq] at found'
  rw [there, Option.some.injEq] at after'
  subst found' after'
  exact recovers_rows_iff accepted journaled recovered counted

private def undoneWorld : World :=
  replayed .none (storageOpenTable (str "t")) [] (journaledWorld oneRowTable firstJournal)

/-- An insertion whose journal was left behind is undone. -/
theorem recovery_rows_one : ∃ after, undoneWorld.file (tablePath (str "t")) = some after ∧
    (tableRows after.bytes 0 = tableRows oneRowTable.bytes 1 ∨
      tableRows after.bytes 0 = (tableRows oneRowTable.bytes 1).dropLast) := by
  obtain ⟨after, there⟩ := Option.isSome_iff_exists.mp
    (show (undoneWorld.file (tablePath (str "t"))).isSome = true by decide +kernel)
  have ran : Returns (Steps .none) (storageOpenTable (str "t"))
      (journaledWorld oneRowTable firstJournal)
      (.ok (tableOf 0)) undoneWorld := replayed_returns (by decide +kernel)
  have accepted : acceptedCount oneRowTable.bytes = .ok 1 := by decide +kernel
  have journaled : (journaledWorld oneRowTable firstJournal).file (journalPath (str "t")) =
      some firstJournal := rfl
  exact ⟨after, there, (recovery_rows_iff (by decide) rfl accepted journaled ran there).mpr
    (.inr (by decide +kernel))⟩

/-- The journal of an insertion behind one row. -/
private def secondJournal : File :=
  fileOf (journalImage (tableOf 1) blankRow 100 2) (by decide +kernel)

private def extendedWorld : World :=
  replayed .none (storageOpenTable (str "t")) [] (journaledWorld rowlessFile secondJournal)

/-- A journal that counts more rows than the table has makes up a row. -/
theorem recovery_fabricates_row : ¬ RecoversRows := by
  intro claim
  obtain ⟨after, there⟩ := Option.isSome_iff_exists.mp
    (show (extendedWorld.file (tablePath (str "t"))).isSome = true by decide +kernel)
  have ran : Returns (Steps .none) (storageOpenTable (str "t"))
      (journaledWorld rowlessFile secondJournal)
      (.ok (tableOf 1)) extendedWorld := replayed_returns (by decide +kernel)
  have accepted : acceptedCount rowlessFile.bytes = .ok 0 := by decide +kernel
  rcases claim (str "t") _ rowlessFile 0 secondJournal _ _ after
      (by decide) rfl accepted rfl ran there with same | same
  · exact absurd (congrArg List.length same) (by rw [length_tableRows, length_tableRows]; decide)
  · exact absurd (congrArg List.length same)
      (by rw [List.length_dropLast, length_tableRows, length_tableRows]; decide)

end SqlEngine
