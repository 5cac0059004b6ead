import SqlEngine.IndexExactness

/-! Rebuilding an index from the path of a table. Only the base name of the path is used,
so the rows that are indexed are those of the table of that name in the current directory,
whatever directory the path names. -/
namespace SqlEngine

open Library Program World Posix

/-! ## The name in a path -/

/-- The paths of a table file: in the current directory, or in another. -/
inductive PathOf (tableName : Bytes) : Bytes → Prop where
  | here : PathOf tableName (tablePath tableName)
  | inside (directory : Bytes) : PathOf tableName (directory ++ 47 :: tablePath tableName)

variable {faults : Faults} {w u v : World} {tableName directory path target base : Bytes}
    {index : Index}
  {file : File} {bytes : Bytes} {rows here : List Row} {count : Nat}

private theorem lastSlash_base (free : 47 ∉ base) :
    lastSlash (directory ++ 47 :: base) = some directory.length := by
  have turned : (directory ++ 47 :: base).reverse = base.reverse ++ 47 :: directory.reverse :=
    by simp
  have slash : (directory ++ 47 :: base).reverse.idxOf 47 = base.length := by
    rw [turned, List.idxOf_append_of_notMem (by simpa using free), List.idxOf_cons_self,
      List.length_reverse,
      Nat.add_zero]
  have member : 47 ∈ directory ++ 47 :: base := by simp
  rw [lastSlash, if_pos member, slash, List.length_append, List.length_cons]
  congr 1
  omega

private theorem tableNameFromPath_inside (free : 47 ∉ base) (size : Nat) :
    tableNameFromPath (directory ++ 47 :: base) size = tableNameFromPath base size := by
  have none : lastSlash base = none := by simp [lastSlash, free]
  have behind : (directory ++ 47 :: base).drop (directory.length + 1) = base := by
    rw [← List.drop_drop, List.drop_left]
    rfl
  unfold tableNameFromPath
  simp only [lastSlash_base free, none, behind]

/-- From a path of a table its name is read back. -/
theorem PathOf.name (named : PathOf tableName path)
    (valid : storageValidTableName tableName = true) :
    tableNameFromPath path SQL_TABLE_NAME_CAPACITY = some tableName := by
  cases named with
  | here => exact tableNameFromPath_valid valid
  | inside =>
    have free := tablePath_noSlash (storageValidTableName_parts valid)
    exact (tableNameFromPath_inside free _).trans (tableNameFromPath_valid valid)

/-! ## What is indexed -/

/-- A file holds an accepted table of these rows. -/
def StoredRows (w : World) (path : Path) (rows : List Row) : Prop :=
  ∃ file count, w.file path = some file ∧ acceptedCount file.bytes = .ok count ∧
    rows = tableRows file.bytes count.toNat

theorem StoredRows.unique (stored : StoredRows w path rows) (again : StoredRows w path here) :
    rows = here := by
  obtain ⟨file, count, found, accepted, rfl⟩ := stored
  obtain ⟨file', count', found', accepted', rfl⟩ := again
  rw [found, Option.some.injEq] at found'
  rw [← found', accepted, Except.ok.injEq] at accepted'
  rw [found', accepted']

/-- A version-1 index file whose entries are the ids of some rows with their offsets. -/
structure IndexesRows (bytes : Bytes) (rows : List Row) : Prop where
  formed : IndexFileFor bytes rows.length
  exact : ∀ key fileOffset, { key, fileOffset } ∈ indexEntries bytes rows.length ↔
    ∃ r row, rows[r]? = some row ∧ row.id = key ∧ fileOffset = (offsetOf r).toInt64

private theorem IndexesRows.congr (indexes : IndexesRows bytes here)
    (same : rows.map Row.id = here.map Row.id) :
    IndexesRows bytes rows := by
  -- The rows that an index file was made from count only by their ids.
  have length : rows.length = here.length := by simpa using congrArg List.length same
  refine ⟨length ▸ indexes.formed, fun key fileOffset => ?_⟩
  rw [length, indexes.exact]
  have slots : ∀ r, (rows[r]?).map Row.id = (here[r]?).map Row.id := fun r => by
    rw [← List.getElem?_map, ← List.getElem?_map, same]
  have each : ∀ r : Nat, (∃ row : Row, here[r]? = some row ∧ row.id = key) ↔ ∃ row : Row,
      rows[r]? = some row ∧ row.id = key := by
    intro r
    rw [← Option.map_eq_some_iff, ← Option.map_eq_some_iff, slots]
  constructor
  · rintro ⟨r, row, found, id, offset⟩
    obtain ⟨other, found, id⟩ := (each r).mp ⟨row, found, id⟩
    exact ⟨r, other, found, id, offset⟩
  · rintro ⟨r, row, found, id, offset⟩
    obtain ⟨other, found, id⟩ := (each r).mpr ⟨row, found, id⟩
    exact ⟨r, other, found, id, offset⟩

private theorem IndexesRows.ids (whole : rowsEnd here.length ≤ bytes.length)
    (fits : bytes.length ≤ maxFileSize) {image : Bytes} (indexes : IndexesRows image here)
    (also : IndexesRows image rows) :
    rows.map Row.id = here.map Row.id := by
  have length : rows.length = here.length := also.formed.counted.symm.trans indexes.formed.counted
  apply List.ext_getElem?
  intro r
  rw [List.getElem?_map, List.getElem?_map]
  by_cases inside : r < rows.length
  · have slot : rows[r]? = some rows[r] := List.getElem?_eq_getElem inside
    have entry := (also.exact rows[r].id _).mpr ⟨r, rows[r], slot, rfl, rfl⟩
    rw [length] at entry
    obtain ⟨s, row, found, id, offset⟩ := (indexes.exact _ _).mp entry
    have within := (List.getElem?_eq_some_iff.mp found).1
    obtain rfl := offsetOf_injective whole fits (length ▸ inside) within offset
    rw [slot, found, Option.map_some, Option.map_some, id]
  · rw [List.getElem?_eq_none (by omega), List.getElem?_eq_none (by omega)]

private theorem IndexOf.indexes (index_of : IndexOf rows tableName index)
    (image : Image index bytes) :
    IndexesRows bytes rows := by
  obtain ⟨rfl, few⟩ := image
  refine ⟨index_of.counted ▸ indexImage_for index_of.valid few, fun key fileOffset => ?_⟩
  rw [← index_of.counted, index_of.valid.counted, indexEntries_image, ← index_of.exact]
  constructor
  · intro among
    rw [Index.find, (Chaining.search_iff index_of.valid.chained).mpr ⟨among, rfl⟩]
    rfl
  · intro found
    obtain ⟨node, searched, rfl⟩ := Option.map_eq_some_iff.mp found
    obtain ⟨among, rfl⟩ := (Chaining.search_iff index_of.valid.chained).mp searched
    exact among

/-! ## The rebuild -/

private theorem wp_syncAnyDirectory {α : Type} {next : Bool → Prog α} {post : α → World → Prop}
    {inv : World → Prop} (holds : inv w)
    (each : ∀ done v, v = w ∨ v = w.syncDirectory → wp (Steps faults) inv (next done) post v) :
    wp (Steps faults) inv (utilSyncParentDirectory target >>= next) post w := by
  cases named : parentDirectory target with
  | none =>
    unfold utilSyncParentDirectory
    rw [named]
    exact each false w (.inl rfl)
  | some directory =>
    exact wp_syncNamedDirectory named holds (each true _ (.inr rfl))
      (fun _ _ => each true w (.inl rfl))
      (fun _ => each false w (.inl rfl)) fun _ => each false _ (.inr rfl)

/-- A rebuild that succeeds leaves an index of some rows at a path. -/
private def LeavesIndex (target : Path) (rows : List Row) (status : IndexStatus)
    (v : World) : Prop :=
  status = .ok → ∃ file, v.file target = some file ∧ IndexesRows file.bytes rows

private theorem rebuildFrom_leaves {rowCount : UInt64} {position : Nat}
    (valid : storageValidTableName tableName = true) (found : w.file path = some file)
    (accepted : acceptedCount file.bytes = .ok rowCount) (below : h < w.next) :
    wp (Steps .any) (fun _ => True)
      (rebuildFrom { name := tableName, file := h, rowCount, writable := false } tableName target)
      (fun status v => LeavesIndex target (tableRows file.bytes rowCount.toNat) status v ∧
        ∃ p, v.streams h = some { path, position := p, pending := [] })
      (w.cursor h path position) := by
  have whole := (acceptedCount_iff.mp accepted).2.2.2.2
  have leaving : ∀ status p, status ≠ .ok → wp (Steps .any) (fun _ => True) (Pure.pure status)
      (fun status v => LeavesIndex target (tableRows file.bytes rowCount.toNat) status v ∧
        ∃ p, v.streams h = some { path, position := p, pending := [] }) (w.cursor h path p) :=
    fun status p failed => ⟨trivial, fun done => absurd done failed, p, streams_cursor ..⟩
  unfold rebuildFrom
  split
  · exact leaving _ _ nofun
  · refine wp_liftMemory
      (indexCreateSized_exact valid (utilCopyChecked_valid valid) rowCount.toNat) trivial ?_
    rintro (_ | index) ⟨created, _⟩
    · exact leaving _ _ nofun
    · refine wp_seq (indexRows_spec found whole (.empty (created index rfl)))
        (fun _ _ => trivial) ?_
      rintro (status | index) _ _ ⟨⟨p, rfl⟩, outcome⟩
      · refine leaving _ p ?_
        rcases outcome with ⟨_, failed, _⟩ | ⟨rfl, _⟩
        · exact failed
        · nofun
      · have index_of : IndexOf (tableRows file.bytes rowCount.toNat) tableName index := outcome
        obtain rfl := index_of.named
        refine wp_seq (indexPersist_spec valid index_of.valid (.inl rfl)) (fun _ _ => trivial) ?_
        rintro status v _ ⟨around, _, _, done⟩
        have stream : v.streams h = some { path, position := p, pending := [] } :=
          (around.streams h below).trans (streams_cursor ..)
        split
        · rename_i failed
          exact ⟨trivial, fun done => absurd done failed, p, stream⟩
        · rename_i persisted
          obtain ⟨after, there, image⟩ := done (of_not_not persisted)
          have indexes := index_of.indexes image
          rw [storageIndexPath_valid valid]
          dsimp only
          split
          · rename_i same
            exact ⟨trivial, fun _ => ⟨after, same ▸ there, indexes⟩, p, stream⟩
          · -- the index is moved on from the path that belongs to the name
            rename_i elsewhere
            refine wp_rename trivial there (Ne.symm elsewhere) ?_ fun _ _ =>
              ⟨trivial, nofun, p, stream⟩
            have moved : ((v.rebind target (some after)).rebind
                (indexPath index.tableName) none).file target =
                some after := by
              rw [World.file, entries_rebind_ne elsewhere, ← World.file, file_rebind]
            refine wp_syncAnyDirectory trivial fun synced x which => ?_
            have here : x.file target = some after ∧ x.streams h = v.streams h := by
              rcases which with rfl | rfl <;> exact ⟨moved, rfl⟩
            cases synced with
            | true => exact ⟨trivial, fun _ => ⟨after, here.1, indexes⟩, p, here.2.trans stream⟩
            | false => exact ⟨trivial, nofun, p, here.2.trans stream⟩

private theorem indexRebuildFromTable_leaves (valid : storageValidTableName tableName = true)
    (named : PathOf tableName path) :
    wp (Steps .any) (fun _ => True) (indexRebuildFromTable path target)
      (fun status v => status = .ok →
        ∃ tableFile count file, w.file (tablePath tableName) = some tableFile ∧
        acceptedCount tableFile.bytes = .ok count ∧ v.file target = some file ∧
        IndexesRows file.bytes (tableRows tableFile.bytes count.toNat)) w := by
  unfold indexRebuildFromTable
  rw [named.name valid]
  refine wp_seq (storageOpenTableReadonly_spec valid) (fun _ _ => trivial) ?_
  intro result u _ opened
  cases result with
  | error status =>
    dsimp only
    repeat' split
    all_goals exact ⟨trivial, nofun⟩
  | ok table =>
    obtain @⟨rowCount, position, file, found, accepted, _⟩ := opened
    have later : ({ w with next := w.next + 1 } : World).file (tablePath tableName) = some file :=
      found
    refine wp_seq (rebuildFrom_leaves valid later accepted (Nat.lt_succ_self _))
      (fun _ _ => trivial) ?_
    rintro status v _ ⟨leaves, p, stream⟩
    refine wp_closeIdle stream trivial ⟨trivial, fun done => ?_⟩
    obtain ⟨after, there, indexes⟩ := leaves done
    exact ⟨file, rowCount, after, found, accepted, there, indexes⟩

/-- A rebuild that succeeds indexes the table of its path exactly if the ids of that table
are those of the table of the same name in the current directory. -/
theorem rebuild_indexes_path_iff (valid : storageValidTableName tableName = true)
    (named : PathOf tableName path)
    (ran : Returns (Steps .any) (indexRebuildFromTable path target) w .ok v) :
    (∃ rows file, StoredRows w path rows ∧ v.file target = some file ∧
      IndexesRows file.bytes rows) ↔
      ∃ rows here, StoredRows w path rows ∧ StoredRows w (tablePath tableName) here ∧
        rows.map Row.id = here.map Row.id := by
  obtain ⟨_, outcome⟩ := wp_returns (indexRebuildFromTable_leaves valid named) ran
  obtain ⟨tableFile, count, file, found, accepted, there, indexes⟩ := outcome rfl
  have whole := (acceptedCount_iff.mp accepted).2.2.2.2
  have stored : StoredRows w (tablePath tableName) (tableRows tableFile.bytes count.toNat) :=
    ⟨tableFile, count, found, accepted, rfl⟩
  constructor
  · rintro ⟨rows, file', rows_stored, there', also⟩
    rw [there, Option.some.injEq] at there'
    refine ⟨rows, _, rows_stored, stored, ?_⟩
    exact indexes.ids (by rwa [length_tableRows]) tableFile.fits (there' ▸ also)
  · rintro ⟨rows, here, rows_stored, here_stored, same⟩
    rw [here_stored.unique stored] at same
    exact ⟨rows, file, rows_stored, there, indexes.congr same⟩

private def eightTable : File :=
  { bytes := headerBytes 1 ++ (8 :: List.replicate 35 0), older := [], fits := by decide +kernel }

/-- Two tables of one name, the second in a directory of its own. -/
private def namesakesWorld (second : File) : World :=
  (World.empty.setEntry (tablePath (str "t")) { now := some eightTable, before := [] }).setEntry
    (str "d/t.tbl")
    { now := some second, before := [] }

private def namesakeRebuild : Prog IndexStatus :=
  indexRebuildFromTable (str "d/t.tbl") (str "out.idx")

private def namesakeRebuilt (second : File) : World :=
  replayed .any namesakeRebuild (List.replicate 60 { suffix := str "aaaaaa" })
    (namesakesWorld second)

private theorem namesake_path : PathOf (str "t") (str "d/t.tbl") := .inside (str "d")

/-- A table whose namesake in the current directory has the same row is indexed. -/
theorem rebuild_indexes_path_namesake :
    ∃ (v : World) (rows : List Row) (file : File), StoredRows (namesakesWorld eightTable)
      (str "d/t.tbl") rows ∧ v.file (str "out.idx") = some file ∧
      IndexesRows file.bytes rows := by
  have ran : Returns (Steps .any) namesakeRebuild (namesakesWorld eightTable) .ok
      (namesakeRebuilt eightTable) :=
    replayed_returns (by decide +kernel)
  have accepted : acceptedCount eightTable.bytes = .ok 1 := by decide +kernel
  have stored : StoredRows (namesakesWorld eightTable) (str "d/t.tbl")
      (tableRows eightTable.bytes 1) :=
    ⟨eightTable, 1, rfl, accepted, rfl⟩
  have here : StoredRows (namesakesWorld eightTable) (tablePath (str "t"))
      (tableRows eightTable.bytes 1) :=
    ⟨eightTable, 1, rfl, accepted, rfl⟩
  obtain ⟨rows, file, found, there, indexes⟩ :=
    (rebuild_indexes_path_iff (by decide) namesake_path ran).mpr ⟨_, _, stored, here, rfl⟩
  exact ⟨_, rows, file, found, there, indexes⟩

/-- An empty table whose namesake in the current directory has a row: the index that is
left has an entry, and is not that of the empty table. -/
theorem rebuild_indexes_path_other :
    ∃ v, Returns (Steps .any) (indexRebuildFromTable (str "d/t.tbl") (str "out.idx"))
      (namesakesWorld rowlessFile) .ok v ∧
      ¬ ∃ rows file, StoredRows (namesakesWorld rowlessFile) (str "d/t.tbl") rows ∧
        v.file (str "out.idx") = some file ∧
        IndexesRows file.bytes rows := by
  have ran : Returns (Steps .any) namesakeRebuild (namesakesWorld rowlessFile) .ok
      (namesakeRebuilt rowlessFile) :=
    replayed_returns (by decide +kernel)
  have long : ((namesakeRebuilt rowlessFile).file (str "out.idx")).map
      (fun file => file.bytes.length) = some 44 := by
    decide +kernel
  have accepted : acceptedCount rowlessFile.bytes = .ok 0 := by decide +kernel
  have empty : StoredRows (namesakesWorld rowlessFile) (str "d/t.tbl")
      (tableRows rowlessFile.bytes 0) :=
    ⟨rowlessFile, 0, rfl, accepted, rfl⟩
  refine ⟨_, ran, ?_⟩
  rintro ⟨rows, file, stored, there, indexes⟩
  obtain rfl := stored.unique empty
  have short := indexes.formed.length
  rw [there, Option.map_some, Option.some.injEq, short] at long
  cases long

end SqlEngine
