import SqlEngine.Library.Replay
import SqlEngine.ExecutorProofs

/-! Without faults index files are exact: a file is loaded exactly if it is well formed
for its table, a persisted index is read back, and a rebuild maps the ids of the rows. -/
namespace SqlEngine

open Library Program World Posix

variable {faults : Faults} {w v x : World} {tableName : Bytes} {index loaded : Index}
    {file tableFile : File}
  {bytes : Bytes} {count : Nat}

/-! ## The image of an index -/

private def entryBytes (entries : List IndexEntry) : Bytes :=
  (entries.flatMap fun node =>
    [putU32Le node.key.toUInt32, putU64Le node.fileOffset.toUInt64]).flatten

private theorem entryBytes_cons (node : IndexEntry) (entries : List IndexEntry) :
    entryBytes (node :: entries) =
      putU32Le node.key.toUInt32 ++ (putU64Le node.fileOffset.toUInt64 ++ entryBytes entries) := by
  simp [entryBytes]

private theorem slice_entryBytes {entries : List IndexEntry} {i : Nat}
    (inside : i < entries.length) :
    slice (entryBytes entries) (12 * i) 4 = putU32Le entries[i].key.toUInt32 ∧
      slice (entryBytes entries) (12 * i + 4) 8 = putU64Le entries[i].fileOffset.toUInt64 := by
  induction entries generalizing i with
  | nil => cases inside
  | cons node entries ih =>
    rw [entryBytes_cons]
    cases i with
    | zero =>
      refine ⟨slice_front (length_putU32Le _) _, ?_⟩
      rw [Nat.mul_zero, Nat.zero_add, ← Nat.add_zero 4, slice_behind (length_putU32Le _)]
      exact slice_front (length_putU64Le _) _
    | succ i =>
      obtain ⟨key, fileOffset⟩ := ih (Nat.lt_of_succ_lt_succ inside)
      have skip : ∀ offset n,
          slice (putU32Le node.key.toUInt32 ++ (putU64Le node.fileOffset.toUInt64 ++
          entryBytes entries)) (4 + (8 + offset)) n = slice (entryBytes entries) offset n :=
        fun offset n => (slice_behind (length_putU32Le _) _ _ _).trans
          (slice_behind (length_putU64Le _) _ _ _)
      refine ⟨?_, ?_⟩
      · rw [List.getElem_cons_succ, ← key, ← skip]
        congr 1
        omega
      · rw [List.getElem_cons_succ, ← fileOffset, ← skip]
        congr 1
        omega

private def headerBytesOf (entryCount : UInt32) : Bytes := (indexHeaderFields entryCount).flatten

private theorem indexImage_eq (index : Index) :
    indexImage index = headerBytesOf index.entryCount.toUInt32 ++
      entryBytes index.buckets.flatten := rfl

private theorem length_headerBytesOf (entryCount : UInt32) :
    (headerBytesOf entryCount).length = 32 := by
  simp [headerBytesOf, indexHeaderFields, INDEX_HEADER_SIZE]

/-- The entries are read back in the order of the chains. -/
theorem indexEntries_image (index : Index) :
    indexEntries (indexImage index) index.buckets.flatten.length = index.buckets.flatten := by
  apply List.ext_getElem
  · simp [indexEntries]
  · intro i left right
    obtain ⟨key, fileOffset⟩ := slice_entryBytes right
    simp only [indexEntries, List.getElem_map, List.getElem_range, indexEntryAt, indexImage_eq]
    rw [Nat.add_assoc, slice_behind (length_headerBytesOf _), slice_behind (length_headerBytesOf _),
      key, fileOffset,
      getU32Le_put, getU64Le_put]
    rfl

/-- The header is read back. -/
theorem indexHeaderOf_image (index : Index) :
    indexHeaderOf (indexImage index) =
      { magic := INDEX_MAGIC, version := INDEX_VERSION, headerSize := INDEX_HEADER_SIZE.toUInt32,
        entrySize := INDEX_ENTRY_ONDISK, entryCount := index.entryCount.toUInt32,
        reserved := 0 } := by
  have image : indexImage index = putU32Le INDEX_MAGIC ++ (putU32Le INDEX_VERSION ++
      (putU32Le INDEX_HEADER_SIZE.toUInt32 ++
        (putU32Le INDEX_ENTRY_ONDISK ++ (putU32Le index.entryCount.toUInt32 ++
      (putU32Le 0 ++ (List.replicate 8 0 ++ entryBytes index.buckets.flatten)))))) := by
    simp [indexImage_eq, headerBytesOf, indexHeaderFields, INDEX_HEADER_SIZE]
  have first : ∀ word more, getU32Le (slice (putU32Le word ++ more) 0 4) = word :=
    fun word more => by
    rw [slice_front (length_putU32Le _), getU32Le_put]
  have skip : ∀ word more offset, getU32Le (slice (putU32Le word ++ more) (4 + offset) 4) =
      getU32Le (slice more offset 4) := fun word more offset => by
        rw [slice_behind (length_putU32Le _)]
  rw [image, indexHeaderOf, IndexHeader.mk.injEq]
  refine ⟨first _ _, ?_, ?_, ?_, ?_, ?_⟩
  · exact (skip _ _ 0).trans (first _ _)
  · exact (skip _ _ 4).trans ((skip _ _ 0).trans (first _ _))
  · exact (skip _ _ 8).trans ((skip _ _ 4).trans ((skip _ _ 0).trans (first _ _)))
  · exact (skip _ _ 12).trans
      ((skip _ _ 8).trans ((skip _ _ 4).trans ((skip _ _ 0).trans (first _ _))))
  · exact (skip _ _ 16).trans ((skip _ _ 12).trans ((skip _ _ 8).trans ((skip _ _ 4).trans
      ((skip _ _ 0).trans (first _ _)))))

/-- What is persisted is a file for a table of as many rows. -/
theorem indexImage_for (valid : index.Valid) (few : index.entryCount ≤ UINT32_MAX) :
    IndexFileFor (indexImage index) index.entryCount := by
  have header := indexHeaderOf_image index
  refine ⟨length_indexImage valid, ?_, ?_, ?_⟩
  · rw [header]
    exact ⟨rfl, rfl, rfl, rfl, rfl⟩
  · rw [header]
    unfold UINT32_MAX at few
    exact Nat.mod_eq_of_lt (by omega)
  · rw [valid.counted, indexEntries_image]
    exact valid.unique

/-- An index that was loaded from what another was persisted as holds the same map. -/
theorem LoadedFrom.find_image (valid : index.Valid)
    (from_image : LoadedFrom (indexImage index) index.entryCount tableName loaded) (key : Int32) :
    loaded.find key = index.find key := by
  have same : ∀ fileOffset, loaded.find key = some fileOffset ↔
      index.find key = some fileOffset := by
    intro fileOffset
    rw [from_image.exact, valid.counted, indexEntries_image]
    constructor
    · intro among
      rw [Index.find, (Chaining.search_iff valid.chained).mpr ⟨among, rfl⟩]
      rfl
    · intro found
      obtain ⟨node, searched, rfl⟩ := Option.map_eq_some_iff.mp found
      obtain ⟨among, rfl⟩ := (Chaining.search_iff valid.chained).mp searched
      exact among
  exact Option.ext same

/-! ## Loading -/

private theorem indexLoad_returns (openable : Openable tableName w)
    (ran : Returns (Steps .none) (indexLoad tableName) w result v) :
    v.entries = w.entries ∧ ((∃ index, result = .ok index) ↔ IndexFits tableName w) ∧
      ∀ index, result = .ok index → Loaded .none tableName w index := by
  obtain ⟨still, _, ends⟩ := wp_returns (indexLoad_spec tableName) ran
  refine ⟨still, ?_⟩
  match result, ends with
  | .ok index, ⟨loaded, fits⟩ =>
    refine ⟨⟨fun _ => fits, fun _ => ⟨index, rfl⟩⟩, ?_⟩
    rintro _ ⟨⟩
    exact loaded
  | .error status, ⟨_, why⟩ =>
    have unfit := why.resolve_left nofun openable
    exact ⟨⟨nofun, fun fits => absurd fits unfit⟩, nofun⟩

private theorem indexLoad_runs (tableName : Bytes) (w : World) :
    ∃ result v, Returns (Steps .none) (indexLoad tableName) w result v :=
  wp_progress (indexLoad_spec tableName)

private theorem indexFits_iff {rowCount : UInt64}
    (found : w.file (tablePath tableName) = some tableFile)
    (accepted : acceptedCount tableFile.bytes = .ok rowCount)
    (there : w.file (indexPath tableName) = some file) :
    IndexFits tableName w ↔ IndexFileFor file.bytes rowCount.toNat := by
  constructor
  · intro fits
    obtain ⟨file', there', fit⟩ := fits tableFile rowCount found accepted
    rw [there, Option.some.injEq] at there'
    exact there' ▸ fit
  · intro fit tableFile' rowCount' found' accepted'
    rw [found, Option.some.injEq] at found'
    rw [← found', accepted, Except.ok.injEq] at accepted'
    exact ⟨file, there, accepted' ▸ fit⟩

theorem Loaded.from_file {rowCount : UInt64} (loaded : Loaded faults tableName w index)
    (found : w.file (tablePath tableName) = some tableFile)
    (accepted : acceptedCount tableFile.bytes = .ok rowCount)
    (there : w.file (indexPath tableName) = some file) :
    LoadedFrom file.bytes rowCount.toNat tableName index := by
  obtain ⟨tableFile', file', rowCount', found', accepted', _, there', from_file⟩ := loaded
  rw [found, Option.some.injEq] at found'
  rw [there, Option.some.injEq] at there'
  rw [← found', accepted, Except.ok.injEq] at accepted'
  rw [there', accepted']
  exact from_file

private theorem LoadedFrom.lookup (from_file : LoadedFrom bytes count tableName index)
    (key : Int32) :
    indexLookup index key = match (indexEntries bytes count).find? fun node => node.key = key with
      | some node => .ok node.fileOffset
      | none => .error .notFound := by
  -- A lookup in an index that was loaded from a file is a search in its entries.
  rw [indexLookup_eq from_file.valid]
  cases found : (indexEntries bytes count).find? fun node => node.key = key with
  | some node =>
    have among := List.mem_of_find?_eq_some found
    have keyed : node.key = key := by simpa using List.find?_some found
    rw [(from_file.exact key node.fileOffset).mpr (keyed ▸ among)]
  | none =>
    cases held : index.find key with
    | none => rfl
    | some fileOffset =>
      have among := (from_file.exact key fileOffset).mp held
      have other := List.find?_eq_none.mp found _ among
      simp at other

private theorem lookup_congr (first : index.Valid) (second : loaded.Valid) {key : Int32}
    (same : loaded.find key = index.find key) : indexLookup loaded key = indexLookup index key := by
  rw [indexLookup_eq first, indexLookup_eq second, same]

private theorem reached_named {expectedEntries : Nat} {map : Int32 → Option Int64}
    (reached : Reached expectedEntries index map) :
    storageValidTableName index.tableName = true := by
  induction reached with
  | @created tableName index made =>
    obtain ⟨_, created⟩ := wp_returns (indexCreateSized_spec tableName expectedEntries) made
    obtain ⟨_, _, named, _⟩ := created index rfl
    rw [named]
    unfold indexCreateSized at made
    cases valid : storageValidTableName tableName with
    | true => rfl
    | false =>
      rw [valid] at made
      cases made
  | inserted before ran ih =>
    obtain ⟨_, inserted⟩ := wp_returns (indexInsert_spec (reached_valid before).1 _ _ _) ran
    rw [inserted.named]
    exact ih

private theorem persisted_kept (valid : storageValidTableName index.tableName = true)
    (around : AroundIndex index.tableName (Image index) w v) :
    v.file (tablePath index.tableName) = w.file (tablePath index.tableName) ∧
      v.file (journalPath index.tableName) = w.file (journalPath index.tableName) := by
  have noDot := (storageValidTableName_parts valid).noDot
  obtain ⟨offTable, offJournal, _⟩ := indexPath_apart noDot noDot
  exact ⟨(around.frame _ offTable).same_file, (around.frame _ offJournal).same_file⟩

/-- An index file is loaded exactly if it is well formed for the rows of its table, and
maps the keys of its entries; an index that was persisted is loaded as the same map. -/
theorem index_file_codec :
    (∀ tableName w tableFile rowCount file, storageValidTableName tableName = true →
      w.file (tablePath tableName) = some tableFile → acceptedCount tableFile.bytes = .ok rowCount →
      w.file (journalPath tableName) = none → w.file (indexPath tableName) = some file →
      (∃ result v, Returns (Steps .none) (indexLoad tableName) w result v) ∧
        ∀ result v, Returns (Steps .none) (indexLoad tableName) w result v →
          ((∃ index, result = .ok index) ↔ IndexFileFor file.bytes rowCount.toNat) ∧
          ∀ index, result = .ok index → ∀ key, indexLookup index key =
            match (indexEntries file.bytes rowCount.toNat).find? fun node => node.key = key with
            | some node => .ok node.fileOffset
            | none => .error .notFound) ∧
    (∀ expectedEntries index map w v tableFile rowCount, Reached expectedEntries index map →
      w.file (tablePath index.tableName) = some tableFile →
        acceptedCount tableFile.bytes = .ok rowCount →
      w.file (journalPath index.tableName) = none → index.entryCount = rowCount.toNat →
      Returns (Steps .any) (indexPersist index) w .ok v →
      (∃ result x, Returns (Steps .none) (indexLoad index.tableName) v result x) ∧
        ∀ result x, Returns (Steps .none) (indexLoad index.tableName) v result x →
          ∃ loaded, result = .ok loaded ∧
            ∀ key, indexLookup loaded key = indexLookup index key) := by
  constructor
  · intro tableName w tableFile rowCount file valid found accepted settled there
    have openable : Openable tableName w := ⟨valid, ⟨tableFile, rowCount, found, accepted⟩, settled⟩
    refine ⟨indexLoad_runs tableName w, fun result v ran => ?_⟩
    obtain ⟨_, fits, loaded⟩ := indexLoad_returns openable ran
    exact ⟨fits.trans (indexFits_iff found accepted there), fun index done key =>
      ((loaded index done).from_file found accepted there).lookup key⟩
  · intro expectedEntries index map w v tableFile rowCount reached found accepted
      settled counted ran
    have sound := (reached_valid reached).1
    have valid := reached_named reached
    obtain ⟨_, around, _, _, done⟩ := wp_returns (indexPersist_spec valid sound (.inl rfl)) ran
    obtain ⟨file, there, image, few⟩ := done rfl
    obtain ⟨same_table, same_journal⟩ := persisted_kept valid around
    rw [← same_table] at found
    rw [← same_journal] at settled
    have openable : Openable index.tableName v :=
      ⟨valid, ⟨tableFile, rowCount, found, accepted⟩, settled⟩
    refine ⟨indexLoad_runs _ v, fun result x ran => ?_⟩
    obtain ⟨_, fits, loaded⟩ := indexLoad_returns openable ran
    have fit : IndexFileFor file.bytes rowCount.toNat := by
      rw [image, ← counted]
      exact indexImage_for sound few
    obtain ⟨again, rfl⟩ := fits.mpr ((indexFits_iff found accepted there).mpr fit)
    have from_file := (loaded again rfl).from_file found accepted there
    rw [image, ← counted] at from_file
    exact ⟨again, rfl, fun key =>
      lookup_congr sound from_file.valid (from_file.find_image sound key)⟩

private def pairTable : File :=
  { bytes := headerBytes 2 ++ (7 :: List.replicate 35 0) ++ (14 :: List.replicate 35 0), older := []
    fits := by decide +kernel }

private def pairTableWorld : World :=
  World.empty.setEntry (tablePath (str "t")) { now := some pairTable, before := [] }

private def freshIndex : Index :=
  { tableName := str "t", buckets := List.replicate 16 [], bucketCount := 16, entryCount := 0 }

private def pairIndex : Index := insertEach freshIndex [(7, 64), (14, 100)]

private def persistedWorld : World :=
  replayed .any (indexPersist pairIndex) [{ suffix := str "aaaaaa" }] pairTableWorld

/-- An index of two keys in one chain is persisted, and loaded with both of them. -/
theorem index_file_codec_pair :
    Returns (Steps .any) (indexPersist pairIndex) pairTableWorld .ok persistedWorld ∧
    ∃ loaded x, Returns (Steps .none) (indexLoad (str "t")) persistedWorld (.ok loaded) x ∧
      indexLookup loaded 7 = .ok 64 ∧ indexLookup loaded 14 = .ok 100 ∧
        indexLookup loaded 8 = .error .notFound := by
  have granted : Grants true .allocate () true () := .inl rfl
  have made : Returns (Grants true) (indexCreateSized (str "t") 0) () (some freshIndex) () :=
    .call granted (.call granted .pure)
  have accepted : acceptedCount pairTable.bytes = .ok 2 := by decide +kernel
  have ran : Returns (Steps .any) (indexPersist pairIndex) pairTableWorld .ok persistedWorld :=
    replayed_returns (by decide +kernel)
  have named : pairIndex.tableName = str "t" := by decide +kernel
  have counted : pairIndex.entryCount = (2 : UInt64).toNat := by decide +kernel
  obtain ⟨map, reached⟩ := reached_insertEach (.created made) [(7, 64), (14, 100)]
  obtain ⟨⟨result, x, loads⟩, each⟩ :=
    index_file_codec.2 0 pairIndex map pairTableWorld persistedWorld pairTable 2 reached
      (named ▸ rfl) accepted (named ▸ rfl) counted ran
  obtain ⟨loaded, rfl, same⟩ := each result x loads
  refine ⟨ran, loaded, x, named ▸ loads, ?_, ?_, ?_⟩
  · rw [same]
    decide +kernel
  · rw [same]
    decide +kernel
  · rw [same]
    decide +kernel

/-! ## Rebuilding -/

/-- In a file that holds its rows no two of them share an offset. -/
theorem offsetOf_injective {first second : Nat} (whole : rowsEnd count ≤ bytes.length)
    (fits : bytes.length ≤ maxFileSize) (inside : first < count) (inside' : second < count)
    (same : (offsetOf first).toInt64 = (offsetOf second).toInt64) : first = second := by
  have equal : offsetOf first = offsetOf second := congrArg Int64.toUInt64 same
  have numbers := congrArg UInt64.toNat equal
  rw [offsetOf_toNat inside bytes whole fits, offsetOf_toNat inside' bytes whole fits] at numbers
  exact rowOffset_injective numbers

/-- The rows of a table that has an index have distinct ids. -/
theorem IndexOf.distinct (index_of : IndexOf (tableRows bytes count) tableName index)
    (whole : rowsEnd count ≤ bytes.length) (fits : bytes.length ≤ maxFileSize) :
    ((tableRows bytes count).map Row.id).Nodup := by
  have length := length_tableRows bytes count
  rw [List.nodup_iff_getElem?_ne_getElem?]
  intro first second order inside same
  rw [List.length_map, length] at inside
  simp only [List.getElem?_map] at same
  obtain ⟨row, found⟩ : ∃ row, (tableRows bytes count)[first]? = some row :=
    ⟨_, List.getElem?_eq_getElem (by omega)⟩
  obtain ⟨row', found'⟩ : ∃ row, (tableRows bytes count)[second]? = some row :=
    ⟨_, List.getElem?_eq_getElem (by omega)⟩
  rw [found, found', Option.map_some, Option.map_some, Option.some.injEq] at same
  have one := (index_of.exact row.id _).mpr ⟨first, row, found, rfl, rfl⟩
  have two := (index_of.exact row.id _).mpr ⟨second, row', found', same.symm, rfl⟩
  have equal := offsetOf_injective whole fits (Nat.lt_trans order inside) inside
    (Option.some.inj (one.symm.trans two))
  omega

theorem IndexOf.congr {rows : List Row} (index_of : IndexOf rows tableName index)
    (valid : loaded.Valid) (named : loaded.tableName = tableName)
    (counted : loaded.entryCount = index.entryCount)
    (same : ∀ key, loaded.find key = index.find key) :
    IndexOf rows tableName loaded :=
  ⟨valid, named, counted.trans index_of.counted, fun key fileOffset => by rw [same, index_of.exact]⟩

/-- A lookup that is checked against the table and a scan of it find the same row, or
neither finds one. -/
def FindsSame (index : Index) (table : Table) (w : World) (id : Int32) : Prop :=
  (∃ found v, Returns (Steps .none) (storageFindId table id) w found v) ∧
    ∀ found v, Returns (Steps .none) (storageFindId table id) w found v →
      (∃ row offset, found = .ok (row, offset) ∧ indexLookup index id = .ok offset.toInt64 ∧
        (∃ checked u, Returns (Steps .none)
          (indexValidateLookup table id offset.toInt64) w checked u) ∧
        ∀ checked u, Returns (Steps .none)
          (indexValidateLookup table id offset.toInt64) w checked u →
          checked = .ok row) ∨
      found = .error .end ∧ indexLookup index id = .error .notFound

private theorem finds_same {table : Table} {path : Path} {position : Nat}
    (found : w.file path = some tableFile)
    (whole : rowsEnd table.rowCount.toNat ≤ tableFile.bytes.length)
    (index_of : IndexOf (tableRows tableFile.bytes table.rowCount.toNat) tableName index)
    (id : Int32) :
    FindsSame index table (w.cursor table.file path position) id := by
  have scans : wp (Steps .none) _ (storageFindId table id) _ (w.cursor table.file path position) :=
    storageFindId_spec found whole id
  refine ⟨wp_progress scans, fun result v ran => ?_⟩
  obtain ⟨_, _, outcome⟩ := wp_returns scans ran
  rcases result with status | ⟨row, offset⟩
  · cases status with
    | «end» =>
      refine .inr ⟨rfl, ?_⟩
      rw [indexLookup_eq index_of.valid, (index_of.find_none id).mpr outcome]
    | _ => cases outcome
  · obtain ⟨r, there, rfl⟩ := outcome
    have slot : (tableRows tableFile.bytes table.rowCount.toNat)[r]? = some row := by
      have inside := there.inside
      rw [there.row_at]
      simp [tableRows, inside]
    have checks : wp (Steps .none) _ (indexValidateLookup table id (offsetOf r).toInt64) _
        (w.cursor table.file path position) :=
          indexValidateLookup_spec found table id (offsetOf r).toInt64
    refine .inl ⟨row, offsetOf r, rfl, ?_, wp_progress checks, fun checked u ran => ?_⟩
    · rw [indexLookup_eq index_of.valid,
        (index_of.exact id _).mpr ⟨r, row, slot, there.same_id, rfl⟩]
    · obtain ⟨_, _, _, exact_row⟩ := wp_returns checks ran
      exact (exact_row row r there whole rfl).resolve_right Bool.false_ne_true

private theorem rebuilt_loads {rowCount : UInt64} {status : IndexStatus}
    (openable : Openable tableName w) (found : w.file (tablePath tableName) = some tableFile)
    (accepted : acceptedCount tableFile.bytes = .ok rowCount)
    (rebuilt : IndexRebuilt .none tableName w v) (ends : RebuildEnds .none tableName w status v)
    (done : status = .ok) (ran : Returns (Steps .none) (indexLoad tableName) v result x) :
    x.entries = v.entries ∧ ∃ loaded, result = .ok loaded ∧
      IndexOf (tableRows tableFile.bytes rowCount.toNat) tableName loaded := by
  obtain ⟨file, there, rows, index, shows, index_of, image, few⟩ := ends.written done
  obtain rfl := shows.rows found accepted
  have counted : index.entryCount = rowCount.toNat := by rw [index_of.counted, length_tableRows]
  have noDot := (storageValidTableName_parts openable.valid).noDot
  obtain ⟨offTable, offJournal, _⟩ := indexPath_apart noDot noDot
  have found' : v.file (tablePath tableName) = some tableFile :=
    (rebuilt.around.frame _ offTable).same_file.trans found
  have settled : v.file (journalPath tableName) = none :=
    (rebuilt.around.frame _ offJournal).same_file.trans openable.settled
  have fit : IndexFileFor file.bytes rowCount.toNat := by
    rw [image, ← counted]
    exact indexImage_for index_of.valid few
  obtain ⟨still, fits, loads⟩ :=
    indexLoad_returns ⟨openable.valid, ⟨tableFile, rowCount, found', accepted⟩, settled⟩ ran
  obtain ⟨loaded, rfl⟩ := fits.mpr ((indexFits_iff found' accepted there).mpr fit)
  have from_file := (loads loaded rfl).from_file found' accepted there
  rw [image, ← counted] at from_file
  exact ⟨still, loaded, rfl, index_of.congr from_file.valid from_file.named from_file.counted
    fun key => from_file.find_image index_of.valid key⟩

/-- A rebuild refuses exactly the tables with two rows of one id, and leaves their index
file alone; otherwise what it writes is loaded as the map from the ids to the offsets of
their rows, and checked lookups agree with a scan. The table file is never changed. -/
theorem index_rebuild_exact {rowCount : UInt64} (valid : storageValidTableName tableName = true)
    (found : w.file (tablePath tableName) = some tableFile)
    (accepted : acceptedCount tableFile.bytes = .ok rowCount)
    (settled : w.file (journalPath tableName) = none) (few : rowCount.toNat ≤ UINT32_MAX)
    (spare : Spare (indexPath tableName) w) :
    (∃ status v, Returns (Steps .none) (indexRebuild tableName) w status v) ∧
    ∀ status v, Returns (Steps .none) (indexRebuild tableName) w status v →
      v.file (tablePath tableName) = some tableFile ∧
      (status = .duplicatePrimaryKey ↔
        ¬ ((tableRows tableFile.bytes rowCount.toNat).map Row.id).Nodup) ∧
      (status = .duplicatePrimaryKey → ∀ path, v.file path = w.file path) ∧
      (status ≠ .duplicatePrimaryKey → status = .ok ∧
        (∀ path, path ≠ indexPath tableName → w.file path = none → v.file path = none) ∧
        (∃ result x, Returns (Steps .none) (indexLoad tableName) v result x) ∧
        ∀ result x, Returns (Steps .none) (indexLoad tableName) v result x →
          ∃ index, result = .ok index ∧
          (∀ key fileOffset, indexLookup index key = .ok fileOffset ↔ ∃ r row,
            (tableRows tableFile.bytes rowCount.toNat)[r]? = some row ∧ row.id = key ∧
              fileOffset = (offsetOf r).toInt64) ∧
          ∀ table y, Returns (Steps .none) (storageOpenTableReadonly tableName) x (.ok table) y →
            ∀ id, FindsSame index table y id) := by
  have openable : Openable tableName w := ⟨valid, ⟨tableFile, rowCount, found, accepted⟩, settled⟩
  have whole := (acceptedCount_iff.mp accepted).2.2.2.2
  have noDot := (storageValidTableName_parts valid).noDot
  have rebuilds : wp (Steps .none) _ (indexRebuild tableName) _ w := indexRebuild_spec (.inr spare)
  refine ⟨wp_progress rebuilds, fun status v ran => ?_⟩
  obtain ⟨_, rebuilt, ends⟩ := wp_returns rebuilds ran
  have same_table : v.file (tablePath tableName) = some tableFile :=
    (rebuilt.around.frame _ (indexPath_apart noDot noDot).1).same_file.trans found
  have decided : status = .ok ∨ status = .duplicatePrimaryKey := by
    rcases ends.decided.resolve_left nofun openable with done | twice | ⟨rows, shows, many⟩
    · exact .inl done
    · exact .inr twice
    · rw [shows.rows found accepted, length_tableRows] at many
      omega
  refine ⟨same_table, ⟨fun refused => ?_, fun twice => ?_⟩, fun refused path => ?_, fun other => ?_⟩
  · obtain ⟨rows, shows, twice⟩ := ends.refuses refused
    rwa [shows.rows found accepted] at twice
  · refine decided.resolve_left fun done => ?_
    obtain ⟨file, _, rows, index, shows, index_of, _⟩ := ends.written done
    rw [shows.rows found accepted] at index_of
    exact twice (index_of.distinct whole tableFile.fits)
  · exact file_congr (ends.unwritten refused) path
  · have done := decided.resolve_right other
    refine ⟨done, rebuilt.tidy.resolve_left nofun, indexLoad_runs tableName v,
      fun result x loads => ?_⟩
    obtain ⟨still, index, rfl, index_of⟩ :=
      rebuilt_loads openable found accepted rebuilt ends done loads
    refine ⟨index, rfl, fun key fileOffset => ?_, fun table y opens id => ?_⟩
    · rw [← index_of.exact, indexLookup_eq index_of.valid]
      cases index.find key <;> simp
    · obtain ⟨_, opened⟩ := wp_returns (storageOpenTableReadonly_spec valid) opens
      cases opened with
      | opened found' accepted' =>
        have same : x.file (tablePath tableName) = some tableFile :=
          (file_congr still _).trans same_table
        rw [same, Option.some.injEq] at found'
        rw [← found', accepted, Except.ok.injEq] at accepted'
        subst accepted'
        exact finds_same (w := { x with next := x.next + 1 }) same whole index_of id

private def twinTable : File :=
  { bytes := headerBytes 2 ++ (7 :: List.replicate 35 0) ++ (7 :: List.replicate 35 0), older := []
    fits := by decide +kernel }

private def twinTableWorld : World :=
  World.empty.setEntry (tablePath (str "t")) { now := some twinTable, before := [] }

/-- Two rows with one id are refused. -/
theorem index_rebuild_exact_twice :
    ∃ v, Returns (Steps .none) (indexRebuild (str "t")) twinTableWorld .duplicatePrimaryKey v := by
  have accepted : acceptedCount twinTable.bytes = .ok 2 := by decide +kernel
  have spare : Spare (indexPath (str "t")) twinTableWorld := ⟨str "aaaaaa", by decide +kernel, rfl⟩
  have twice : ¬ ((tableRows twinTable.bytes (UInt64.toNat 2)).map Row.id).Nodup := by
    have ids : (tableRows twinTable.bytes (UInt64.toNat 2)).map Row.id = [7, 7] := by decide +kernel
    rw [ids]
    decide
  obtain ⟨⟨status, v, ran⟩, all⟩ :=
    index_rebuild_exact (by decide) rfl accepted rfl (by decide) spare
  have refused := (all status v ran).2.1.mpr twice
  exact ⟨v, refused ▸ ran⟩

end SqlEngine
