import SqlEngine.FailedInsert
import SqlEngine.IndexExactness
import SqlEngine.Library.Replay
import SqlEngine.Operations

/-! Stale index files: in a run without crashes an index file is exact for the front of the
rows of its table, or it is the one-entry index that an INSERT leaves if it could not load
another. So the number of entries tells whether it is exact for all of them. -/
namespace SqlEngine

open Library Program World Posix

variable {faults : Faults} {regime : Regime} {tableName : Bytes} {rows : List Row} {row : Row}
    {kept : Nat} {w u v : World}
  {operation : Operation} {index loaded base after : Index} {earlier : Option Index} {bytes : Bytes}
  {offset : UInt64}

/-! ## Index files of the past -/

/-- An index of the rows that a table had once, or one of its last row only. -/
def OnceExact (tableName : Bytes) (rows : List Row) (bytes : Bytes) : Prop :=
  ∃ index, Image index bytes ∧
    ((∃ k ≤ rows.length, IndexOf ((rows.take k).map visibleRow) tableName index) ∨
    index.Valid ∧ index.entryCount = 1 ∧ 2 ≤ rows.length)

/-- An exact index stays exact when it is updated with the new row. -/
theorem IndexOf.updated (index_of : IndexOf rows tableName base) (absent : base.find row.id = none)
    (updated : Updated base row.id (offsetOf rows.length).toInt64 after) :
    IndexOf (rows ++ [row]) tableName after := by
  have inserted : Inserted base row.id (offsetOf rows.length).toInt64 false false .ok after :=
    ⟨updated.valid, updated.named, .inr (.inl ⟨rfl, .inr absent, updated.maps, updated.counted⟩)⟩
  exact index_of.inserted absent inserted rfl

/-- An index file with as many entries as there are rows is exact for all of them. -/
theorem OnceExact.all_rows (once : OnceExact tableName rows bytes)
    (from_file : LoadedFrom bytes rows.length tableName loaded) :
    IndexOf (rows.map visibleRow) tableName loaded := by
  obtain ⟨index, ⟨rfl, few⟩, ⟨k, inside, front⟩ | ⟨valid, one, two⟩⟩ := once
  · -- there is room for every row in the file, so the front is all of them
    have enough := from_file.length
    have counted := front.counted
    rw [length_indexImage front.valid] at enough
    rw [List.length_map, List.length_take] at counted
    obtain rfl : k = rows.length := by omega
    rw [List.take_length] at front
    have entries : index.entryCount = rows.length := by rw [counted, Nat.min_self]
    rw [← entries] at from_file
    exact front.congr from_file.valid from_file.named from_file.counted
      (from_file.find_image front.valid)
  · have enough := from_file.length
    rw [length_indexImage valid] at enough
    omega

private theorem onceExact_maintained
    (exact_base : ∀ base, earlier = some base → IndexOf (rows.map visibleRow) tableName base)
    (absent : row.id ∉ rows.map Row.id) (placed : offset.toNat = rowOffset rows.length)
    (maintained : Maintained earlier tableName row.id offset bytes) :
    OnceExact tableName (rows ++ [row]) bytes := by
  obtain ⟨base, after, starts, updated, image⟩ := maintained
  have same : offset = offsetOf rows.length := by
    rw [offsetOf, ← placed, UInt64.ofNat_toNat]
  rw [same] at updated
  refine ⟨after, image, ?_⟩
  rcases starts with found | ⟨_, nothing⟩
  · have index_of := exact_base base found
    have new : base.find (visibleRow row).id = none := by
      rw [index_of.find_none, visibleRow_ids]
      exact absent
    have length : (rows.map visibleRow).length = rows.length := List.length_map ..
    have all := index_of.updated new (length.symm ▸ updated)
    refine .inl ⟨(rows ++ [row]).length, Nat.le_refl _, ?_⟩
    rw [List.take_length, List.map_append, List.map_singleton]
    exact all
  · have new : base.find row.id = none := (nothing.find_none _).mpr List.not_mem_nil
    cases rows with
    | nil =>
      refine .inl ⟨1, Nat.le_refl _, ?_⟩
      have only : IndexOf ([] ++ [visibleRow row]) tableName after := nothing.updated new updated
      exact only
    | cons first rest =>
      refine .inr ⟨updated.valid, ?_, by simp⟩
      rw [updated.counted, if_pos new, nothing.counted]
      rfl

private theorem onceExact_tracks (seeing : faults.access = false) (tableName : Bytes) :
    Tracks faults tableName (OnceExact tableName) where
  rebuilt rows shown index bytes shows index_of image := by
    obtain rfl := shows.resolve_left (by rw [seeing]; exact Bool.false_ne_true)
    refine ⟨index, image, .inl ⟨rows.length, Nat.le_refl _, ?_⟩⟩
    rwa [List.take_length]
  grown rows row bytes once := by
    obtain ⟨index, image, ⟨k, inside, front⟩ | ⟨valid, one, two⟩⟩ := once
    · refine ⟨index, image, .inl ⟨k, by rw [List.length_append]; omega, ?_⟩⟩
      rwa [List.take_append_of_le_length inside]
    · exact ⟨index, image, .inr ⟨valid, one, by rw [List.length_append]; omega⟩⟩
  maintained rows row loaded offset bytes known absent placed maintained := by
    refine onceExact_maintained (fun base found => ?_) absent placed maintained
    obtain ⟨image, once, from_file⟩ := known base found
    exact once.all_rows from_file

/-! ## Runs -/

/-- What one process can reach from an empty directory without a crash, with failing calls.
Only `access`, by which opening looks for a journal, tells the truth. -/
inductive CrashFree : World → Prop where
  | empty {w : World} (empty : ∀ path, w.file path = none) : CrashFree w
  | operation {w v : World} {operation : Operation} {outcome : Outcome} (run : CrashFree w)
      (parsed : operation.Parsed)
      (ran : Returns (Steps .seeing) operation.run w outcome v) : CrashFree v

private theorem onceExact_regulates : Regulates .seeing (handleRegime 0) OnceExact where
  tracks := onceExact_tracks rfl
  fine _ _ _ _ := trivial
  durable := nofun

private theorem CrashFree.tracked (run : CrashFree w) :
    AllTracked (handleRegime 0) OnceExact w := by
  induction run with
  | empty empty =>
    intro tableName _
    refine ⟨[], 0, tableInv_absent trivial (empty _) (empty _) rfl rfl, fun file there => ?_⟩
    rw [empty] at there
    cases there
  | operation run parsed ran ih =>
    exact (wp_returns (operation_keeps onceExact_regulates rfl parsed ih) ran).1

private theorem loaded_valid {tableName : Bytes}
    (ran : Returns (Steps faults) (indexLoad tableName) w (.ok index) v) :
    storageValidTableName tableName = true := by
  cases valid : storageValidTableName tableName with
  | true => rfl
  | false =>
    unfold indexLoad at ran
    rw [valid] at ran
    cases ran

/-- Wherever a run without crashes has got to, between two operations or inside of one: if
the index of a table is loaded, it maps exactly the ids of the rows of the table to their
offsets. -/
theorem stale_index_detected (run : CrashFree w) (parsed : operation.Parsed)
    (reached : Stops (Steps .seeing) operation.run w u)
    (loads : Returns (Steps .seeing) (indexLoad tableName) u (.ok index) v) :
    ∃ file count, u.file (tablePath tableName) = some file ∧ acceptedCount file.bytes = .ok count ∧
      u.file (journalPath tableName) = none ∧
        IndexOf (tableRows file.bytes count.toNat) tableName index := by
  have valid := loaded_valid loads
  have tracked := wp_stops (operation_keeps onceExact_regulates rfl parsed run.tracked) reached
  obtain ⟨rows, kept, inv, once⟩ := tracked tableName valid
  obtain ⟨_, _, loaded, _⟩ := wp_returns (indexLoad_spec tableName) loads
  obtain ⟨file, indexFile, count, found, accepted, settled, there, from_file⟩ := loaded
  have settled := settled.resolve_left Bool.false_ne_true
  obtain ⟨counts, shows⟩ := inv.accepted settled found accepted
  refine ⟨file, count, found, accepted, settled, ?_⟩
  rw [shows]
  rw [counts] at from_file
  exact (once indexFile there).all_rows from_file

private def nineAdded : AST := .insert { tableName := str "t", id := 9, name := str "a" }

private def nineTable : World := replayed .seeing (Operation.create (str "t")).run [] World.empty

/-- A row is added, and its index persisted. -/
private def nineWorld : World :=
  replayed .seeing (Operation.execute nineAdded).run
    (List.replicate 130 { suffix := str "aaaaaa" }) nineTable

private def nineIndex : Index :=
  { tableName := str "t"
    buckets := (List.replicate 16 []).set (indexBucket 16 9) [{ key := 9, fileOffset := 64 }]
    bucketCount := 16
    entryCount := 1 }

/-- The index of a table with one row is loaded. -/
theorem stale_index_detected_once :
    ∃ v, Returns (Steps .seeing) (indexLoad (str "t")) nineWorld (.ok nineIndex) v ∧
    ∃ file count, nineWorld.file (tablePath (str "t")) = some file ∧
      acceptedCount file.bytes = .ok count ∧
      nineWorld.file (journalPath (str "t")) = none ∧
        IndexOf (tableRows file.bytes count.toNat) (str "t") nineIndex := by
  have adds : Producible nineAdded :=
    producible_of_read ⟨str "INSERT INTO t VALUES(9,\"a\");", by decide⟩ (by decide +kernel)
  have created : Returns (Steps .seeing) (Operation.create (str "t")).run World.empty
      (.created .ok) nineTable :=
    replayed_returns (by decide +kernel)
  have added : Returns (Steps .seeing) (Operation.execute nineAdded).run nineTable
      (.executed .ok) nineWorld :=
    replayed_returns (by decide +kernel)
  have loads : Returns (Steps .seeing) (indexLoad (str "t")) nineWorld (.ok nineIndex)
      (replayed .seeing (indexLoad (str "t")) [] nineWorld) := replayed_returns (by decide +kernel)
  have made : CrashFree nineTable :=
    .operation (.empty fun _ => rfl) (show (Operation.create _).Parsed from trivial) created
  have run : CrashFree nineWorld :=
    .operation made (show (Operation.execute _).Parsed from adds) added
  exact ⟨_, loads, stale_index_detected run
    (show (Operation.rebuild (str "t")).Parsed from trivial) .here loads⟩

end SqlEngine
