import Mathlib.Logic.Function.Basic
import SqlEngine.Operations

/-! The tables of a directory as the contents of their files, and what statements do to
them where no call fails. The index files are no part of it. -/
namespace SqlEngine

open Library Program World Posix

variable {tableName other : Bytes} {w u v : World} {bytes : Bytes} {rows : List Row} {row : Row}

/-- What the table files of a directory contain. -/
abbrev Store := Bytes → Option Bytes

/-- The rows that an accepted table file shows. -/
def shownRows (bytes : Bytes) : List Row :=
  match acceptedCount bytes with
  | .ok count => tableRows bytes count.toNat
  | .error _ => []

/-- The content of a table file with one more row. -/
def insertedContent (bytes : Bytes) (row : Row) : Bytes :=
  insertedBytes bytes (shownRows bytes).length row (.ofNat ((shownRows bytes).length + 1))

/-- What an INSERT comes to: its status, what it prints, and the tables behind it. -/
def Store.insert (store : Store) (query : InsertQuery) : ExecStatus × Bytes × Store :=
  match store query.tableName with
  | none => (.tableNotFound, absentText query.tableName, store)
  | some bytes =>
    if query.id ∈ (shownRows bytes).map Row.id then (.duplicateId, takenText query.id, store)
    else
      match newRow query.id query.name with
      | none => (.semanticError, [], store)
      | some row =>
        (.ok, insertedText query.id,
          Function.update store query.tableName (some (insertedContent bytes row)))

/-- What a SELECT comes to. -/
def Store.select (store : Store) (query : SelectQuery) : ExecStatus × Bytes × Store :=
  match store query.tableName with
  | none => (.tableNotFound, absentText query.tableName, store)
  | some bytes => (.ok, selectionText query (shownRows bytes), store)

/-- What a statement comes to. -/
def Store.execute (store : Store) (ast : AST) : ExecStatus × Bytes × Store :=
  match semanticValidate ast with
  | .ok =>
    match ast with
    | .select query => store.select query
    | .insert query => store.insert query
  | status => (.semanticError,
      str "Error: Semantic error: " ++ semanticStatusString status ++ str "." ++ newline, store)

/-- A table file that opens: it is accepted, and its ids are distinct. -/
structure Sound (bytes : Bytes) : Prop where
  accepted : ∃ count, acceptedCount bytes = .ok count
  distinct : ((shownRows bytes).map Row.id).Nodup

/-- A directory with these tables and no journals, in which temporary files find a name. -/
structure Directory (store : Store) (w : World) : Prop where
  files : ∀ tableName, storageValidTableName tableName = true →
    (w.file (tablePath tableName)).map File.bytes = store tableName
  settled : ∀ tableName, storageValidTableName tableName = true →
    w.file (journalPath tableName) = none
  sound : ∀ tableName bytes, storageValidTableName tableName = true →
    store tableName = some bytes → Sound bytes
  room : ∀ tableName, storageValidTableName tableName = true →
    Spare (indexPath tableName) w ∧ Spare (journalPath tableName) w

/-- No table has more rows than an `int` counts. -/
def Store.Small (store : Store) : Prop :=
  ∀ tableName bytes, storageValidTableName tableName = true →
  store tableName = some bytes → (shownRows bytes).length ≤ INT_MAX

/-! ## One table at a time -/

private theorem temp_apart (noDot : 46 ∉ other) (noDot' : 46 ∉ tableName) (suffix : Bytes) :
    indexPath other ++ str ".tmp." ++ suffix ≠ indexPath tableName ∧
      indexPath other ++ str ".tmp." ++ suffix ≠ tablePath tableName := by
  refine ⟨fun same => ?_, fun same => ?_⟩
  · have front : indexPath other <+: indexPath tableName := same ▸ prefix_temp _ suffix
    obtain rfl := indexPath_front noDot noDot' front
    exact temp_ne same
  · exact (indexPath_apart noDot noDot').1 (same ▸ prefix_temp _ suffix)

private theorem journal_temp_apart (noDot : 46 ∉ other) (noDot' : 46 ∉ tableName) (suffix : Bytes) :
    journalPath other ++ str ".tmp." ++ suffix ≠ indexPath tableName ∧
      journalPath other ++ str ".tmp." ++ suffix ≠ tablePath tableName := by
  refine ⟨fun same => ?_, fun same => ?_⟩
  · have front : journalPath other <+: indexPath tableName := same ▸ prefix_temp _ suffix
    exact (indexPath_apart noDot noDot').2.2 ((tablePath_prefix_journalPath _).trans front)
  · have front : journalPath other <+: tablePath tableName := same ▸ prefix_temp _ suffix
    obtain rfl := tablePath_front noDot noDot' (.inl ((tablePath_prefix_journalPath _).trans front))
    exact journalPath_not_front _ front

/-- A statement changes the file of its table to some content. -/
theorem Directory.step {store : Store} {content : Option Bytes} (directory : Directory store w)
    (valid : storageValidTableName tableName = true) (frame : StatementKept tableName w v)
    (tidy : ∀ path, path ≠ indexPath tableName → path ≠ tablePath tableName → w.file path = none →
      v.file path = none)
    (settled : v.file (journalPath tableName) = none)
    (now : (v.file (tablePath tableName)).map File.bytes = content)
    (sound : ∀ bytes, content = some bytes → Sound bytes) :
    Directory (Function.update store tableName content) v := by
  have noDot := (storageValidTableName_parts valid).noDot
  have apart : ∀ other, storageValidTableName other = true → other ≠ tableName →
      v.file (tablePath other) = w.file (tablePath other) ∧
        v.file (journalPath other) = w.file (journalPath other) := by
    intro other valid' ne
    have noDot' := (storageValidTableName_parts valid').noDot
    obtain ⟨offTable, offJournal, _⟩ := indexPath_apart noDot noDot'
    refine ⟨(frame _ (fun front => ne ?_) offTable).same_file,
      (frame _ (fun front => ne ?_) offJournal).same_file⟩
    · exact (tablePath_front noDot noDot' (.inl front)).symm
    · exact (tablePath_front noDot noDot' (.inr front)).symm
  refine ⟨fun other valid' => ?_, fun other valid' => ?_, fun other bytes valid' there => ?_,
    fun other valid' => ?_⟩
  · by_cases same : other = tableName
    · subst same
      rw [Function.update_self]
      exact now
    · rw [Function.update_of_ne same, (apart other valid' same).1]
      exact directory.files other valid'
  · by_cases same : other = tableName
    · subst same
      exact settled
    · rw [(apart other valid' same).2]
      exact directory.settled other valid'
  · by_cases same : other = tableName
    · subst same
      rw [Function.update_self] at there
      exact sound bytes there
    · rw [Function.update_of_ne same] at there
      exact directory.sound other bytes valid' there
  · have noDot' := (storageValidTableName_parts valid').noDot
    obtain ⟨⟨suffix, portable, free⟩, suffix', portable', free'⟩ := directory.room other valid'
    obtain ⟨offIndex, offTable⟩ := temp_apart noDot' noDot suffix
    obtain ⟨offIndex', offTable'⟩ := journal_temp_apart noDot' noDot suffix'
    exact ⟨⟨suffix, portable, tidy _ offIndex offTable free⟩, suffix', portable',
      tidy _ offIndex' offTable' free'⟩

/-- A statement leaves its table as it is. -/
theorem Directory.kept {store : Store} (directory : Directory store w)
    (valid : storageValidTableName tableName = true)
    (frame : StatementKept tableName w v) (tidy : Tidy tableName w v)
    (settled : v.file (journalPath tableName) = none)
    (same : v.file (tablePath tableName) = w.file (tablePath tableName)) :
    Directory store v := by
  have now := directory.files tableName valid
  have again := directory.step valid frame (fun path off _ => tidy path off) settled
      ((congrArg _ same).trans now)
    fun bytes there => directory.sound tableName bytes valid there
  rwa [Function.update_eq_self] at again

theorem Directory.still {store : Store} (directory : Directory store w)
    (same : v.entries = w.entries) :
    Directory store v where
  files tableName valid := (congrArg _ (file_congr same _)).trans (directory.files tableName valid)
  settled tableName valid := (file_congr same _).trans (directory.settled tableName valid)
  sound := directory.sound
  room tableName valid :=
    (directory.room tableName valid).imp (fun spare => spare.congr same) fun spare =>
    spare.congr same

/-! ## Statements -/

/-- A statement did what it does to the tables of a directory. -/
def Follows (answer : ExecStatus × Bytes × Store) (w : World) (status : ExecStatus)
    (v : World) : Prop :=
  status = answer.1 ∧ v.output = w.output ++ answer.2.1 ∧ Directory answer.2.2 v

theorem file_absent {store : Store} (directory : Directory store w)
    (valid : storageValidTableName tableName = true)
    (gone : store tableName = none) : w.file (tablePath tableName) = none := by
  have now := directory.files tableName valid
  rwa [gone, Option.map_eq_none_iff] at now

/-- A table of the store is an accepted file with its bytes. -/
theorem file_present {store : Store} (directory : Directory store w)
    (valid : storageValidTableName tableName = true)
    (there : store tableName = some bytes) :
    ∃ file count, w.file (tablePath tableName) = some file ∧ file.bytes = bytes ∧
      acceptedCount bytes = .ok count ∧
      shownRows bytes = tableRows bytes count.toNat := by
  have now := directory.files tableName valid
  rw [there] at now
  obtain ⟨file, found, same⟩ := Option.map_eq_some_iff.mp now
  obtain ⟨count, accepted⟩ := (directory.sound tableName bytes valid there).accepted
  refine ⟨file, count, found, same, accepted, ?_⟩
  unfold shownRows
  rw [accepted]

/-- A SELECT. -/
theorem select_follows {store : Store} {query : SelectQuery}
    (valid : storageValidTableName query.tableName = true) (directory : Directory store w)
    (small : store.Small) :
    wp (Steps .none) (fun _ => True) (executeSelect query) (Follows (store.select query) w) w := by
  have few : FewRows query.tableName w := by
    intro file count found accepted
    have now := directory.files query.tableName valid
    rw [found] at now
    have most := small query.tableName file.bytes valid now.symm
    unfold shownRows at most
    rw [accepted, length_tableRows] at most
    exact most
  refine wp_mono (executeSelect_spec valid (.inr (directory.room _ valid).1))
    (fun _ _ => trivial) ?_
  rintro status v _ ⟨x, text, rfl, rebuilt, selected⟩
  obtain ⟨absent, shown⟩ := selected.resolve_left Bool.false_ne_true few
  have noDot := (storageValidTableName_parts valid).noDot
  obtain ⟨offTable, offJournal, _⟩ := indexPath_apart noDot noDot
  have frame := rebuilt.around.frame
  have after : Directory store (x.printed text) := by
    have kept :=
      directory.kept valid (.of_index frame) (rebuilt.tidy.resolve_left Bool.false_ne_true)
      ((frame _ offJournal).same_file.trans (directory.settled _ valid))
        (frame _ offTable).same_file
    exact kept.still rfl
  have printed : (x.printed text).output = w.output ++ text :=
    by rw [output_printed, rebuilt.around.output]
  unfold Store.select
  cases there : store query.tableName with
  | none =>
    obtain ⟨rfl, rfl⟩ := absent (file_absent directory valid there)
    exact ⟨rfl, printed, after⟩
  | some bytes =>
    obtain ⟨file, count, found, rfl, accepted, rows⟩ := file_present directory valid there
    have settled := directory.settled _ valid
    have distinct := (directory.sound _ _ valid there).distinct
    obtain ⟨rfl, rfl⟩ :=
      shown (shownRows file.bytes) ⟨valid, ⟨file, count, found, accepted⟩, settled⟩
      ⟨file, count, found, accepted, .inr settled, rows⟩ distinct
    exact ⟨rfl, printed, after⟩

/-- The circumstances of a statement that does not fail: the file may have any length. -/
private def storeRegime (tail : Nat) : Regime :=
  { crashes := false, overlook := false, tail, fine := fun _ => True }

private theorem tracked_absent (gone : w.file (tablePath tableName) = none)
    (settled : w.file (journalPath tableName) = none) :
    Tracked (storeRegime 0) (fun _ _ => True) tableName w [] 0 :=
  ⟨tableInv_absent trivial gone settled rfl rfl, fun _ _ => trivial⟩

/-- A file with one more row shows it behind the others. -/
theorem shownRows_inserted {file : File} (before : Sound bytes)
    (small : (shownRows bytes).length ≤ INT_MAX) (image : file.bytes = insertedContent bytes row) :
    (∃ count, acceptedCount file.bytes = .ok count) ∧
      shownRows file.bytes = shownRows bytes ++ [visibleRow row] := by
  generalize length : (shownRows bytes).length = n at small
  unfold INT_MAX at small
  rw [insertedContent, length] at image
  have counted : (UInt64.ofNat (n + 1)).toNat = n + 1 := toNat_ofNat (by omega)
  have accepted := acceptedCount_inserted image counted
  obtain ⟨count, old⟩ := before.accepted
  have rows : shownRows bytes = tableRows bytes n := by
    unfold shownRows at length ⊢
    rw [old] at length ⊢
    rw [← length, length_tableRows]
  -- behind the header every byte is that of the new row, or was there
  have behind : ∀ i, 64 ≤ i → file.bytes.getD i 0 =
      if rowOffset n ≤ i ∧ i < rowOffset n + 36 then
        (storageSerializeRow row).getD (i - rowOffset n) 0
      else bytes.getD i 0 := by
    intro i inside
    have front : ¬ (0 ≤ i ∧ i < 0 + (headerBytes (.ofNat (n + 1))).length) := by
      rw [length_headerBytes]
      omega
    rw [image, insertedBytes, getD_patch, if_neg front, getD_patch, length_storageSerializeRow]
  have slot : ∀ (content : Bytes) r j, j < 36 →
      (slice content (rowOffset r) 36).getD j 0 = content.getD (rowOffset r + j) 0 := by
    intro content r j inside
    simp only [slice, List.getD_eq_getElem?_getD, List.getElem?_take_of_lt inside,
      List.getElem?_drop]
  have shows : shownRows file.bytes = tableRows file.bytes (n + 1) := by
    unfold shownRows
    rw [accepted]
    exact congrArg (tableRows file.bytes) counted
  refine ⟨⟨_, accepted⟩, ?_⟩
  rw [shows, rows, tableRows, List.range_succ, List.map_append, List.map_singleton]
  congr 1
  · refine List.map_congr_left fun r among => storageDeserializeRow_congr fun j inside => ?_
    have least := rowOffset_ge r
    have apart := rowOffset_lt (List.mem_range.mp among)
    rw [slot _ _ _ inside, slot _ _ _ inside, behind _ (by omega), if_neg (by omega)]
  · have same : rowAt file.bytes n = visibleRow row := by
      rw [← storageDeserializeRow_serialize]
      refine storageDeserializeRow_congr fun j inside => ?_
      have least := rowOffset_ge n
      rw [slot _ _ _ inside, behind _ (by omega), if_pos (by omega), Nat.add_sub_cancel_left]
    rw [same]

private theorem sound_inserted {file : File} (before : Sound bytes)
    (small : (shownRows bytes).length ≤ INT_MAX) (absent : row.id ∉ (shownRows bytes).map Row.id)
    (image : file.bytes = insertedContent bytes row) :
    Sound file.bytes := by
  obtain ⟨accepted, shows⟩ := shownRows_inserted before small image
  refine ⟨accepted, ?_⟩
  rw [shows, List.map_append, List.nodup_append]
  refine ⟨before.distinct, List.nodup_singleton _, ?_⟩
  rintro id among _ new rfl
  rw [List.map_singleton, List.mem_singleton] at new
  exact absent (new ▸ among)

/-- An INSERT. -/
theorem insert_follows {store : Store} {query : InsertQuery}
    (valid : storageValidTableName query.tableName = true)
    (fits : ∃ row, newRow query.id query.name = some row) (directory : Directory store w)
    (small : store.Small) :
    wp (Steps .none) (fun _ => True) (executeInsert query) (Follows (store.insert query) w) w := by
  have settled := directory.settled _ valid
  unfold Store.insert
  cases there : store query.tableName with
  | none =>
    have gone := file_absent directory valid there
    refine wp_mono (executeInsert_spec valid (tracks_trivially _ _) (tracked_absent gone settled)
      (fun _ _ => trivial) nofun
      (.inr (directory.room _ valid))) (fun _ _ => trivial) ?_
    intro status v _ ends
    obtain ⟨rfl, same, output⟩ := (ends.resolve_left Bool.false_ne_true).absent gone
    exact ⟨rfl, output, directory.still same⟩
  | some bytes =>
    obtain ⟨file, count, found, rfl, accepted, shown⟩ := file_present directory valid there
    have before := directory.sound _ _ valid there
    obtain ⟨rows, inv, visible⟩ : ∃ rows,
      TableInv (storeRegime file.bytes.length) query.tableName w rows rows.length ∧
        rows.map visibleRow = tableRows file.bytes count.toNat :=
      tableInv_accepted rfl (Nat.le_refl _) settled found accepted fun _ _ => trivial
    rw [← shown] at visible
    have ids : (shownRows file.bytes).map Row.id = rows.map Row.id :=
      by rw [← visible, visibleRow_ids]
    have distinct := before.distinct
    have few := small _ _ valid there
    rw [ids] at distinct
    rw [← visible, List.length_map] at few
    have tracked : Tracked (storeRegime file.bytes.length)
        (fun _ _ => True) query.tableName w rows rows.length :=
      ⟨inv, fun _ _ => trivial⟩
    refine wp_mono
      (executeInsert_spec valid (tracks_trivially _ _) tracked (fun _ _ => trivial) nofun
      (.inr (directory.room _ valid))) (fun _ _ => trivial) ?_
    rintro status v ⟨frame, _⟩ ends
    obtain ⟨tidy, settled', taken, added⟩ :=
      (ends.resolve_left Bool.false_ne_true).present file count found accepted
      settled distinct few
    dsimp only
    by_cases among : query.id ∈ rows.map Row.id
    · obtain ⟨rfl, output, same⟩ := taken among
      rw [if_pos (ids ▸ among)]
      exact ⟨rfl, output, directory.kept valid frame tidy settled' (same.trans found.symm)⟩
    · obtain ⟨row, made⟩ := fits
      obtain ⟨rfl, output, written, newCount, found', counted, image⟩ := added among row made
      have content : written.bytes = insertedContent file.bytes row := by
        rw [image, insertedContent, ← visible, List.length_map, ← counted, UInt64.ofNat_toNat]
      have foreign : row.id ∉ (shownRows file.bytes).map Row.id := by
        rw [newRow_id made, ids]
        exact among
      rw [if_neg (ids ▸ among), made]
      refine ⟨rfl, output, directory.step valid frame
        (fun path off _ => tidy path off) settled' ?_ ?_⟩
      · rw [found', ← content]
        rfl
      · rintro _ ⟨⟩
        exact content ▸ sound_inserted before (small _ _ valid there) foreign content

/-- A statement that the parser made, on tables that are not too long. -/
theorem execute_follows {store : Store} {ast : AST} (producible : Producible ast)
    (directory : Directory store w) (small : store.Small) :
    wp (Steps .none) (fun _ => True) (execute ast) (Follows (store.execute ast) w) w := by
  have valid := producible.named.valid
  unfold execute Store.execute
  cases checked : semanticValidate ast with
  | ok =>
    cases ast with
    | select query => exact select_follows valid directory small
    | insert query =>
      exact insert_follows valid ⟨_, newRow_short _ producible.stored.1⟩ directory small
  | _ => exact wp_print trivial ⟨trivial, rfl, rfl, directory.still rfl⟩

/-! ## Creating tables and rebuilding indexes -/

/-- A creation makes an empty table of a new and valid name. -/
def Store.create (store : Store) (tableName : Bytes) : Store :=
  if storageValidTableName tableName = true ∧ store tableName = none then
    Function.update store tableName (some (headerBytes 0))
  else store

theorem sound_blank : Sound (headerBytes 0) := by
  have rows : shownRows (headerBytes 0) = [] := by
    unfold shownRows
    rw [acceptedCount_blank]
    rfl
  refine ⟨⟨0, acceptedCount_blank⟩, ?_⟩
  rw [rows]
  exact List.nodup_nil

/-- A creation succeeds exactly if the name is valid and new. -/
theorem create_follows {store : Store} (directory : Directory store w) :
    wp (Steps .none) (fun _ => True) (storageCreateTable tableName) (fun status v =>
      (status = .ok ↔ storageValidTableName tableName = true ∧ store tableName = none) ∧
        v.output = w.output ∧
        Directory (store.create tableName) v) w := by
  cases valid : storageValidTableName tableName with
  | false =>
    have same : store.create tableName = store := by
      unfold Store.create
      rw [if_neg (by rw [valid]; simp)]
    rw [same]
    rcases create_refused valid with refused | refused
    · rw [refused]
      exact ⟨trivial, iff_of_false nofun nofun, rfl, directory⟩
    · rw [refused]
      exact ⟨trivial, iff_of_false nofun nofun, rfl, directory⟩
  | true =>
    refine wp_mono (storageCreateTable_makes valid) (fun _ _ => trivial)
      fun status v stop ends => ?_
    have now := directory.files tableName valid
    by_cases gone : store tableName = none
    · have free := file_absent directory valid gone
      have refused :
          ¬ (v = w ∧ (w.file (tablePath tableName)).isSome = true ∨ Faults.none.calls = true ∨
          (w.file (journalPath tableName)).isSome = true) := by
        rw [free, directory.settled _ valid]
        rintro (⟨_, there⟩ | calls | there)
        · cases there
        · cases calls
        · cases there
      cases status with
      | ok =>
        obtain ⟨_, file, found, image⟩ := ends
        have making : Making (tablePath tableName) w v := by
          rcases stop with rfl | ⟨_, making⟩
          · rw [free] at found
            cases found
          · exact making
        have other := (making.others _ (journalPath_ne_tablePath tableName)).same_file
        rw [Store.create, if_pos ⟨valid, gone⟩]
        refine ⟨iff_of_true rfl ⟨rfl, gone⟩, making.output,
          directory.step valid (fun path off _ => making.others path ?_)
          (fun path _ off free => (making.others path off).same_file.trans free)
            (other.trans (directory.settled _ valid)) ?_ ?_⟩
        · rintro rfl
          exact off (List.prefix_refl _)
        · rw [found, ← image]
          rfl
        · rintro _ ⟨⟩
          exact sound_blank
      | _ => exact absurd ends refused
    · have same : store.create tableName = store := by
        unfold Store.create
        rw [if_neg fun both => gone both.2]
      rw [same]
      cases status with
      | ok =>
        rw [ends.1] at now
        exact absurd now.symm gone
      | _ =>
        obtain ⟨rfl, _⟩ | calls | there := ends
        · exact ⟨iff_of_false nofun fun both => gone both.2, rfl, directory⟩
        · cases calls
        · rw [directory.settled _ valid] at there
          cases there

/-- A rebuild prints nothing and changes no table. -/
theorem rebuild_follows {store : Store} (directory : Directory store w) :
    wp (Steps .none) (fun _ => True) (indexRebuild tableName) (fun _ v => v.output = w.output ∧
      Directory store v) w := by
  cases valid : storageValidTableName tableName with
  | false =>
    unfold indexRebuild
    rw [valid]
    exact ⟨trivial, rfl, directory⟩
  | true =>
    refine wp_mono (indexRebuild_spec (.inr (directory.room _ valid).1)) (fun _ _ => trivial) ?_
    rintro status v _ ⟨rebuilt, _⟩
    have noDot := (storageValidTableName_parts valid).noDot
    obtain ⟨offTable, offJournal, _⟩ := indexPath_apart noDot noDot
    have frame := rebuilt.around.frame
    exact ⟨rebuilt.around.output, directory.kept valid (.of_index frame)
      (rebuilt.tidy.resolve_left Bool.false_ne_true)
      ((frame _ offJournal).same_file.trans (directory.settled _ valid))
        (frame _ offTable).same_file⟩

end SqlEngine
