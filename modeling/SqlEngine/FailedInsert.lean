import SqlEngine.Library.Replay
import SqlEngine.JournalFile
import SqlEngine.TableRecovery

/-! Insertions that fail without a crash: the row is gone once the table is opened again,
unless the call that failed came behind the removal of the journal. -/
namespace SqlEngine

open Library Program World Posix

/-- The row of an insertion is in place: its journal is gone, and the header counts one
row more than the handle. -/
def RowCommitted (table : Table) (w : World) : Prop :=
  w.file (journalPath table.name) = none ∧ ∃ file, w.file (tablePath table.name) = some file ∧
    (headerOf file.bytes).count.toNat = table.rowCount.toNat + 1

/-- The steps in which any call may fail, but none once the row is in place. -/
def CalmSteps (table : Table) : Step Call Answer World := fun call w answer after =>
  ∃ choice, Allowed .any w choice call ∧ (RowCommitted table w → choice.error = none) ∧
    act w choice call = (answer, after)

/-- The tables that are open for writing: any table that opens, behind reads of rows and
insertions that succeed or fail. No call of those that fail did so once its row was in place. -/
inductive OpenTable : World → Table → Prop where
  | opened {tableName : Bytes} {w v : World} {table : Table}
      (ran : Returns (Steps .any) (storageOpenTable tableName) w (.ok table) v) : OpenTable v table
  | inserted {w v : World} {table after : Table} {row : Row} {offset : UInt64}
      (before : OpenTable w table)
      (ran : Returns (Steps .any) (storageInsertRow table row) w (.ok (offset, after)) v) :
        OpenTable v after
  | failed {w v : World} {table : Table} {row : Row} {status : TableStatus}
      (before : OpenTable w table)
      (ran : Returns (CalmSteps table) (storageInsertRow table row) w (.error status) v) :
        OpenTable v table
  | read {w v : World} {table : Table} {offset : UInt64} {result : Except TableStatus Row}
      (before : OpenTable w table)
      (ran : Returns (Steps .any) (storageReadRowAtOffset table offset) w result v) :
        OpenTable v table

/-- The next opening that succeeds. -/
inductive Reopens (tableName : Bytes) : World → World → Table → Prop where
  | opened {w v : World} {table : Table}
      (ran : Returns (Steps .any) (storageOpenTable tableName) w (.ok table) v) :
      Reopens tableName w v table
  | refused {w u v : World} {table : Table} {status : TableStatus}
      (ran : Returns (Steps .any) (storageOpenTable tableName) w (.error status) u)
      (rest : Reopens tableName u v table) : Reopens tableName w v table

/-- Once the handle is closed and the table opened again, its rows are those that the
handle had in the world before. -/
def SameRowsReopened (table : Table) (w v : World) : Prop :=
  ∀ closed after reopened file content, Returns (Steps .any) (storageCloseTable table) v () closed →
    Reopens table.name closed after reopened → w.file (tablePath table.name) = some file →
    after.file (tablePath table.name) = some content →
    tableRows content.bytes reopened.rowCount.toNat = tableRows file.bytes table.rowCount.toNat

variable {w u v x : World} {table after : Table} {rows : List Row} {row : Row} {kept tail : Nat}
    {status : TableStatus}
  {tableName : Bytes} {shape : Shape} {file : File} {h : Nat}

/-! ## Open tables -/

/-- No crash, any rows, and a file that may be longer than its rows need. -/
def handleRegime (tail : Nat) : Regime :=
  { crashes := false, overlook := false, tail, fine := fun _ => True }

/-- What is known of an open table. -/
structure Opens (tail : Nat) (rows : List Row) (kept : Nat) (w : World) (table : Table) : Prop where
  valid : storageValidTableName table.name = true
  writable : table.writable = true
  old : table.file < w.next
  inv : TableInv (handleRegime tail) table.name w rows kept
  counts : table.rowCount.toNat = rows.length
  held : Held false table.name ((handleRegime tail).before rows) rows.length table.file w

/-- What an insertion leaves open whose row is not in place. -/
private def Undone (tail : Nat) (rows : List Row) (kept : Nat) (table : Table) (v : World) : Prop :=
  ∃ shape, (handleRegime tail).Phase rows shape ∧
    TableInv (handleRegime tail) table.name v rows kept ∧
    Held false table.name shape rows.length table.file v

private theorem opens_opened
    (ran : Returns (Steps .any) (storageOpenTable tableName) w (.ok table) v) :
    ∃ tail rows kept, Opens tail rows kept v table := by
  have valid := storageOpenTableMode_valid ran
  obtain ⟨_, opened⟩ := wp_returns (storageOpenTable_opens valid) ran
  obtain ⟨shape, ⟨_, after, _, found, _, accepted⟩, settled, later, position, stream⟩ :=
    opened table rfl
  obtain ⟨rows, inv, shows⟩ :
      ∃ rows, TableInv (handleRegime after.bytes.length) tableName v rows rows.length ∧ _ :=
    tableInv_accepted rfl (Nat.le_refl _) settled found accepted fun _ _ => trivial
  have name : table.name = tableName := by rw [shape]
  have file : table.file = w.next := by rw [shape]
  subst name
  refine ⟨_, rows, _, valid, by rw [shape], by omega, inv, ?_, ?_⟩
  · have lengths := congrArg List.length shows
    rw [List.length_map, length_tableRows] at lengths
    exact lengths.symm
  · rw [file]
    exact inv.held settled (found ▸ rfl) stream

private theorem Opens.ready (opens : Opens tail rows kept w table) (row : Row) :
    wp (Steps .any) (TableKept (handleRegime tail) table.name rows kept w)
      (insertUncommitted table row)
      (UncommittedPost .any (handleRegime tail) table rows row kept w) w :=
  insertUncommitted_spec opens.valid opens.inv opens.writable opens.counts opens.old opens.held
    trivial nofun (.inl rfl)

private theorem not_committed (inv : TableInv (handleRegime tail) table.name v rows kept)
    (counts : table.rowCount.toNat = rows.length) : ¬ RowCommitted table v := by
  -- While the row is not in place, the header counts the rows of the handle.
  rintro ⟨gone, file, found, more⟩
  have fits := (inv.counts (.inl gone.symm)).bytes found
  have same := count_of_fits (fun i b fixed => fits.byte i b (.inr fixed)) inv.small
  omega

private theorem calm_of_kept (counts : table.rowCount.toNat = rows.length) {call : Call}
    {answer : Answer call} (inv : TableInv (handleRegime tail) table.name u rows kept)
    (did : Steps .any call u answer v) :
    CalmSteps table call u answer v := by
  obtain ⟨choice, allowed, acted⟩ := did
  exact ⟨choice, allowed, fun committed => absurd committed (not_committed inv counts), acted⟩

private theorem steps_of_calm {call : Call} {answer : Answer call}
    (did : CalmSteps table call u answer v) :
    Steps .any call u answer v := by
  obtain ⟨choice, allowed, _, acted⟩ := did
  exact ⟨choice, allowed, acted⟩

/-! ## The two kinds of failures -/

private theorem committed_sync (valid : storageValidTableName table.name = true)
    (committed : RowCommitted table u) {next : Bool → Prog (Except TableStatus (UInt64 × Table))}
    (returns : ∀ synced, ∃ result, next synced = Pure.pure result) :
    wp (Steps .any) (RowCommitted table) (utilSyncParentDirectory (journalPath table.name) >>= next)
      (fun _ _ => True) u := by
  have ends : ∀ synced y, RowCommitted table y →
      wp (Steps .any) (RowCommitted table) (next synced) (fun _ _ => True) y := by
    intro synced y there
    obtain ⟨result, same⟩ := returns synced
    rw [same]
    exact ⟨there, trivial⟩
  have synced : RowCommitted table u.syncDirectory := committed
  exact wp_utilSyncParentDirectory
    (journalPath_noSlash (storageValidTableName_parts valid)) committed
    (ends _ _ synced) (fun _ _ => ends _ _ committed) (fun _ => ends _ _ committed) fun _ =>
      ends _ _ synced

private theorem unlink_step {path : Path} {answer : Except Errno Unit}
    (did : Steps .any (.unlink path) u answer v) :
    (answer = .ok () ∧ v = u.rebind path none) ∨ (∃ error, answer = .error error) ∧ v = u := by
  have verified : wp (Steps .any) (fun _ => True) (unlink path >>= Pure.pure)
      (fun answer v => (answer = .ok () ∧ v = u.rebind path none) ∨
        (∃ error, answer = .error error) ∧ v = u) u :=
    wp_unlink trivial (fun _ => ⟨trivial, .inl ⟨rfl, rfl⟩⟩)
      (fun _ => ⟨trivial, .inr ⟨⟨_, rfl⟩, rfl⟩⟩)
      fun _ error => ⟨trivial, .inr ⟨⟨error, rfl⟩, rfl⟩⟩
  exact (wp_returns verified (.call did .pure)).2

/-- The rest of an insertion once its journal is removed. -/
private def syncCommit (table : Table) (offset newCount : UInt64) :
    Prog (Except TableStatus (UInt64 × Table)) := do
  if !(← utilSyncParentDirectory (journalPath table.name)) then return .error .durabilityError
  return .ok (offset, { table with rowCount := newCount })

private theorem committed_unlinked {offset newCount : UInt64}
    (uncommitted : Uncommitted (handleRegime tail) table rows row kept w offset newCount u)
    (counts : table.rowCount.toNat = rows.length) :
    RowCommitted table (u.rebind (journalPath table.name) none) := by
  obtain ⟨file, content, found, image, _⟩ := uncommitted.written
  refine ⟨file_rebind .., file, ?_, ?_⟩
  · rw [World.file, entries_rebind_ne (Ne.symm (journalPath_ne_tablePath table.name))]
    exact found
  · have accepted := acceptedCount_inserted image uncommitted.counted
    rw [← (acceptedCount_iff.mp accepted).2.2.1, uncommitted.counted, counts]

private theorem commit_cases {offset newCount : UInt64} {step : Step Call Answer World}
    {result : Except TableStatus (UInt64 × Table)}
    (within : ∀ call s answer s', step call s answer s' → Steps .any call s answer s')
    (uncommitted : Uncommitted (handleRegime tail) table rows row kept w offset newCount u)
    (counts : table.rowCount.toNat = rows.length)
    (ran : Returns step (commitInsert table offset newCount) u result v) :
    (v = u ∧ Returns (CalmSteps table) (commitInsert table offset newCount) u result v) ∨
      ∃ between, RowCommitted table between ∧
        Returns step (syncCommit table offset newCount) between result v := by
  -- The commit of an insertion fails in front of the removal of the journal, or goes on with
  -- the row in place.
  have calm := fun {answer} (did : Steps .any (.unlink (journalPath table.name)) u answer v) =>
    calm_of_kept counts uncommitted.underway.inv did
  unfold commitInsert unlink Posix.call at ran
  rw [perform_bind] at ran
  cases ran with
  | call did went =>
    obtain ⟨rfl, rfl⟩ | ⟨⟨error, rfl⟩, rfl⟩ := unlink_step (within _ _ _ _ did)
    · exact .inr ⟨_, committed_unlinked uncommitted counts, went⟩
    · cases went
      exact .inl ⟨rfl, .call (calm (within _ _ _ _ did)) .pure⟩

private theorem syncCommit_keeps {offset newCount : UInt64}
    (valid : storageValidTableName table.name = true) (committed : RowCommitted table u) :
    wp (Steps .any) (RowCommitted table) (syncCommit table offset newCount)
      (fun _ _ => True) u := by
  refine committed_sync valid committed fun synced => ?_
  cases synced <;> exact ⟨_, rfl⟩

private theorem syncCommit_calm {offset newCount : UInt64}
    {result : Except TableStatus (UInt64 × Table)} (valid : storageValidTableName table.name = true)
    (committed : RowCommitted table u)
    (ran : Returns (CalmSteps table) (syncCommit table offset newCount) u result v) :
    result = .ok (offset, { table with rowCount := newCount }) := by
  have plain : Returns (Steps .none) (syncCommit table offset newCount) u result v := by
    refine returns_refine (syncCommit_keeps valid committed)
      (fun _ _ _ _ did => steps_of_calm did) ?_ ran
    rintro call s answer s' there ⟨choice, allowed, calm, acted⟩
    refine ⟨choice, ?_, acted⟩
    have chosen := calm there
    unfold Allowed at allowed ⊢
    rw [chosen] at allowed ⊢
    exact allowed
  have verified : wp (Steps .none) (fun _ => True) (syncCommit table offset newCount)
      (fun result _ => result = .ok (offset, { table with rowCount := newCount })) u :=
    wp_utilSyncParentDirectory (journalPath_noSlash (storageValidTableName_parts valid)) trivial
      ⟨trivial, rfl⟩ nofun
      nofun nofun
  exact (wp_returns verified plain).2

private theorem calm_undone (opens : Opens tail rows kept w table)
    (ran : Returns (CalmSteps table) (storageInsertRow table row) w (.error status) v) :
    ¬ RowCommitted table v := by
  rw [storageInsertRow_eq row opens.valid, returns_bind] at ran
  obtain ⟨first, between, part, rest⟩ := ran
  have part' := returns_mono (fun _ _ _ _ did => steps_of_calm did) part
  obtain ⟨⟨_, inv⟩, outcome⟩ := wp_returns (opens.ready row) part'
  rcases first with status | ⟨offset, newCount⟩
  · cases rest
    exact not_committed inv opens.counts
  · obtain ⟨rfl, _⟩ | ⟨_, committed, synced⟩ :=
      commit_cases (fun _ _ _ _ did => steps_of_calm did) outcome opens.counts rest
    · exact not_committed inv opens.counts
    · cases syncCommit_calm opens.valid committed synced

private theorem failed_cases (opens : Opens tail rows kept w table)
    (ran : Returns (Steps .any) (storageInsertRow table row) w (.error status) v) :
    (Returns (CalmSteps table) (storageInsertRow table row) w (.error status) v ∧
      Undone tail rows kept table v) ∨
      RowCommitted table v ∧ RowRefused (handleRegime tail) table rows row kept v := by
  -- An insertion that fails is calm and undone, or its row stands.
  rw [storageInsertRow_eq row opens.valid, returns_bind] at ran
  obtain ⟨first, between, part, rest⟩ := ran
  have ready := opens.ready row
  obtain ⟨⟨_, inv⟩, outcome⟩ := wp_returns ready part
  have calm : Returns (CalmSteps table) (insertUncommitted table row) w first between :=
    returns_refine ready (fun _ _ _ _ did => did)
      (fun _ _ _ _ kept did => calm_of_kept opens.counts kept.2 did) part
  rw [storageInsertRow_eq row opens.valid, returns_bind]
  rcases first with status | ⟨offset, newCount⟩
  · cases rest
    obtain ⟨_, _, _, undone⟩ := outcome
    exact .inl ⟨⟨_, _, calm, .pure⟩, undone⟩
  · obtain ⟨rfl, rest⟩ | ⟨_, committed, synced⟩ :=
      commit_cases (fun _ _ _ _ did => did) outcome opens.counts rest
    · exact .inl ⟨⟨_, _, calm, rest⟩, _, .after trivial, inv, outcome.held⟩
    · obtain ⟨_, _, _, _, refused⟩ :=
        wp_returns (commitInsert_spec opens.valid outcome trivial nofun) rest
      exact .inr ⟨(wp_returns (syncCommit_keeps opens.valid committed) synced).1, refused⟩

/-! ## Handles stay open -/

private theorem read_writes {crashes : Bool} {shapes : Shape → Prop} {path : Path} {faults : Faults}
    {offset : UInt64}
    (writes : Writes crashes shapes path table.file w u) :
    wp (Steps faults) (Writes crashes shapes path table.file w)
      (storageReadRowAtOffset table offset)
      (fun _ _ => True) u := by
  obtain ⟨position, pending, stream, agrees⟩ := id writes.stream
  have passed := fun written kept => writes.passOn ⟨path, position, pending⟩ rfl agrees written kept
  unfold storageReadRowAtOffset storageFileSize seekEnd
  rw [Program.bind_assoc, Program.bind_assoc]
  refine wp_fseek_end stream writes (fun file found => ?_) fun error written kept =>
    ⟨passed written kept, trivial⟩
  have moved : ∀ p, Writes crashes shapes path table.file w
      ((u.passOn table.file ⟨path, position, pending⟩ pending pending.length 0).cursor
        table.file path p) :=
    fun p => (passed pending.length 0).setStream p [] fun _ _ => Shape.agrees_nil
  have failing : ∀ p, wp (Steps faults) (Writes crashes shapes path table.file w)
      (Pure.pure (Except.error TableStatus.ioError) : Prog (Except TableStatus Row))
        (fun _ _ => True)
      ((u.passOn table.file ⟨path, position, pending⟩ pending pending.length 0).cursor
        table.file path p) :=
    fun p => ⟨moved p, trivial⟩
  dsimp only
  refine wp_ftell_cursor (moved _) file.fits ?_ fun _ error => failing _
  show wp _ _ (if (!storageIsValidRowOffset offset file.bytes.length.toUInt64 table.rowCount) =
      true then _ else _) _ _
  split
  · exact ⟨moved _, trivial⟩
  · refine wp_fseek_cursor found (moved _) ?_ fun _ error => failing _
    refine wp_fread_cursor found (moved _) (by decide) ?_ fun _ data short => ?_
    · split <;> exact ⟨moved _, trivial⟩
    · split <;> exact ⟨moved _, trivial⟩

private theorem Opens.inserts (opens : Opens tail rows kept w table) (row : Row) :
    wp (Steps .any) (InsertInv (handleRegime tail) table.name rows row kept w)
      (storageInsertRow table row)
      (InsertPost .any (handleRegime tail) table rows row kept w) w :=
  storageInsertRow_spec opens.valid opens.inv opens.writable opens.counts opens.old opens.held
    trivial nofun (.inl rfl)

private theorem Opens.inserted {offset : UInt64} (opens : Opens tail rows kept w table)
    (ran : Returns (Steps .any) (storageInsertRow table row) w (.ok (offset, after)) v) :
    Opens tail (rows ++ [row]) (rows.length + 1) v after := by
  have verified := opens.inserts row
  obtain ⟨_, _, _, done⟩ := wp_returns verified ran
  obtain ⟨shape, counted⟩ := done.result
  have name : after.name = table.name := by rw [shape]
  have file : after.file = table.file := by rw [shape]
  have writable : after.writable = true := by rw [shape]; exact opens.writable
  obtain ⟨position, stream⟩ := done.stream
  have held := done.inv.held done.journal done.there stream
  refine ⟨name ▸ opens.valid, writable, ?_, name ▸ done.inv,
    by rw [counted, List.length_append]; rfl, ?_⟩
  · rw [file]
    exact Nat.lt_of_lt_of_le opens.old done.next
  · rw [name, file]
    exact held

private theorem Opens.failed (opens : Opens tail rows kept w table)
    (ran : Returns (CalmSteps table) (storageInsertRow table row) w (.error status) v) :
    Opens tail rows kept v table := by
  have ran' := returns_mono (fun _ _ _ _ did => steps_of_calm did) ran
  have verified := opens.inserts row
  have next := (wp_returns verified ran').2.2.1
  obtain ⟨_, _, phase, inv, held⟩ | ⟨committed, _⟩ := failed_cases opens ran'
  · exact ⟨opens.valid, opens.writable, Nat.lt_of_lt_of_le opens.old next, inv, opens.counts,
      held.before rfl phase⟩
  · exact absurd committed (calm_undone opens ran)

private theorem Opens.read {offset : UInt64} {result : Except TableStatus Row}
    (opens : Opens tail rows kept w table)
    (ran : Returns (Steps .any) (storageReadRowAtOffset table offset) w result v) :
    Opens tail rows kept v table := by
  obtain ⟨there, fits, position, pending, stream, agrees, armed⟩ := id opens.held
  by_cases empty : pending = []
  · -- nothing is buffered: only the position moves
    subst empty
    obtain ⟨file, found⟩ := Option.isSome_iff_exists.mp there
    have reads : wp (Steps .any) _ (storageReadRowAtOffset table offset) _
        (w.cursor table.file (tablePath table.name) position) :=
          storageReadRowAtOffset_spec found table offset
    rw [World.cursor, setStream_self stream] at reads
    obtain ⟨_, ⟨p, rfl⟩, _⟩ := wp_returns reads ran
    exact ⟨opens.valid, opens.writable, opens.old, opens.inv.of_kept (Kept.refl _) (Kept.refl _),
      opens.counts, there,
      fits, p, [], streams_cursor .., Shape.agrees_nil, fun buffered => absurd rfl buffered⟩
  · have begun : Writes false (· = (handleRegime tail).before rows)
        (tablePath table.name) table.file w w :=
      .start there stream fun shape same => same ▸ agrees
    obtain ⟨writes, _⟩ := wp_returns (read_writes begun) ran
    have journal := writes.kept (journalPath_ne_tablePath table.name)
    have fits' := writes.fits _ rfl fits
    obtain ⟨position, pending, stream, agrees⟩ := writes.stream
    exact ⟨opens.valid, opens.writable, writes.next ▸ opens.old,
      opens.inv.write (armed empty) journal writes.before writes.there .before fits', opens.counts,
        writes.there, fits',
      position, pending, stream, agrees _ rfl, fun _ => (armed empty).of_kept journal⟩

private theorem openTable_opens (open_table : OpenTable w table) :
    ∃ tail rows kept, Opens tail rows kept w table := by
  induction open_table with
  | opened ran => exact opens_opened ran
  | inserted before ran ih =>
    obtain ⟨_, _, _, opens⟩ := ih
    exact ⟨_, _, _, opens.inserted ran⟩
  | failed before ran ih =>
    obtain ⟨_, _, _, opens⟩ := ih
    exact ⟨_, _, _, opens.failed ran⟩
  | read before ran ih =>
    obtain ⟨_, _, _, opens⟩ := ih
    exact ⟨_, _, _, opens.read ran⟩

/-! ## Opening again -/

private theorem reopens_inv (valid : storageValidTableName tableName = true)
    (inv : TableInv (handleRegime tail) tableName w rows kept)
    (reopens : Reopens tableName w v table) :
    table.rowCount.toNat = rows.length ∧ ∀ file, v.file (tablePath tableName) = some file →
      tableRows file.bytes table.rowCount.toNat = rows.map visibleRow := by
  induction reopens with
  | opened ran =>
    obtain ⟨_, within, _, counted, _, settled, _, ⟨after, found, accepted⟩, _⟩ :=
      wp_returns (storageOpenTable_spec valid inv) ran
    refine ⟨counted, fun file there => ?_⟩
    rw [found, Option.some.injEq] at there
    exact there ▸ (within.inv.accepted settled found accepted).2
  | refused ran _ ih =>
    obtain ⟨_, within, _⟩ := wp_returns (storageOpenTable_spec valid inv) ran
    exact ih within.inv

private theorem Opens.shows (opens : Opens tail rows kept w table)
    (found : w.file (tablePath table.name) = some file) :
    tableRows file.bytes table.rowCount.toNat = rows.map visibleRow := by
  have shows := tableRows_of_fits (opens.inv.holds.bytes found) (Nat.le_refl rows.length)
  rwa [List.take_length, ← opens.counts] at shows

private theorem undone_same (opens : Opens tail rows kept w table)
    (undone : Undone tail rows kept table v) :
    SameRowsReopened table w v := by
  intro closed after reopened file content closes reopens found there
  obtain ⟨_, phase, inv, held⟩ := undone
  obtain ⟨⟨_, inv⟩, _⟩ := wp_returns (storageCloseTable_spec inv phase held) closes
  rw [(reopens_inv opens.valid inv reopens).2 content there, opens.shows found]

private theorem stands_differs (opens : Opens tail rows kept w table)
    (refused : RowRefused (handleRegime tail) table rows row kept v)
    (committed : RowCommitted table v) :
    ¬ SameRowsReopened table w v := by
  intro same
  cases refused with
  | undone inv => exact not_committed inv opens.counts committed
  | stands inv settled written stream =>
    obtain ⟨file, content, newCount, found, counted, image⟩ := written
    have held := inv.held settled (found ▸ rfl) stream
    have closing : wp (Steps .any) _ (storageCloseTable table) _ v :=
      storageCloseTable_spec inv .before held
    obtain ⟨⟨⟩, closed, closes⟩ := wp_progress closing
    obtain ⟨⟨_, inv'⟩, _, _, _, unbuffered⟩ := wp_returns closing closes
    have still := unbuffered _ stream
    have opening : wp (Steps .none) _ (storageOpenTable table.name) _ closed :=
      storageOpenTable_spec opens.valid inv'
    obtain ⟨result, after, opened⟩ := wp_progress opening
    obtain ⟨_, within, outcome⟩ := wp_returns opening opened
    have settled' : closed.file (journalPath table.name) = none := by
      rw [still]
      exact settled
    have found' : closed.file (tablePath table.name) = some file := by
      rw [still]
      exact found
    rcases result with status | reopened
    · obtain calls | ⟨_, absent⟩ | ⟨entries, other, there, refusal⟩ := outcome
      · cases calls
      · rw [found'] at absent
        cases absent
      · rw [file_congr (entries settled'), found', Option.some.injEq] at there
        rw [← there, acceptedCount_inserted image counted] at refusal
        cases refusal
    · obtain ⟨_, more, _, _, _, ⟨other, there, _⟩, _⟩ := outcome
      obtain ⟨before, foundW⟩ := Option.isSome_iff_exists.mp opens.held.there
      have reopens : Reopens table.name closed after reopened :=
        .opened (returns_any opened)
      have lengths :=
        congrArg List.length (same closed after reopened before other closes reopens foundW there)
      rw [length_tableRows, length_tableRows, more, opens.counts, List.length_append,
        List.length_singleton] at lengths
      omega

/-- An insertion that fails leaves the rows of the table as they were exactly if no call
fails once its row is in place: in the sync of the directory behind the removal of the
journal, the only calls that come then. -/
theorem failed_insert_invisible_iff (open_table : OpenTable w table)
    (ran : Returns (Steps .any) (storageInsertRow table row) w (.error status) v) :
    SameRowsReopened table w v ↔
      Returns (CalmSteps table) (storageInsertRow table row) w (.error status) v := by
  obtain ⟨_, _, _, opens⟩ := openTable_opens open_table
  obtain ⟨calm, undone⟩ | ⟨committed, refused⟩ := failed_cases opens ran
  · exact iff_of_true (undone_same opens undone) calm
  · exact iff_of_false (stands_differs opens refused committed) fun calm =>
      calm_undone opens calm committed

/-- Every insertion that fails leaves the rows of the table as they were. -/
def FailedInsertInvisible : Prop :=
  ∀ w table row status v, OpenTable w table →
    Returns (Steps .any) (storageInsertRow table row) w (.error status) v →
      SameRowsReopened table w v

private def lateRow : Row := .nameless 7

private def lateTable (file : Nat) (rowCount : UInt64) : Table :=
  { name := str "t", file, rowCount, writable := true }

private def emptyTableMade : World := replayed .any (storageCreateTable (str "t")) [] World.empty

private def emptyTableOpen : World := replayed .any (storageOpenTable (str "t")) [] emptyTableMade

/-- The last sync of the directory fails. -/
private def lateFailure : World :=
  replayed .any (storageInsertRow (lateTable 1 0) lateRow)
    ({ suffix := str "aaaaaa" } :: List.replicate 28 { : Choice } ++ [{ error := some .eio }])
      emptyTableOpen

private def lateClosed : World := replayed .any (storageCloseTable (lateTable 1 0)) [] lateFailure

private def lateReopened : World := replayed .any (storageOpenTable (str "t")) [] lateClosed

private theorem emptyTable_open : OpenTable emptyTableOpen (lateTable 1 0) :=
  have ran : Returns (Steps .any) (storageOpenTable (str "t")) emptyTableMade
      (.ok (lateTable 1 0)) emptyTableOpen :=
    replayed_returns (by decide +kernel)
  .opened ran

private theorem lateFailure_fails :
    Returns (Steps .any) (storageInsertRow (lateTable 1 0) lateRow) emptyTableOpen
    (.error .durabilityError) lateFailure := replayed_returns (by decide +kernel)

/-- The insertion whose last sync of the directory fails. -/
theorem failed_insert_invisible_iff_late :
    SameRowsReopened (lateTable 1 0) emptyTableOpen lateFailure ↔
    Returns (CalmSteps (lateTable 1 0)) (storageInsertRow (lateTable 1 0) lateRow) emptyTableOpen
      (.error .durabilityError) lateFailure :=
  failed_insert_invisible_iff emptyTable_open lateFailure_fails

/-- A row whose insertion was reported as failed is there when the table is opened again. -/
theorem failed_insert_visible : ¬ FailedInsertInvisible := by
  intro claim
  have closes : Returns (Steps .any) (storageCloseTable (lateTable 1 0)) lateFailure
      () lateClosed :=
    replayed_returns (by decide +kernel)
  have reopens : Reopens (str "t") lateClosed lateReopened (lateTable 3 1) :=
    .opened (replayed_returns (by decide +kernel))
  obtain ⟨file, found⟩ := Option.isSome_iff_exists.mp
    (show (emptyTableOpen.file (tablePath (str "t"))).isSome = true by decide +kernel)
  obtain ⟨content, there⟩ := Option.isSome_iff_exists.mp
    (show (lateReopened.file (tablePath (str "t"))).isSome = true by decide +kernel)
  have same :=
    claim _ _ _ _ _ emptyTable_open lateFailure_fails _ _ _ file content closes reopens found there
  exact absurd (congrArg List.length same) (by rw [length_tableRows, length_tableRows]; decide)

end SqlEngine
