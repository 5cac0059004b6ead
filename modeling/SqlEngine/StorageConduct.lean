import SqlEngine.FileOperations
import SqlEngine.HashIndexProofs
import SqlEngine.Library.Conduct

/-! How the table functions use files: whatever a file contains and whichever call fails,
each opens only files of its table and closes what it opened, but for the handle of a table
that it returns. -/
namespace SqlEngine

open Library Program Posix

/-- The files of a table, with the temporary ones. -/
inductive TableFile (tableName : Bytes) : Path → Prop where
  | table : TableFile tableName (tablePath tableName)
  | journal : TableFile tableName (journalPath tableName)
  | index : TableFile tableName (indexPath tableName)
  | temporary {path suffix : Bytes} (beside : path = journalPath tableName ∨
      path = indexPath tableName)
      (portable : isPortableSuffix suffix = true) :
        TableFile tableName (path ++ str ".tmp." ++ suffix)

/-- A policy that lets a table be used. -/
structure Allows (policy : Policy) (tableName : Bytes) : Prop where
  files : ∀ path, TableFile tableName path → policy.path path
  here : policy.directory (str ".")

variable {policy : Policy} {s : Conduct} {tableName : Bytes} {h fd : Nat} {table : Table}
    {path : Path} {α : Type}
  {kind : HandleKind}

/-- A handle that was opened and is closed again. -/
theorem note_none {noted : Option HandleKind} (fresh : s.handles h = none) :
    (s.note h noted).note h none = s := by
  obtain ⟨handles, directory⟩ := s
  refine congrArg (Conduct.mk · directory) (funext fun g => ?_)
  by_cases same : g = h
  · rw [if_pos same, same]
    exact fresh.symm
  · dsimp only [Conduct.note]
    rw [if_neg same, if_neg same]

theorem note_note (first second : Option HandleKind) :
    (s.note h first).note h second = s.note h second := by
  obtain ⟨handles, directory⟩ := s
  refine congrArg (Conduct.mk · directory) (funext fun g => ?_)
  by_cases same : g = h
  · rw [if_pos same, if_pos same]
  · dsimp only [Conduct.note]
    rw [if_neg same, if_neg same, if_neg same]

/-! ## Streams -/

theorem writeFields_stays (opened : s.handles h = some .stream) (fields : List Bytes) :
    Stays policy s (writeFields h fields) := by
  induction fields with
  | nil => exact stays_pure true
  | cons field fields ih =>
    refine stays_bind (stays_call opened fun _ => rfl) fun answer => ?_
    rcases answer with _ | _
    · exact stays_pure false
    · exact ih

theorem utilFlushAndSync_stays (opened : s.handles h = some .stream) :
    Stays policy s (utilFlushAndSync h) := by
  refine stays_bind (stays_call opened fun _ => rfl) fun answer => ?_
  rcases answer with _ | _
  · exact stays_pure false
  · refine stays_bind (stays_call opened fun _ => rfl) fun answer => ?_
    rcases answer with _ | _ <;> exact stays_pure _

theorem seekEnd_stays (opened : s.handles h = some .stream) : Stays policy s (seekEnd h) := by
  refine stays_bind (stays_call opened fun _ => rfl) fun answer => ?_
  rcases answer with _ | _
  · exact stays_pure _
  · exact stays_call opened fun _ => rfl

theorem utilReadU32Le_stays (opened : s.handles h = some .stream) :
    Stays policy s (utilReadU32Le h) := by
  refine stays_bind (stays_call opened fun _ => rfl) fun bytes => ?_
  split <;> exact stays_pure _

theorem utilReadU64Le_stays (opened : s.handles h = some .stream) :
    Stays policy s (utilReadU64Le h) := by
  refine stays_bind (stays_call opened fun _ => rfl) fun bytes => ?_
  split <;> exact stays_pure _

/-- The next field of a header, which may be missing. -/
theorem stays_field {β γ : Type} {read : Prog (Option β)} {next : Option β → Prog γ}
    (first : Stays policy s read) (missing : Stays policy s (next none))
    (rest : ∀ field, Stays policy s (next (some field))) :
    Stays policy s (read >>= next) := by
  refine stays_bind first fun field => ?_
  cases field with
  | none => exact missing
  | some field => exact rest field

private theorem writeHeader_stays (opened : s.handles h = some .stream) (rowCount : UInt64) :
    Stays policy s (writeHeader h rowCount) := by
  refine stays_bind (stays_call opened fun _ => rfl) fun answer => ?_
  rcases answer with _ | _
  · exact stays_pure _
  refine stays_bind (writeFields_stays opened _) fun written => ?_
  cases written with
  | false => exact stays_pure _
  | true =>
    refine stays_bind (stays_call opened fun _ => rfl) fun answer => ?_
    rcases answer with _ | _ <;> exact stays_pure _

private theorem readHeader_stays (opened : s.handles h = some .stream) :
    Stays policy s (readHeader h) := by
  have word : Stays policy s (utilReadU32Le h) := utilReadU32Le_stays opened
  have absent : Stays policy s (Pure.pure none : Prog (Option TableHeader)) := stays_pure none
  exact stays_field word absent fun _ => stays_field word absent fun _ =>
    stays_field word absent fun _ =>
    stays_field word absent fun _ => stays_field word absent fun _ =>
      stays_field word absent fun _ =>
    stays_field (utilReadU64Le_stays opened) absent fun _ => stays_pure _

private theorem readAndValidateHeader_stays (opened : s.handles h = some .stream) :
    Stays policy s (readAndValidateHeader h) := by
  refine stays_bind (seekEnd_stays opened) fun size => ?_
  rcases size with _ | size
  · exact stays_pure _
  dsimp only
  split
  · exact stays_pure _
  refine stays_bind (stays_call opened fun _ => rfl) fun answer => ?_
  rcases answer with _ | _
  · exact stays_pure _
  refine stays_bind (readHeader_stays opened) fun header => ?_
  cases header <;> exact stays_pure _

/-- The directory is opened, synced and closed. -/
theorem utilSyncParentDirectory_stays (allows : Allows policy tableName) (noSlash : 47 ∉ path)
    (closed : s.directory = false) :
    Stays policy s (utilSyncParentDirectory path) := by
  unfold utilSyncParentDirectory
  rw [parentDirectory_here noSlash]
  refine conducts_call ⟨allows.here, closed⟩ fun answer _ => ?_
  rcases answer with _ | _
  · exact conducts_pure rfl
  · refine conducts_call (by rfl) fun synced _ => conducts_call (by rfl) fun done _ => ?_
    have back : { { s with directory := true } with directory := false } = s := by rw [← closed]
    have ends : ∀ value : Bool,
        Conducts policy { { s with directory := true } with directory := false } (Pure.pure value)
        (fun _ t => t = s) := fun _ => conducts_pure back
    rcases synced with _ | _
    · exact ends _
    · rcases done with _ | _ <;> exact ends _

/-! ## Temporary files -/

/-- A stream is given up, and its file with it. -/
theorem discard_conducts (opened : s.handles h = some .stream) (allowed : policy.path path) :
    Conducts policy s (discard h path) fun _ t => t = s.note h none :=
  conducts_call opened fun _ _ => conducts_call allowed fun _ _ => conducts_pure rfl

/-- A temporary file beside one of a table: a new descriptor, or nothing. -/
theorem utilSecureTempFile_conducts (allows : Allows policy tableName) {destination : Bytes}
    {pathSize : Nat}
    (beside : destination = journalPath tableName ∨ destination = indexPath tableName) :
    Conducts policy s (utilSecureTempFile destination pathSize) fun result t => match result with
      | .error _ => t = s
      | .ok (fd, path) => s.handles fd = none ∧ policy.path path ∧
          t = s.note fd (some .descriptor) := by
  have template : ∀ suffix, (destination ++ tempSuffix).take
      ((destination ++ tempSuffix).length - 6) ++ suffix =
      destination ++ str ".tmp." ++ suffix := by
    intro suffix
    have length : (destination ++ tempSuffix).length - 6 = destination.length + 5 := by
      rw [List.length_append, show tempSuffix.length = 11 from rfl]
      omega
    rw [length, List.take_length_add_append]
    rfl
  have named : ∀ suffix, isPortableSuffix suffix = true →
      policy.path ((destination ++ tempSuffix).take
        ((destination ++ tempSuffix).length - 6) ++ suffix) := by
    intro suffix portable
    rw [template]
    exact allows.files _ (.temporary beside portable)
  unfold utilSecureTempFile
  split
  · exact conducts_pure rfl
  split
  · exact conducts_pure rfl
  refine conducts_call named fun answer possible => ?_
  rcases answer with _ | ⟨fd, path⟩
  · exact conducts_pure rfl
  obtain ⟨fresh, suffix, portable, rfl⟩ := possible
  have opened : (s.note fd (some .descriptor)).handles fd = some .descriptor :=
    Conduct.handles_note ..
  refine conducts_stays (stays_call opened fun _ => rfl) fun answer => ?_
  rcases answer with _ | _
  · refine conducts_call opened fun _ _ => conducts_call (named suffix portable) fun _ _ =>
      conducts_pure ?_
    exact note_none fresh
  · exact conducts_pure ⟨fresh, named suffix portable, rfl⟩

/-- What becomes of a temporary file that was written: it is put in its place or removed,
and its stream is closed. -/
theorem stream_given_up {status : α} {ends : α → Conduct → Prop} (fresh : s.handles fd = none)
    (allowed : policy.path path) (holds : ends status s) :
    Conducts policy (s.note fd (some .stream))
      (discard fd path >>= fun _ => Pure.pure status) ends := by
  refine conducts_bind (discard_conducts (Conduct.handles_note ..) allowed) ?_
  rintro _ _ rfl
  rw [note_none fresh]
  exact conducts_pure holds

/-- A descriptor that is of no use is closed, and its file is removed. -/
theorem descriptor_given_up {status : α} {ends : α → Conduct → Prop} (fresh : s.handles fd = none)
    (allowed : policy.path path) (holds : ends status s) :
    Conducts policy (s.note fd (some .descriptor)) (do
      let _ ← close fd
      let _ ← unlink path
      return status) ends := by
  refine conducts_call (Conduct.handles_note ..) fun _ _ => conducts_call allowed fun _ _ =>
    conducts_pure ?_
  rw [Conduct.after, note_none fresh]
  exact holds

/-! ## The journal -/

section Journal

variable (allows : Allows policy tableName) (valid : storageValidTableName tableName = true)
    (closed : s.directory = false)

include allows valid closed

private theorem persistInsertJournal_stays (named : table.name = tableName) (row : Row)
    (offset newCount : UInt64) :
    Stays policy s (persistInsertJournal table row offset newCount) := by
  have noSlash := journalPath_noSlash (storageValidTableName_parts valid)
  unfold persistInsertJournal
  rw [named, storageJournalPath_valid valid]
  refine conducts_bind (utilSecureTempFile_conducts allows (.inl rfl)) ?_
  rintro (_ | ⟨fd, temp⟩) t made
  · obtain rfl := made
    dsimp only
    split <;> exact stays_pure _
  obtain ⟨fresh, allowed, rfl⟩ := made
  refine conducts_call (Conduct.handles_note ..) fun answer _ => ?_
  rcases answer with _ | _
  · exact descriptor_given_up fresh allowed rfl
  change Conducts policy ((s.note fd (some .descriptor)).note fd (some .stream)) _ _
  rw [note_note]
  have opened : (s.note fd (some .stream)).handles fd = some .stream := Conduct.handles_note ..
  refine conducts_stays (writeFields_stays opened _) fun written => ?_
  cases written with
  | false => exact stream_given_up fresh allowed rfl
  | true =>
    refine conducts_stays (utilFlushAndSync_stays opened) fun synced => ?_
    cases synced with
    | false => exact stream_given_up fresh allowed rfl
    | true =>
      refine conducts_call opened fun answer _ => ?_
      change Conducts policy ((s.note fd (some .stream)).note fd none) _ _
      rw [note_none fresh]
      rcases answer with _ | _
      · exact conducts_call allowed fun _ _ => conducts_pure rfl
      refine conducts_stays (stays_call ⟨allowed, allows.files _ .journal⟩ fun _ => rfl)
        fun answer => ?_
      rcases answer with _ | _
      · refine conducts_call allowed fun _ _ => ?_
        split <;> exact conducts_pure rfl
      refine stays_bind (utilSyncParentDirectory_stays allows noSlash closed) fun synced => ?_
      cases synced <;> exact stays_pure _

end Journal

private theorem readJournal_stays (opened : s.handles fd = some .descriptor) :
    Stays policy s (readJournal fd) := by
  refine stays_bind (stays_call opened fun _ => rfl) fun answer => ?_
  rcases answer with _ | bytes
  · exact stays_pure _
  dsimp only
  split
  · exact stays_pure _
  refine stays_bind (stays_call opened fun _ => rfl) fun answer => ?_
  rcases answer with _ | extra
  · exact stays_pure _
  dsimp only
  split <;> exact stays_pure _

private theorem recoverInsertJournal_stays (allows : Allows policy tableName)
    (valid : storageValidTableName tableName = true) (closed : s.directory = false)
    (opened : s.handles h = some .stream) :
    Stays policy s (recoverInsertJournal h tableName) := by
  have noSlash := journalPath_noSlash (storageValidTableName_parts valid)
  unfold recoverInsertJournal
  rw [storageJournalPath_valid valid]
  refine conducts_call (allows.files _ .journal) fun answer fresh => ?_
  rcases answer with _ | fd
  · dsimp only
    split <;> exact conducts_pure rfl
  have noted : (s.note fd (some .descriptor)).handles fd = some .descriptor :=
    Conduct.handles_note ..
  refine conducts_stays (readJournal_stays noted) fun journal => ?_
  cases journal with
  | none => exact conducts_call noted fun _ _ => conducts_pure (note_none fresh)
  | some bytes =>
    refine conducts_call noted fun answer _ => ?_
    change Conducts policy ((s.note fd (some .descriptor)).note fd none) _ _
    rw [note_none fresh]
    rcases answer with _ | _
    · exact conducts_pure rfl
    dsimp only
    cases validateJournal bytes tableName with
    | none => exact stays_pure _
    | some found =>
      refine stays_bind (writeHeader_stays opened _) fun headed => ?_
      rcases headed with _ | _
      · exact stays_pure _
      refine stays_bind (utilFlushAndSync_stays opened) fun synced => ?_
      cases synced with
      | false => exact stays_pure _
      | true =>
        refine stays_bind (stays_call opened fun _ => rfl) fun answer => ?_
        rcases answer with _ | _
        · exact stays_pure _
        refine stays_bind (utilFlushAndSync_stays opened) fun synced => ?_
        cases synced with
        | false => exact stays_pure _
        | true =>
          refine stays_bind (stays_call (allows.files _ .journal) fun _ => rfl) fun answer => ?_
          rcases answer with _ | _
          · exact stays_pure _
          refine stays_bind (utilSyncParentDirectory_stays allows noSlash closed) fun synced => ?_
          cases synced <;> exact stays_pure _

/-! ## Tables -/

/-- A creation keeps to the files of its table and gives every handle back. -/
theorem storageCreateTable_stays
    (allows : storageValidTableName tableName = true → Allows policy tableName)
    (closed : s.directory = false) :
    Stays policy s (storageCreateTable tableName) := by
  unfold storageCreateTable
  split
  · exact stays_pure _
  cases valid : storageValidTableName tableName with
  | false => exact stays_pure _
  | true =>
    have allowed := (allows valid).files _ .table
    have noSlash := tablePath_noSlash (storageValidTableName_parts valid)
    rw [storageTablePath_valid valid, storageJournalPath_valid valid]
    refine conducts_call allowed fun answer fresh => ?_
    rcases answer with _ | fd
    · dsimp only
      split <;> exact conducts_pure rfl
    have noted : (s.note fd (some .descriptor)).handles fd = some .descriptor :=
      Conduct.handles_note ..
    refine conducts_stays (stays_call noted fun _ => rfl) fun answer => ?_
    rcases answer with _ | _
    · exact descriptor_given_up fresh allowed rfl
    refine conducts_call noted fun answer _ => ?_
    rcases answer with _ | _
    · exact descriptor_given_up fresh allowed rfl
    change Conducts policy ((s.note fd (some .descriptor)).note fd (some .stream)) _ _
    rw [note_note]
    have opened : (s.note fd (some .stream)).handles fd = some .stream := Conduct.handles_note ..
    refine conducts_stays (writeHeader_stays opened 0) fun headed => ?_
    rcases headed with _ | _
    · exact stream_given_up fresh allowed rfl
    refine conducts_stays (utilFlushAndSync_stays opened) fun synced => ?_
    cases synced with
    | false => exact stream_given_up fresh allowed rfl
    | true =>
      refine conducts_call opened fun answer _ => ?_
      change Conducts policy ((s.note fd (some .stream)).note fd none) _ _
      rw [note_none fresh]
      have undone : Stays policy s (unlink (tablePath tableName) >>=
          fun _ => Pure.pure TableCreateStatus.ioError) :=
        stays_bind (stays_call allowed fun _ => rfl) fun _ => stays_pure _
      rcases answer with _ | _
      · exact undone
      refine stays_bind (stays_call ((allows valid).files _ .journal) fun _ => rfl) fun answer => ?_
      rcases answer with _ | _
      · refine stays_bind (utilSyncParentDirectory_stays (allows valid) noSlash closed)
          fun synced => ?_
        cases synced with
        | false => exact undone
        | true => exact stays_pure _
      · exact undone

/-- What opening a table leaves open. -/
def OpenConduct (tableName : Bytes) (s : Conduct) (result : Except TableStatus Table)
    (t : Conduct) : Prop :=
  match result with
  | .error _ => t = s
  | .ok table => table.name = tableName ∧ s.handles table.file = none ∧
      t = s.note table.file (some .stream)

private theorem finishOpen_conducts {writable : Bool} (fresh : s.handles fd = none) :
    Conducts policy (s.note fd (some .stream)) (finishOpen tableName fd writable)
      (OpenConduct tableName s) := by
  have opened : (s.note fd (some .stream)).handles fd = some .stream := Conduct.handles_note ..
  refine conducts_stays (readAndValidateHeader_stays opened) fun header => ?_
  rcases header with _ | rowCount
  · exact conducts_call opened fun _ _ => conducts_pure (note_none fresh)
  · exact conducts_pure ⟨rfl, fresh, rfl⟩

/-- Opening leaves the stream of the table open exactly when it succeeds. -/
theorem storageOpenTableMode_conducts
    (allows : storageValidTableName tableName = true → Allows policy tableName)
    (closed : s.directory = false) (writable : Bool) :
    Conducts policy s (storageOpenTableMode tableName writable) (OpenConduct tableName s) := by
  unfold storageOpenTableMode
  cases valid : storageValidTableName tableName with
  | false => exact conducts_pure rfl
  | true =>
    have allows := allows valid
    rw [utilCopyChecked_valid valid, storageTablePath_valid valid, storageJournalPath_valid valid]
    refine conducts_stays (stays_call trivial fun _ => rfl) fun granted => ?_
    cases granted with
    | false => exact conducts_pure rfl
    | true =>
      refine conducts_call (allows.files _ .table) fun answer fresh => ?_
      rcases answer with _ | fd
      · dsimp only
        split
        · exact conducts_pure rfl
        · split <;> exact conducts_pure rfl
      refine conducts_call (Conduct.handles_note ..) fun answer _ => ?_
      rcases answer with _ | _
      · exact conducts_call (Conduct.handles_note ..) fun _ _ => conducts_pure (note_none fresh)
      change Conducts policy ((s.note fd (some .descriptor)).note fd (some .stream)) _ _
      rw [note_note]
      have opened : (s.note fd (some .stream)).handles fd = some .stream := Conduct.handles_note ..
      cases writable with
      | true =>
        refine conducts_stays (recoverInsertJournal_stays allows valid closed opened)
          fun recovered => ?_
        rcases recovered with _ | _
        · exact conducts_call opened fun _ _ => conducts_pure (note_none fresh)
        · exact finishOpen_conducts fresh
      | false =>
        refine conducts_stays (stays_call (allows.files _ .journal) fun _ => rfl) fun answer => ?_
        rcases answer with _ | _
        · exact finishOpen_conducts fresh
        · exact conducts_call opened fun _ _ => conducts_pure (note_none fresh)

/-- A table is closed: what it had open is given up. -/
theorem storageCloseTable_conducts (opened : s.handles table.file = some .stream) :
    Conducts policy s (storageCloseTable table) fun _ t => t = s.note table.file none :=
  conducts_call opened fun _ _ => conducts_pure rfl

/-- An insertion closes the journal it opens and keeps the table's stream. -/
theorem storageInsertRow_conducts (allows : Allows policy tableName)
    (valid : storageValidTableName tableName = true) (closed : s.directory = false)
    (named : table.name = tableName) (opened : s.handles table.file = some .stream) (row : Row) :
    Conducts policy s (storageInsertRow table row) fun result t =>
      t = s ∧ ∀ offset later, result = .ok (offset, later) → later.file = table.file := by
  have noSlash := journalPath_noSlash (storageValidTableName_parts valid)
  have refused : ∀ status, Conducts policy s
      (Pure.pure (.error status : Except TableStatus (UInt64 × Table)))
      fun result t => t = s ∧ ∀ offset later, result = .ok (offset, later) →
        later.file = table.file :=
    fun status => conducts_pure ⟨rfl, nofun⟩
  unfold storageInsertRow
  split
  · exact refused _
  cases storageOffsetForRow table.rowCount with
  | none => exact refused _
  | some offset =>
    dsimp only
    by_cases far : offset.toNat > LONG_MAX
    · rw [if_pos far]
      exact refused _
    rw [if_neg far]
    cases utilAddU64 table.rowCount 1 with
    | none => exact refused _
    | some newCount =>
      rw [named, storageJournalPath_valid valid]
      refine conducts_stays
        (persistInsertJournal_stays allows valid closed named row offset newCount) fun armed => ?_
      rcases armed with _ | _
      · exact refused _
      refine conducts_stays (stays_call opened fun _ => rfl) fun answer => ?_
      rcases answer with _ | _
      · exact refused _
      refine conducts_stays (writeFields_stays opened _) fun written => ?_
      cases written with
      | false => exact refused _
      | true =>
        refine conducts_stays (utilFlushAndSync_stays opened) fun synced => ?_
        cases synced with
        | false => exact refused _
        | true =>
          refine conducts_stays (writeHeader_stays opened _) fun headed => ?_
          rcases headed with _ | _
          · exact refused _
          refine conducts_stays (utilFlushAndSync_stays opened) fun synced => ?_
          cases synced with
          | false => exact refused _
          | true =>
            refine conducts_stays (stays_call (allows.files _ .journal) fun _ => rfl)
              fun answer => ?_
            rcases answer with _ | _
            · exact refused _
            refine conducts_stays (utilSyncParentDirectory_stays allows noSlash closed)
              fun synced => ?_
            cases synced with
            | false => exact refused _
            | true =>
              refine conducts_pure ⟨rfl, ?_⟩
              rintro _ _ ⟨⟩
              rfl

/-! ## Rows -/

theorem storageFileSize_stays (opened : s.handles table.file = some .stream) :
    Stays policy s (storageFileSize table) := by
  refine stays_bind (seekEnd_stays opened) fun size => ?_
  rcases size with _ | _ <;> exact stays_pure _

theorem storageReadRowAtOffset_stays (opened : s.handles table.file = some .stream)
    (offset : UInt64) :
    Stays policy s (storageReadRowAtOffset table offset) := by
  refine stays_bind (storageFileSize_stays opened) fun size => ?_
  rcases size with _ | size
  · exact stays_pure _
  dsimp only
  split
  · exact stays_pure _
  refine stays_bind (stays_call opened fun _ => rfl) fun answer => ?_
  rcases answer with _ | _
  · exact stays_pure _
  refine stays_bind (stays_call opened fun _ => rfl) fun buf => ?_
  split <;> exact stays_pure _

private theorem storageScanNext_stays {scan : RowScanner}
    (opened : s.handles scan.table.file = some .stream) :
    Conducts policy s (storageScanNext scan) fun result t =>
      t = s ∧ ∀ row offset later, result = .ok (row, offset, later) → later.table = scan.table := by
  have ended : ∀ status, Conducts policy s
      (Pure.pure (.error status : Except ScanStatus (Row × UInt64 × RowScanner)))
      fun result t => t = s ∧ ∀ row offset later, result = .ok (row, offset, later) →
        later.table = scan.table :=
    fun status => conducts_pure ⟨rfl, nofun⟩
  unfold storageScanNext
  split
  · exact ended _
  cases storageOffsetForRow scan.nextRow with
  | none => exact ended _
  | some offset =>
    refine conducts_stays (storageReadRowAtOffset_stays opened offset) fun read => ?_
    rcases read with status | row
    · dsimp only
      split <;> exact ended _
    · refine conducts_pure ⟨rfl, ?_⟩
      rintro _ _ _ ⟨⟩
      rfl

/-- The loop over the rows of a table leaves open what its body does, and keeps what its
body keeps. -/
theorem forRows_conducts {σ ρ : Type} {body : σ → Row → UInt64 → Prog (Except ρ σ)} {inv : σ → Prop}
    (opened : s.handles table.file = some .stream)
    (each : ∀ state row offset, inv state →
      Conducts policy s (body state row offset) fun result t =>
      t = s ∧ ∀ later, result = .ok later → inv later)
    (passes : Nat) (scan : RowScanner) (same : scan.table = table) {state : σ} (holds : inv state) :
    Conducts policy s (forRows body passes scan state) fun result t =>
      t = s ∧ ∀ status later, result = .ok (status, later) → inv later := by
  induction passes generalizing scan state with
  | zero =>
    refine conducts_pure ⟨rfl, ?_⟩
    rintro _ _ ⟨⟩
    exact holds
  | succ passes ih =>
    refine conducts_bind (storageScanNext_stays (same ▸ opened)) ?_
    rintro result t ⟨rfl, next⟩
    rcases result with status | ⟨row, offset, later⟩
    · refine conducts_pure ⟨rfl, ?_⟩
      rintro _ _ ⟨⟩
      exact holds
    · refine conducts_bind (each state row offset holds) ?_
      rintro (result | state) _ ⟨rfl, kept⟩
      · refine conducts_pure ⟨rfl, ?_⟩
        rintro _ _ ⟨⟩
      · exact ih later ((next _ _ _ rfl).trans same) (kept state rfl)

/-- A loop over the rows keeps to what its body keeps to. -/
theorem forRows_stays {σ ρ : Type} {body : σ → Row → UInt64 → Prog (Except ρ σ)}
    (opened : s.handles table.file = some .stream)
    (each : ∀ state row offset, Stays policy s (body state row offset)) (passes : Nat) (state : σ) :
    Stays policy s (forRows body passes (storageScanBegin table) state) := by
  have kept : ∀ state row offset, True → Conducts policy s (body state row offset) fun result t =>
      t = s ∧ ∀ later, result = .ok later → True := fun state row offset _ =>
    conducts_mono (each state row offset) fun _ _ same => ⟨same, fun _ _ => trivial⟩
  exact conducts_mono (forRows_conducts opened kept passes (storageScanBegin table) rfl trivial)
    fun _ _ same => same.1

theorem storageFindId_stays (opened : s.handles table.file = some .stream) (id : Int32) :
    Stays policy s (storageFindId table id) := by
  refine stays_bind (forRows_stays opened (fun _ _ _ => stays_pure _) _ _) fun found => ?_
  rcases found with _ | ⟨_, _⟩ <;> exact stays_pure _

end SqlEngine
