import SqlEngine.Library.FileSystem
import SqlEngine.Layout

/-! Table files: creation, opening with recovery, insertion under a rollback journal,
and row-wise reading. The statuses name the failures; success comes with its result.
The fault hooks of the tests are never set by the engine and are left out, as are the
permission bits and `fcntl`, which nothing here reads. -/
namespace SqlEngine

open Library Posix

inductive TableCreateStatus where
  | ok
  | alreadyExists
  | ioError
  | invalidName
  | nameTooLong
  deriving DecidableEq, Repr

/-- The statuses of a table operation that fails. -/
inductive TableStatus where
  | notFound
  | ioError
  | corrupt
  | incompatible
  | allocError
  | invalidOffset
  | readOnly
  | recoveryRequired
  | durabilityError
  deriving DecidableEq, Repr

/-- The statuses of a scan that does not return a row. -/
inductive ScanStatus where
  | ioError
  | corrupt
  | allocError
  | «end»
  deriving DecidableEq, Repr

/-- An open table. -/
structure Table where
  name : Bytes
  file : Nat
  rowCount : UInt64
  writable : Bool
  deriving DecidableEq

structure RowScanner where
  table : Table
  nextRow : UInt64
  rowCount : UInt64
  deriving DecidableEq

/-! ## Files -/

/-- The suffix of `util_secure_temp_file`. -/
def tempSuffix : Bytes := str ".tmp.XXXXXX"

/-- `util_secure_temp_file`: the descriptor and the path, or `errno`. -/
def utilSecureTempFile (destination : Bytes)
    (pathSize : Nat) : Prog (Except Errno (Nat × Path)) := do
  if pathSize = 0 then return .error .einval
  if destination.length + (tempSuffix.length + 1) > pathSize then return .error .enametoolong
  match ← mkstemp (destination ++ tempSuffix) with
  | .error errno => return .error errno
  | .ok (fd, path) =>
    match ← fchmod fd with
    | .error errno =>
      let _ ← close fd
      let _ ← unlink path
      return .error errno
    | .ok () => return .ok (fd, path)

/-- `util_flush_and_sync`. -/
def utilFlushAndSync (f : Nat) : Prog Bool := do
  match ← fflush f with
  | .error _ => return false
  | .ok () =>
    match ← fsync f with
    | .error _ => return false
    | .ok () => return true

/-- `strrchr(path, '/')`, as the number of bytes in front of that slash. -/
def lastSlash (path : Bytes) : Option Nat :=
  if 47 ∈ path then some (path.length - 1 - path.reverse.idxOf 47) else none

/-- The directory part of `util_sync_parent_directory`, in its buffer of 512 bytes. -/
def parentDirectory (path : Bytes) : Option Bytes :=
  match lastSlash path with
  | none => some (str ".")
  | some slash =>
    let length := if slash = 0 then 1 else slash
    if length ≥ 512 then none else some (path.take length)

/-- `util_sync_parent_directory`. A directory that cannot be synced at all counts as
synced. -/
def utilSyncParentDirectory (path : Bytes) : Prog Bool := do
  let some directory := parentDirectory path | return false
  match ← openDirectory directory with
  | .error _ => return false
  | .ok () =>
    let result ← fsyncDirectory
    let closed ← closeDirectory
    match result with
    | .ok () =>
      match closed with
      | .error _ => return false
      | .ok () => return true
    | .error errno => return errno == .einval || errno == .enotsup

/-- Successive `fwrite`s, each only after the one before has succeeded. -/
def writeFields (f : Nat) : List Bytes → Prog Bool
  | [] => return true
  | field :: fields => do
    match ← fwrite f field with
    | .error _ => return false
    | .ok () => writeFields f fields

/-- `util_read_u32_le`. -/
def utilReadU32Le (f : Nat) : Prog (Option UInt32) := do
  let b ← fread f 4
  if b.length ≠ 4 then return none else return some (getU32Le b)

/-- `util_read_u64_le`. -/
def utilReadU64Le (f : Nat) : Prog (Option UInt64) := do
  let b ← fread f 8
  if b.length ≠ 8 then return none else return some (getU64Le b)

/-! ## Headers -/

/-- The fields `write_header` writes, its padding last. -/
def headerFields (rowCount : UInt64) : List Bytes :=
  [putU32Le STORAGE_TABLE_MAGIC, putU32Le STORAGE_TABLE_VERSION,
    putU32Le STORAGE_HEADER_SIZE.toUInt32,
    putU32Le STORAGE_PAGE_SIZE.toUInt32, putU32Le STORAGE_ROW_SIZE.toUInt32, putU32Le 0,
    putU64Le rowCount, List.replicate (64 - 32) 0]

/-- `write_header`. -/
def writeHeader (f : Nat) (rowCount : UInt64) : Prog (Except TableStatus Unit) := do
  match ← fseek f (some 0) with
  | .error _ => return .error .ioError
  | .ok () =>
    if !(← writeFields f (headerFields rowCount)) then return .error .ioError
    match ← fflush f with
    | .error _ => return .error .ioError
    | .ok () => return .ok ()

/-- The numbers of a table header, in the order they are read. -/
structure TableHeader where
  magic : UInt32
  version : UInt32
  headerSize : UInt32
  pageSize : UInt32
  rowSize : UInt32
  reserved0 : UInt32
  count : UInt64
  deriving DecidableEq

/-- The reading part of `read_and_validate_header`. -/
def readHeader (f : Nat) : Prog (Option TableHeader) := do
  let some magic ← utilReadU32Le f | return none
  let some version ← utilReadU32Le f | return none
  let some headerSize ← utilReadU32Le f | return none
  let some pageSize ← utilReadU32Le f | return none
  let some rowSize ← utilReadU32Le f | return none
  let some reserved0 ← utilReadU32Le f | return none
  let some count ← utilReadU64Le f | return none
  return some { magic, version, headerSize, pageSize, rowSize, reserved0, count }

/-- The checks of `read_and_validate_header`: the row count, or the status. -/
def validateHeader (header : TableHeader) (fileSize : Nat) : Except TableStatus UInt64 :=
  if header.magic ≠ STORAGE_TABLE_MAGIC then .error .incompatible
  else if header.version ≠ STORAGE_TABLE_VERSION then .error .incompatible
  else if header.headerSize ≠ STORAGE_HEADER_SIZE.toUInt32 then .error .incompatible
  else if header.pageSize ≠ STORAGE_PAGE_SIZE.toUInt32 then .error .incompatible
  else if header.rowSize ≠ STORAGE_ROW_SIZE.toUInt32 then .error .incompatible
  else if header.reserved0 ≠ 0 then .error .corrupt
  else
    match storageLogicalSize header.count with
    | none => .error .corrupt
    | some minimumSize =>
      if fileSize < minimumSize.toNat then .error .corrupt else .ok header.count

/-- `fseek(f, 0, SEEK_END)` and `ftell(f)`. -/
def seekEnd (f : Nat) : Prog (Except Errno Nat) := do
  match ← fseek f none with
  | .error errno => return .error errno
  | .ok () => ftell f

/-- `read_and_validate_header`. -/
def readAndValidateHeader (f : Nat) : Prog (Except TableStatus UInt64) := do
  match ← seekEnd f with
  | .error _ => return .error .ioError
  | .ok fileSize =>
    if fileSize < STORAGE_HEADER_SIZE.toNat then return .error .incompatible
    match ← fseek f (some 0) with
    | .error _ => return .error .ioError
    | .ok () =>
      let some header ← readHeader f | return .error .corrupt
      return validateHeader header fileSize

/-! ## The rollback journal -/

/-- The journal image in front of its checksum. -/
def journalBody (table : Table) (row : Row) (offset newCount : UInt64) : Bytes :=
  let bytes := List.replicate JOURNAL_SIZE 0
  let bytes := copyAt bytes 0 (putU32Le JOURNAL_MAGIC)
  let bytes := copyAt bytes 4 (putU32Le JOURNAL_VERSION)
  let bytes := copyAt bytes 8 (putU32Le JOURNAL_SIZE.toUInt32)
  let bytes := copyAt bytes 16 (putU64Le table.rowCount)
  let bytes := copyAt bytes 24 (putU64Le newCount)
  let bytes := copyAt bytes 32 (putU64Le offset)
  let bytes := copyAt bytes 40 table.name
  copyAt bytes 72 (storageSerializeRow row)

/-- The 128 bytes of a journal. -/
def journalImage (table : Table) (row : Row) (offset newCount : UInt64) : Bytes :=
  let bytes := journalBody table row offset newCount
  copyAt bytes JOURNAL_CHECKSUM_AT (putU32Le (journalChecksum bytes))

/-- Give up a temporary file: `fclose(f); unlink(temp_path);`. -/
def discard (f : Nat) (tempPath : Path) : Prog Unit := do
  let _ ← fclose f
  let _ ← unlink tempPath

/-- `persist_insert_journal`. -/
def persistInsertJournal (table : Table) (row : Row) (offset newCount : UInt64) :
    Prog (Except TableStatus Unit) := do
  let some journalPath := storageJournalPath table.name 128 | return .error .durabilityError
  let bytes := journalImage table row offset newCount
  match ← utilSecureTempFile journalPath 160 with
  | .error errno =>
    if errno = .eacces ∨ errno = .erofs then return .error .readOnly
    return .error .durabilityError
  | .ok (fd, tempPath) =>
    match ← fdopen fd with
    | .error _ =>
      let _ ← close fd
      let _ ← unlink tempPath
      return .error .durabilityError
    | .ok () =>
      if !(← writeFields fd [bytes]) then
        discard fd tempPath
        return .error .durabilityError
      if !(← utilFlushAndSync fd) then
        discard fd tempPath
        return .error .durabilityError
      match ← fclose fd with
      | .error _ =>
        let _ ← unlink tempPath
        return .error .durabilityError
      | .ok () =>
        match ← rename tempPath journalPath with
        | .error errno =>
          let _ ← unlink tempPath
          if errno = .eacces ∨ errno = .erofs then return .error .readOnly
          return .error .durabilityError
        | .ok () =>
          if !(← utilSyncParentDirectory journalPath) then return .error .durabilityError
          return .ok ()

/-- Read a journal file: the 128 bytes, and nothing behind them. -/
def readJournal (fd : Nat) : Prog (Option Bytes) := do
  match ← read fd JOURNAL_SIZE with
  | .error _ => return none
  | .ok bytes =>
    if bytes.length ≠ JOURNAL_SIZE then return none
    match ← read fd 1 with
    | .error _ => return none
    | .ok extra => if extra.length ≠ 0 then return none else return some bytes

/-- The checks of `recover_insert_journal`: the row count in front of the insertion and
the size of the table file then. -/
def validateJournal (bytes tableName : Bytes) : Option (UInt64 × Nat) := do
  if getU32Le bytes ≠ JOURNAL_MAGIC then none
  if getU32Le (bytes.drop 4) ≠ JOURNAL_VERSION then none
  if getU32Le (bytes.drop 8) ≠ JOURNAL_SIZE.toUInt32 then none
  if getU32Le (bytes.drop 12) ≠ 0 then none
  if getU32Le (bytes.drop JOURNAL_CHECKSUM_AT) ≠ journalChecksum bytes then none
  let storedName := cstr ((bytes.drop 40).take (SQL_TABLE_NAME_CAPACITY - 1))
  let previousCount := getU64Le (bytes.drop 16)
  let intendedCount := getU64Le (bytes.drop 24)
  let offset := getU64Le (bytes.drop 32)
  if storedName ≠ tableName then none
  let expectedCount ← utilAddU64 previousCount 1
  if intendedCount ≠ expectedCount then none
  let expectedOffset ← storageOffsetForRow previousCount
  if expectedOffset ≠ offset then none
  let oldSize ← storageLogicalSize previousCount
  -- `off_t` is signed: a size that does not fit in it is refused
  if oldSize.toNat > maxFileSize then none
  return (previousCount, oldSize.toNat)

/-- `recover_insert_journal`. -/
def recoverInsertJournal (tableFile : Nat)
    (tableName : Bytes) : Prog (Except TableStatus Unit) := do
  let some journalPath := storageJournalPath tableName 128 | return .error .durabilityError
  match ← openFile journalPath false with
  | .error errno => if errno = .enoent then return .ok () else return .error .durabilityError
  | .ok fd =>
    match ← readJournal fd with
    | none =>
      let _ ← close fd
      return .error .corrupt
    | some bytes =>
      match ← close fd with
      | .error _ => return .error .durabilityError
      | .ok () =>
        let some (previousCount, oldSize) :=
          validateJournal bytes tableName | return .error .corrupt
        match ← writeHeader tableFile previousCount with
        | .error _ => return .error .durabilityError
        | .ok () =>
          if !(← utilFlushAndSync tableFile) then return .error .durabilityError
          match ← ftruncate tableFile oldSize with
          | .error _ => return .error .durabilityError
          | .ok () =>
            if !(← utilFlushAndSync tableFile) then return .error .durabilityError
            match ← unlink journalPath with
            | .error _ => return .error .durabilityError
            | .ok () =>
              if !(← utilSyncParentDirectory journalPath) then return .error .durabilityError
              return .ok ()

/-! ## Tables -/

/-- `storage_create_table`. -/
def storageCreateTable (tableName : Bytes) : Prog TableCreateStatus := do
  if tableName.length > SQL_MAX_TABLE_NAME_LENGTH then return .nameTooLong
  if !storageValidTableName tableName then return .invalidName
  let some path := storageTablePath tableName 96 | return .invalidName
  let some journalPath := storageJournalPath tableName 128 | return .invalidName
  match ← openFile path true with
  | .error errno => if errno = .eexist then return .alreadyExists else return .ioError
  | .ok fd =>
    match ← fchmod fd with
    | .error _ =>
      let _ ← close fd
      let _ ← unlink path
      return .ioError
    | .ok () =>
      match ← fdopen fd with
      | .error _ =>
        let _ ← close fd
        let _ ← unlink path
        return .ioError
      | .ok () =>
        match ← writeHeader fd 0 with
        | .error _ =>
          discard fd path
          return .ioError
        | .ok () =>
          if !(← utilFlushAndSync fd) then
            discard fd path
            return .ioError
          match ← fclose fd with
          | .error _ =>
            let _ ← unlink path
            return .ioError
          | .ok () =>
            match ← access journalPath with
            | .ok () =>
              let _ ← unlink path
              return .ioError
            | .error _ =>
              if !(← utilSyncParentDirectory path) then
                let _ ← unlink path
                return .ioError
              return .ok

/-- What follows once the stream of `storage_open_table_mode` is open. -/
def finishOpen (name : Bytes) (file : Nat) (writable : Bool) : Prog (Except TableStatus Table) := do
  match ← readAndValidateHeader file with
  | .error status =>
    let _ ← fclose file
    return .error status
  | .ok rowCount => return .ok { name, file, rowCount, writable }

/-- `storage_open_table_mode`. -/
def storageOpenTableMode (tableName : Bytes)
    (writable : Bool) : Prog (Except TableStatus Table) := do
  if !storageValidTableName tableName then return .error .notFound
  if !(← allocate) then return .error .allocError
  let some name := utilCopyChecked SQL_TABLE_NAME_CAPACITY tableName | return .error .ioError
  let some path := storageTablePath tableName 96 | return .error .ioError
  let some journalPath := storageJournalPath tableName 128 | return .error .ioError
  match ← openFile path false with
  | .error errno =>
    if errno = .enoent then return .error .notFound
    if writable && (errno = .eacces || errno = .erofs) then return .error .readOnly
    return .error .ioError
  | .ok fd =>
    match ← fdopen fd with
    | .error _ =>
      let _ ← close fd
      return .error .ioError
    | .ok () =>
      if writable then
        match ← recoverInsertJournal fd tableName with
        | .error status =>
          let _ ← fclose fd
          return .error status
        | .ok () => finishOpen name fd true
      else
        match ← access journalPath with
        | .ok () =>
          let _ ← fclose fd
          return .error .recoveryRequired
        | .error _ => finishOpen name fd false

/-- `storage_open_table_readonly`. -/
def storageOpenTableReadonly (tableName : Bytes) : Prog (Except TableStatus Table) :=
  storageOpenTableMode tableName false

/-- `storage_open_table`. -/
def storageOpenTable (tableName : Bytes) : Prog (Except TableStatus Table) :=
  storageOpenTableMode tableName true

/-- `storage_close_table`. -/
def storageCloseTable (table : Table) : Prog Unit := do
  let _ ← fclose table.file

/-- `storage_file_size`. -/
def storageFileSize (table : Table) : Prog (Except TableStatus UInt64) := do
  match ← seekEnd table.file with
  | .error _ => return .error .ioError
  | .ok size => return .ok size.toUInt64

/-- `storage_insert_row`: the offset of the row, and the table with its new count. -/
def storageInsertRow (table : Table) (row : Row) : Prog (Except TableStatus (UInt64 × Table)) := do
  if !table.writable then return .error .readOnly
  let some offset := storageOffsetForRow table.rowCount | return .error .ioError
  if offset.toNat > LONG_MAX then return .error .ioError
  let some newCount := utilAddU64 table.rowCount 1 | return .error .ioError
  let some journalPath := storageJournalPath table.name 128 | return .error .ioError
  match ← persistInsertJournal table row offset newCount with
  | .error status => return .error status
  | .ok () =>
    match ← fseek table.file (some offset.toNat) with
    | .error _ => return .error .ioError
    | .ok () =>
      if !(← writeFields table.file [storageSerializeRow row]) then return .error .ioError
      if !(← utilFlushAndSync table.file) then return .error .durabilityError
      match ← writeHeader table.file newCount with
      | .error _ => return .error .durabilityError
      | .ok () =>
        if !(← utilFlushAndSync table.file) then return .error .durabilityError
        match ← unlink journalPath with
        | .error _ => return .error .durabilityError
        | .ok () =>
          if !(← utilSyncParentDirectory journalPath) then return .error .durabilityError
          return .ok (offset, { table with rowCount := newCount })

/-! ## Rows -/

/-- `storage_read_row_at_offset`. -/
def storageReadRowAtOffset (table : Table) (offset : UInt64) : Prog (Except TableStatus Row) := do
  match ← storageFileSize table with
  | .error _ => return .error .ioError
  | .ok fileSize =>
    if !storageIsValidRowOffset offset fileSize table.rowCount then return .error .invalidOffset
    match ← fseek table.file (some offset.toNat) with
    | .error _ => return .error .ioError
    | .ok () =>
      let buf ← fread table.file STORAGE_ROW_SIZE.toNat
      if buf.length ≠ STORAGE_ROW_SIZE.toNat then return .error .ioError
      return .ok (storageDeserializeRow buf)

/-- `storage_scan_begin`. -/
def storageScanBegin (table : Table) : RowScanner :=
  { table, nextRow := 0, rowCount := table.rowCount }

/-- `storage_scan_next`: the row, its offset and the scanner behind it. -/
def storageScanNext (scan : RowScanner) : Prog (Except ScanStatus (Row × UInt64 × RowScanner)) := do
  if scan.nextRow ≥ scan.rowCount then return .error .end
  let some offset := storageOffsetForRow scan.nextRow | return .error .corrupt
  match ← storageReadRowAtOffset scan.table offset with
  | .error status =>
    if status = .invalidOffset ∨ status = .corrupt then return .error .corrupt
    return .error .ioError
  | .ok row => return .ok (row, offset, { scan with nextRow := scan.nextRow + 1 })

/-- The loop over all rows of a scan: each row is given to `body`, which changes the
state of the loop or leaves it with a result. The loop ends with the status of the
scan. A scan has at most `rowCount` rows, so it takes at most one pass more. -/
def forRows (body : σ → Row → UInt64 → Prog (Except ρ σ)) :
    Nat → RowScanner → σ → Prog (Except ρ (ScanStatus × σ))
  | 0, _, state => return .ok (.end, state)
  | passes + 1, scan, state => do
    match ← storageScanNext scan with
    | .error status => return .ok (status, state)
    | .ok (row, offset, scan) =>
      match ← body state row offset with
      | .error result => return .error result
      | .ok state => forRows body passes scan state

/-- The passes that `forRows` needs for a whole table. -/
def scanPasses (table : Table) : Nat := table.rowCount.toNat + 1

/-- `storage_find_id`. -/
def storageFindId (table : Table) (id : Int32) : Prog (Except ScanStatus (Row × UInt64)) := do
  let found ← forRows (fun () cur off => return if cur.id = id then .error (cur, off) else .ok ())
    (scanPasses table) (storageScanBegin table) ()
  match found with
  | .error hit => return .ok hit
  | .ok (status, ()) => return .error status

/-- `sizeof(Row)`. -/
def SIZEOF_ROW : Nat := 36

/-- The loop of `storage_select_all_rows`: `missing` rows of the array are not filled yet. -/
def fillRows : Nat → RowScanner → List Row → Prog (Except TableStatus (List Row))
  | 0, _, arr => return .ok arr
  | missing + 1, scan, arr => do
    match ← storageScanNext scan with
    | .error .end => return .ok arr
    | .error .corrupt => return .error .corrupt
    | .error _ => return .error .ioError
    | .ok (row, _, scan) => fillRows missing scan (arr ++ [row])

/-- `storage_select_all_rows`. -/
def storageSelectAllRows (table : Table) : Prog (Except TableStatus (List Row)) := do
  if table.rowCount = 0 then return .ok []
  let some _bytes := utilMulSize table.rowCount.toNat SIZEOF_ROW | return .error .allocError
  if !(← allocate) then return .error .allocError
  fillRows table.rowCount.toNat (storageScanBegin table) []

end SqlEngine
