import SqlEngine.HashIndex
import SqlEngine.Storage

/-! Index files: writing them beside the old one, reading them back against the table,
rebuilding them from the rows, and checking what a lookup returns. -/
namespace SqlEngine

open Library Posix

def INDEX_MAGIC : UInt32 := 0x494C5153

def INDEX_VERSION : UInt32 := 1

def INDEX_HEADER_SIZE : Nat := 32

def INDEX_ENTRY_ONDISK : UInt32 := 12

/-- A computation of the hash index, with its requests for memory as calls. -/
def liftMemory (computation : Allocating α) : Prog α :=
  computation.lift (fun _ => Call.allocate) fun _ granted => granted

/-! ## Writing -/

/-- The fields `write_index_header` writes, its padding last. -/
def indexHeaderFields (entryCount : UInt32) : List Bytes :=
  [putU32Le INDEX_MAGIC, putU32Le INDEX_VERSION, putU32Le INDEX_HEADER_SIZE.toUInt32,
    putU32Le INDEX_ENTRY_ONDISK, putU32Le entryCount, putU32Le 0,
    List.replicate (INDEX_HEADER_SIZE - 24) 0]

/-- The fields `write_index_entries` writes, in the order of the chains. -/
def indexEntryFields (index : Index) : List Bytes :=
  index.buckets.flatten.flatMap fun node =>
    [putU32Le node.key.toUInt32, putU64Le node.fileOffset.toUInt64]

/-- `index_persist`. -/
def indexPersist (index : Index) : Prog IndexStatus := do
  if index.entryCount > UINT32_MAX then return .persistError
  let some path := storageIndexPath index.tableName 96 | return .persistError
  match ← utilSecureTempFile path 128 with
  | .error errno =>
    if errno = .eacces ∨ errno = .erofs then return .readOnly
    return .tempfileError
  | .ok (fd, tempPath) =>
    match ← fdopen fd with
    | .error _ =>
      let _ ← close fd
      let _ ← unlink tempPath
      return .tempfileError
    | .ok () =>
      if !(← writeFields fd (indexHeaderFields index.entryCount.toUInt32)) then
        discard fd tempPath
        return .persistError
      if !(← writeFields fd (indexEntryFields index)) then
        discard fd tempPath
        return .persistError
      if !(← utilFlushAndSync fd) then
        discard fd tempPath
        return .persistError
      match ← fclose fd with
      | .error _ =>
        let _ ← unlink tempPath
        return .persistError
      | .ok () =>
        match ← rename tempPath path with
        | .error _ =>
          let _ ← unlink tempPath
          return .persistError
        | .ok () =>
          if !(← utilSyncParentDirectory path) then return .persistError
          return .ok

/-! ## Reading -/

/-- The numbers of an index header, in the order they are read. -/
structure IndexHeader where
  magic : UInt32
  version : UInt32
  headerSize : UInt32
  entrySize : UInt32
  entryCount : UInt32
  reserved : UInt32
  deriving DecidableEq

/-- The reading part of `read_index_header`. -/
def readIndexFields (file : Nat) : Prog (Option IndexHeader) := do
  let some magic ← utilReadU32Le file | return none
  let some version ← utilReadU32Le file | return none
  let some headerSize ← utilReadU32Le file | return none
  let some entrySize ← utilReadU32Le file | return none
  let some entryCount ← utilReadU32Le file | return none
  let some reserved ← utilReadU32Le file | return none
  return some { magic, version, headerSize, entrySize, entryCount, reserved }

/-- The checks of `read_index_header`: the entry count, or the status. -/
def validateIndexHeader (header : IndexHeader) (fileSize tableRowCount : UInt64) :
    Except IndexStatus UInt32 :=
  if header.magic ≠ INDEX_MAGIC ∨ header.version ≠ INDEX_VERSION ∨
      header.headerSize ≠ INDEX_HEADER_SIZE.toUInt32 ∨ header.entrySize ≠ INDEX_ENTRY_ONDISK ∨
      header.reserved ≠ 0 then .error .incompatible
  else if header.entryCount.toUInt64 ≠ tableRowCount then .error .corrupt
  else
    match utilMulU64 header.entryCount.toUInt64 INDEX_ENTRY_ONDISK.toUInt64 with
    | none => .error .corrupt
    | some entriesSize =>
      match utilAddU64 INDEX_HEADER_SIZE.toUInt64 entriesSize with
      | none => .error .corrupt
      | some expectedSize =>
        if expectedSize ≠ fileSize then .error .corrupt else .ok header.entryCount

/-- `read_index_header`. -/
def readIndexHeader (file : Nat) (fileSize tableRowCount : UInt64) :
    Prog (Except IndexStatus UInt32) := do
  let some header ← readIndexFields file | return .error .corrupt
  return validateIndexHeader header fileSize tableRowCount

/-- The loop of `index_load` over the entries of the file. -/
def loadEntries (f : Nat) : Nat → Index → Prog (Except IndexStatus Index)
  | 0, index => return .ok index
  | count + 1, index => do
    let some key ← utilReadU32Le f | return .error .corrupt
    let some offset ← utilReadU64Le f | return .error .corrupt
    match ← liftMemory (indexInsert index key.toInt32 offset.toInt64 false) with
    | (.ok, index) => loadEntries f count index
    | (.duplicateKey, _) => return .error .corrupt
    | (status, _) => return .error status

/-- `index_load`, from the open index file on. -/
def loadFrom (f : Nat) (table : Table) (tableName : Bytes) : Prog (Except IndexStatus Index) := do
  match ← seekEnd f with
  | .error _ => return .error .ioError
  | .ok fileSize =>
    match ← fseek f (some 0) with
    | .error _ => return .error .ioError
    | .ok () =>
      if fileSize < INDEX_HEADER_SIZE then return .error .incompatible
      match ← readIndexHeader f fileSize.toUInt64 table.rowCount with
      | .error status => return .error status
      | .ok entryCount =>
        match ← fseek f (some INDEX_HEADER_SIZE) with
        | .error _ => return .error .ioError
        | .ok () =>
          let some index ← liftMemory (indexCreateSized tableName entryCount.toNat)
            | return .error .allocError
          loadEntries f entryCount.toNat index

/-- `index_load`. -/
def indexLoad (tableName : Bytes) : Prog (Except IndexStatus Index) := do
  if !storageValidTableName tableName then return .error .allocError
  let some path := storageIndexPath tableName 96 | return .error .allocError
  match ← storageOpenTableReadonly tableName with
  | .error status => if status = .notFound then return .error .notFound else return .error .ioError
  | .ok table =>
    match ← fopen path with
    | .error errno =>
      storageCloseTable table
      if errno = .enoent then return .error .notFound else return .error .ioError
    | .ok f =>
      let result ← loadFrom f table tableName
      let _ ← fclose f
      storageCloseTable table
      return result

/-! ## Rebuilding -/

/-- `table_name_from_path`. -/
def tableNameFromPath (tablePath : Bytes) (tableNameSize : Nat) : Option Bytes :=
  if tableNameSize = 0 then none
  else
    let base :=
      match lastSlash tablePath with
      | none => tablePath
      | some slash => tablePath.drop (slash + 1)
    let length :=
      if base.length > 4 ∧ base.drop (base.length - 4) = str ".tbl" then base.length - 4
        else base.length
    if length = 0 ∨ length ≥ tableNameSize then none
    else
      let tableName := base.take length
      if storageValidTableName tableName then some tableName else none

/-- The rows of a table go into an index, in order and without replacing. -/
def indexRows (table : Table) (index : Index) : Prog (Except IndexStatus Index) := do
  let scanned ← forRows (fun index row offset => do
      match ← liftMemory (indexInsert index row.id offset.toInt64 false) with
      | (.ok, index) => return .ok index
      | (.duplicateKey, _) => return .error IndexStatus.duplicatePrimaryKey
      | (status, _) => return .error status)
    (scanPasses table) (storageScanBegin table) index
  match scanned with
  | .error status => return .error status
  | .ok (.end, index) => return .ok index
  | .ok (.corrupt, _) => return .error .corrupt
  | .ok (_, _) => return .error .ioError

/-- `index_rebuild_from_table`, from the open table on. -/
def rebuildFrom (table : Table) (tableName indexPath : Bytes) : Prog IndexStatus := do
  if table.rowCount.toNat > SIZE_MAX then return .allocError
  let some index ← liftMemory (indexCreateSized tableName table.rowCount.toNat) | return .allocError
  match ← indexRows table index with
  | .error status => return status
  | .ok index =>
    let result ← indexPersist index
    if result ≠ .ok then return result
    match storageIndexPath tableName 96 with
    | none => return .ok
    | some derivedIndex =>
      if indexPath = derivedIndex then return .ok
      match ← rename derivedIndex indexPath with
      | .error _ => return .persistError
      | .ok () =>
        if !(← utilSyncParentDirectory indexPath) then return .persistError else return .ok

/-- `index_rebuild_from_table`. -/
def indexRebuildFromTable (tablePath indexPath : Bytes) : Prog IndexStatus := do
  let some tableName := tableNameFromPath tablePath SQL_TABLE_NAME_CAPACITY | return .allocError
  match ← storageOpenTableReadonly tableName with
  | .error status =>
    if status = .notFound then return .notFound
    if status = .allocError then return .allocError
    if status = .corrupt ∨ status = .incompatible then return .corrupt
    return .ioError
  | .ok table =>
    let result ← rebuildFrom table tableName indexPath
    storageCloseTable table
    return result

/-- `index_rebuild`. -/
def indexRebuild (tableName : Bytes) : Prog IndexStatus := do
  if !storageValidTableName tableName then return .allocError
  let some tablePath := storageTablePath tableName 96 | return .allocError
  let some indexPath := storageIndexPath tableName 96 | return .allocError
  indexRebuildFromTable tablePath indexPath

/-- `index_load_or_rebuild`. -/
def indexLoadOrRebuild (tableName : Bytes) : Prog (Except IndexStatus Index) := do
  match ← indexLoad tableName with
  | .ok index => return .ok index
  | .error status =>
    if status = .notFound ∨ status = .corrupt ∨ status = .incompatible then
      let status ← indexRebuild tableName
      if status ≠ .ok then return .error status
      indexLoad tableName
    else return .error status

/-- `index_validate_lookup`: the row that an offset of the index really has. -/
def indexValidateLookup (table : Table) (key : Int32)
    (offset : Int64) : Prog (Except IndexStatus Row) := do
  if offset < 0 then return .error .invalidOffset
  match ← storageFileSize table with
  | .error _ => return .error .invalidOffset
  | .ok fileSize =>
    if !storageIsValidRowOffset offset.toUInt64 fileSize table.rowCount then
      return .error .invalidOffset
    match ← storageReadRowAtOffset table offset.toUInt64 with
    | .error _ => return .error .invalidOffset
    | .ok row => if row.id ≠ key then return .error .keyMismatch else return .ok row

end SqlEngine
