import SqlEngine.Parser

/-! The layout of table and journal files: rows and pages, headers, checksums and
file names. Everything here is arithmetic on bytes and fixed-width integers. -/
namespace SqlEngine

def STORAGE_PAGE_SIZE : UInt64 := 4096

def STORAGE_NAME_SIZE : Nat := 32

def STORAGE_ROW_SIZE : UInt64 := 36

def STORAGE_HEADER_SIZE : UInt64 := 64

def STORAGE_TABLE_MAGIC : UInt32 := 0x544C5153

def STORAGE_TABLE_VERSION : UInt32 := 1

def JOURNAL_MAGIC : UInt32 := 0x4A4C5153

def JOURNAL_VERSION : UInt32 := 1

def JOURNAL_SIZE : Nat := 128

def JOURNAL_CHECKSUM_AT : Nat := 108

/-- A row; its name is the whole character array. -/
structure Row where
  id : Int32
  name : Bytes
  name_size : name.length = STORAGE_NAME_SIZE
  deriving DecidableEq

/-- A row whose name is empty. -/
def Row.nameless (id : Int32) : Row :=
  { id, name := List.replicate STORAGE_NAME_SIZE 0, name_size := List.length_replicate }

/-- `storage_rows_per_page`. -/
def storageRowsPerPage : UInt64 := STORAGE_PAGE_SIZE / STORAGE_ROW_SIZE

/-- `storage_offset_for_row`. -/
def storageOffsetForRow (rowNumber : UInt64) : Option UInt64 := do
  if storageRowsPerPage = 0 then none
  let page := rowNumber / storageRowsPerPage
  let slot := rowNumber % storageRowsPerPage
  let pageBase ← utilMulU64 page STORAGE_PAGE_SIZE
  let slotOff ← utilMulU64 slot STORAGE_ROW_SIZE
  let dataOff ← utilAddU64 pageBase slotOff
  utilAddU64 dataOff STORAGE_HEADER_SIZE

/-- `storage_row_number_for_offset`. -/
def storageRowNumberForOffset (offset : UInt64) : Option UInt64 := do
  if offset < STORAGE_HEADER_SIZE then none
  let dataOff := offset - STORAGE_HEADER_SIZE
  let page := dataOff / STORAGE_PAGE_SIZE
  let within := dataOff % STORAGE_PAGE_SIZE
  if within % STORAGE_ROW_SIZE ≠ 0 then none
  let slot := within / STORAGE_ROW_SIZE
  if slot ≥ storageRowsPerPage then none
  let rowNumber ← utilMulU64 page storageRowsPerPage
  utilAddU64 rowNumber slot

/-- `storage_is_valid_row_offset`. -/
def storageIsValidRowOffset (offset fileSize rowCount : UInt64) : Bool :=
  match storageRowNumberForOffset offset with
  | none => false
  | some rowNumber =>
    if rowNumber ≥ rowCount then false
    else if storageOffsetForRow rowNumber ≠ some offset then false
    else
      match utilAddU64 offset STORAGE_ROW_SIZE with
      | none => false
      | some stop => stop ≤ fileSize

/-- `storage_logical_size`: where the last of so many rows ends. -/
def storageLogicalSize (rowCount : UInt64) : Option UInt64 := do
  if rowCount = 0 then return STORAGE_HEADER_SIZE
  let lastOffset ← storageOffsetForRow (rowCount - 1)
  utilAddU64 lastOffset STORAGE_ROW_SIZE

/-! ## Numbers in files -/

/-- `put_u32_le`, and the bytes `util_write_u32_le` writes. -/
def putU32Le (value : UInt32) : Bytes :=
  [(value &&& 0xFF).toUInt8, ((value >>> 8) &&& 0xFF).toUInt8, ((value >>> 16) &&& 0xFF).toUInt8,
    ((value >>> 24) &&& 0xFF).toUInt8]

/-- `put_u64_le`, and the bytes `util_write_u64_le` writes. -/
def putU64Le (value : UInt64) : Bytes :=
  (List.range 8).map fun i => ((value >>> (8 * i).toUInt64) &&& 0xFF).toUInt8

/-- `get_u32_le`, and the value `util_read_u32_le` makes of its four bytes. -/
def getU32Le (src : Bytes) : UInt32 :=
  (src.getD 0 0).toUInt32 ||| (src.getD 1 0).toUInt32 <<< 8 ||| (src.getD 2 0).toUInt32 <<< 16 |||
    (src.getD 3 0).toUInt32 <<< 24

/-- `get_u64_le`, and the value `util_read_u64_le` makes of its eight bytes. -/
def getU64Le (src : Bytes) : UInt64 :=
  (List.range 8).foldl (fun value i => value ||| (src.getD i 0).toUInt64 <<< (8 * i).toUInt64) 0

/-- `storage_serialize_row`. -/
def storageSerializeRow (src : Row) : Bytes := putU32Le src.id.toUInt32 ++ src.name

/-- `storage_deserialize_row`, on a buffer of `STORAGE_ROW_SIZE` bytes; a byte the
buffer does not have reads as zero. -/
def storageDeserializeRow (src : Bytes) : Row :=
  { id := (getU32Le src).toInt32
    name := (src.drop 4).takeD (STORAGE_NAME_SIZE - 1) 0 ++ [0]
    name_size := by simp [STORAGE_NAME_SIZE] }

/-- The bytes `write_header` writes. -/
def headerBytes (rowCount : UInt64) : Bytes :=
  putU32Le STORAGE_TABLE_MAGIC ++ putU32Le STORAGE_TABLE_VERSION ++
    putU32Le STORAGE_HEADER_SIZE.toUInt32 ++
    putU32Le STORAGE_PAGE_SIZE.toUInt32 ++ putU32Le STORAGE_ROW_SIZE.toUInt32 ++ putU32Le 0 ++
    putU64Le rowCount ++ List.replicate (64 - 32) 0

/-- `journal_checksum`: the checksum field itself counts as zero. -/
def journalChecksum (bytes : Bytes) : UInt32 :=
  (List.range JOURNAL_SIZE).foldl (fun hash i =>
    let byte := if i ≥ JOURNAL_CHECKSUM_AT ∧ i < JOURNAL_CHECKSUM_AT + 4 then 0 else bytes.getD i 0
    (hash ^^^ byte.toUInt32) * 16777619) 2166136261

/-- `memcpy(bytes + at, data, strlen(data))`, into an array that has room for it. -/
def copyAt (bytes : Bytes) (position : Nat) (data : Bytes) : Bytes :=
  bytes.take position ++ data ++ bytes.drop (position + data.length)

/-! ## Names -/

/-- `storage_valid_table_name`, of a C string. -/
def storageValidTableName (name : Bytes) : Bool :=
  name ≠ [] && name.all (fun c => isLower c || isUpper c || isDigit c || c == 95) &&
    name.length ≤ SQL_MAX_TABLE_NAME_LENGTH

/-- `build_path`, into a buffer of the given size. -/
def buildPath (tableName suffix : Bytes) (buflen : Nat) : Option Bytes :=
  if buflen = 0 ∨ tableName.length + suffix.length + 1 > buflen then none
    else some (tableName ++ suffix)

/-- `storage_table_path`. -/
def storageTablePath (tableName : Bytes) (buflen : Nat) : Option Bytes :=
  buildPath tableName (str ".tbl") buflen

/-- `storage_index_path`. -/
def storageIndexPath (tableName : Bytes) (buflen : Nat) : Option Bytes :=
  buildPath tableName (str ".idx") buflen

/-- `storage_journal_path`. -/
def storageJournalPath (tableName : Bytes) (buflen : Nat) : Option Bytes :=
  buildPath tableName (str ".tbl.journal") buflen

end SqlEngine
