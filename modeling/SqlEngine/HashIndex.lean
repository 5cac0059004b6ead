import SqlEngine.Library.Program
import SqlEngine.Library.Chaining
import SqlEngine.Layout

/-! The in-memory hash index: separate chaining with doubling. Its functions ask for
memory, and each request may be refused; `free` has no other effect and is left out. -/
namespace SqlEngine

open Library Library.Chaining

inductive IndexStatus where
  | ok
  | notFound
  | ioError
  | corrupt
  | incompatible
  | allocError
  | invalidOffset
  | keyMismatch
  | duplicateKey
  | persistError
  | duplicatePrimaryKey
  | tempfileError
  | readOnly
  deriving DecidableEq, Repr

def INDEX_INITIAL_BUCKETS : Nat := 16

def INDEX_MAX_LOAD_NUM : Nat := 3

def INDEX_MAX_LOAD_DEN : Nat := 4

structure IndexEntry where
  key : Int32
  fileOffset : Int64
  deriving DecidableEq

/-- An index; a chain lists its nodes from the bucket on. -/
structure Index where
  tableName : Bytes
  buckets : List (List IndexEntry)
  bucketCount : Nat
  entryCount : Nat
  deriving DecidableEq

/-- `malloc` and `calloc`. -/
inductive Memory where
  | allocate

/-- A computation that may ask for memory; the reply says whether it was granted. -/
abbrev Allocating := Program Memory fun _ => Bool

def malloc : Allocating Bool := Program.perform .allocate

/-- `index_hash`. -/
def indexHash (key : Int32) : UInt32 :=
  let value := key.toUInt32
  let value := value ^^^ (value >>> 16)
  let value := value * 0x7FEB352D
  let value := value ^^^ (value >>> 15)
  let value := value * 0x846CA68B
  value ^^^ (value >>> 16)

/-- `index_hash(key) & (bucket_count - 1)`. -/
def indexBucket (bucketCount : Nat) (key : Int32) : Nat :=
  (indexHash key).toNat &&& (bucketCount - 1)

/-- `index_load_limit`. -/
def indexLoadLimit (bucketCount : Nat) : Nat :=
  bucketCount / INDEX_MAX_LOAD_DEN * INDEX_MAX_LOAD_NUM

/-- The loop of `bucket_count_for_entries`. Each pass doubles the buckets, so that no
more than 64 passes fit below `SIZE_MAX`. -/
def bucketCountFrom (expectedEntries : Nat) : Nat → Nat → Option Nat
  | 0, _ => none
  | passes + 1, buckets =>
    if expectedEntries ≤ indexLoadLimit buckets then some buckets
    else if buckets > SIZE_MAX / 2 then none
    else bucketCountFrom expectedEntries passes (buckets * 2)

/-- `bucket_count_for_entries`. -/
def bucketCountForEntries (expectedEntries : Nat) : Option Nat :=
  bucketCountFrom expectedEntries 64 INDEX_INITIAL_BUCKETS

/-- `sizeof(IndexNode *)`. -/
def POINTER_SIZE : Nat := 8

/-- `index_create_sized`. -/
def indexCreateSized (tableName : Bytes) (expectedEntries : Nat) : Allocating (Option Index) := do
  if !storageValidTableName tableName then return none
  let some bucketCount := bucketCountForEntries expectedEntries | return none
  let some _bytes := utilMulSize bucketCount POINTER_SIZE | return none
  if !(← malloc) then return none
  if !(← malloc) then return none
  let some name := utilCopyChecked SQL_TABLE_NAME_CAPACITY tableName | return none
  return some
    { tableName := name, buckets := List.replicate bucketCount [], bucketCount, entryCount := 0 }

/-- `index_create`. -/
def indexCreate (tableName : Bytes) : Allocating (Option Index) := indexCreateSized tableName 0

/-- `index_resize`: every node is moved in front of its new chain. -/
def indexResize (index : Index) (newCount : Nat) : Allocating (IndexStatus × Index) := do
  if newCount ≤ index.bucketCount ∨ newCount &&& (newCount - 1) ≠ 0 then return (.allocError, index)
  let some _bytes := utilMulSize newCount POINTER_SIZE | return (.allocError, index)
  if !(← malloc) then return (.allocError, index)
  let newBuckets :=
    relink IndexEntry.key (indexBucket newCount) index.buckets (List.replicate newCount [])
  return (.ok, { index with buckets := newBuckets, bucketCount := newCount })

/-- A function in the place of `index_resize`. -/
abbrev Resize := Index → Nat → Allocating (IndexStatus × Index)

/-- The arguments of `index_insert` behind the index. -/
structure Insertion where
  key : Int32
  fileOffset : Int64
  replace : Bool
  deriving DecidableEq

/-- `index_insert`, for any function in the place of `index_resize`. A failed insert
returns the index too: it may have been resized. -/
def indexInsertWith (resize : Resize) (index : Index) (insertion : Insertion) :
    Allocating (IndexStatus × Index) := do
  let { key, fileOffset, replace } := insertion
  if index.bucketCount = 0 then return (.allocError, index)
  let bucket := indexBucket index.bucketCount key
  let chain := index.buckets.getD bucket []
  if (chain.find? fun node => node.key = key).isSome then
    if !replace then return (.duplicateKey, index)
    let chain :=
      updateFirst (fun node => node.key = key) (fun node => { node with fileOffset }) chain
    return (.ok, { index with buckets := index.buckets.set bucket chain })
  let mut index := index
  if index.entryCount ≥ indexLoadLimit index.bucketCount then
    if index.bucketCount > SIZE_MAX / 2 then return (.allocError, index)
    let (status, resized) ← resize index (index.bucketCount * 2)
    if status ≠ .ok then return (.allocError, resized)
    index := resized
  if !(← malloc) then return (.allocError, index)
  let buckets :=
    push IndexEntry.key (indexBucket index.bucketCount) index.buckets { key, fileOffset }
  return (.ok, { index with buckets, entryCount := index.entryCount + 1 })

/-- `index_insert`. -/
def indexInsert (index : Index) (key : Int32) (fileOffset : Int64) (replace : Bool) :
    Allocating (IndexStatus × Index) :=
  indexInsertWith indexResize index { key, fileOffset, replace }

/-- `index_lookup`: the offset, or the status without one. -/
def indexLookup (index : Index) (key : Int32) : Except IndexStatus Int64 :=
  if index.bucketCount = 0 then .error .allocError
  else
    match (index.buckets.getD (indexBucket index.bucketCount key) []).find? fun node =>
      node.key = key with
    | some node => .ok node.fileOffset
    | none => .error .notFound

end SqlEngine
