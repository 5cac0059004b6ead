import Mathlib.Data.List.TakeDrop
import SqlEngine.IndexFile
import SqlEngine.Semantic

/-! Execution of statements: the text a statement prints, SELECT through the index or by
scanning, and INSERT with its check for duplicate ids. -/
namespace SqlEngine

open Library Posix

inductive ExecStatus where
  | ok
  | parseError
  | semanticError
  | tableNotFound
  | tableCorrupt
  | duplicateId
  | ioError
  | indexError
  | indexPersistFailed
  | allocError
  | readOnly
  | unknown
  deriving DecidableEq, Repr

/-! ## Printed text -/

def newline : Bytes := [10]

/-- The text `%-10s` and `%-10d` give. -/
def padTo10 (text : Bytes) : Bytes := text ++ List.replicate (10 - text.length) 32

/-- The text `%d` gives for a number that is not negative. -/
def decimalNat (n : Nat) : Bytes := (Nat.toDigits 10 n).map fun c => c.toNat.toUInt8

def hexDigit (n : UInt8) : UInt8 := (str "0123456789ABCDEF").getD n.toNat 0

/-- One character of `util_print_escaped_field`. -/
def escapedChar (c : UInt8) : Bytes :=
  if c == 10 then str "\\n"
  else if c == 13 then str "\\r"
  else if c == 9 then str "\\t"
  else if c == 92 then str "\\\\"
  else if c == 34 then str "\\\""
  else if c < 0x20 || c == 0x7F || !isPrint c then
    [92, 120, hexDigit (c >>> 4), hexDigit (c &&& 0x0F)]
  else [c]

/-- `util_print_escaped_field`: NUL bytes at the end are not part of the field. -/
def escapedField (bytes : Bytes) : Bytes :=
  (bytes.reverse.dropWhile (· == 0)).reverse.flatMap escapedChar

/-- `print_header`. -/
def headerText (query : SelectQuery) : Bytes :=
  if query.selectAll then
    padTo10 (str "id") ++ str " name" ++ newline ++ padTo10
      (str "----------") ++ str " ------" ++ newline
  else (query.columns.intersperse (str " ")).flatten ++ newline

/-- One column of `print_row`. -/
def columnText (row : Row) (column : Bytes) : Bytes :=
  match columnFromName column with
  | .id => decimal row.id
  | .name => escapedField row.name
  | _ => []

/-- `print_row`. -/
def rowText (row : Row) (query : SelectQuery) : Bytes :=
  if query.selectAll then padTo10 (decimal row.id) ++ str " " ++ escapedField row.name ++ newline
  else ((query.columns.map (columnText row)).intersperse (str " ")).flatten ++ newline

/-- `row_matches_where`. -/
def rowMatchesWhere (row : Row) (query : SelectQuery) : Bool :=
  if !query.hasWhere then true
  else
    match columnFromName query.whereColumn with
    | .id =>
      match utilParseInt32 query.whereValue with
      | none => false
      | some wantedId => row.id == wantedId
    | .name => cstr row.name == query.whereValue
    | _ => false

/-- The message for a table whose ids are not distinct. -/
def duplicateKeysText (tableName : Bytes) : Bytes :=
  str "Error: Table '" ++ tableName ++ str "' contains duplicate primary keys." ++ newline

/-! ## SELECT -/

/-- `SelectIndexResult`. -/
inductive SelectIndexResult where
  | error
  | notUsed
  | rowPrinted
  deriving DecidableEq

/-- `select_with_index`. -/
def selectWithIndex (table : Table) (query : SelectQuery) : Prog SelectIndexResult := do
  if !query.hasWhere || columnFromName query.whereColumn ≠ .id then return .notUsed
  let some searchId := utilParseInt32 query.whereValue | return .notUsed
  match ← indexLoadOrRebuild query.tableName with
  | .error status =>
    if status = .duplicatePrimaryKey then
      print (duplicateKeysText query.tableName)
      return .error
    return .notUsed
  | .ok index =>
    match indexLookup index searchId with
    | .error _ => return .notUsed
    | .ok offset =>
      match ← indexValidateLookup table searchId offset with
      | .error _ => return .notUsed
      | .ok row =>
        print (headerText query)
        print (rowText row query)
        return .rowPrinted

def INT_MAX : Nat := 2147483647

/-- The body of the loop of `select_with_scan`. The counter is an `int`: where it would
overflow, which C leaves undefined, it wraps around here. -/
def selectRow (query : SelectQuery) (rowsPrinted : Int32) (row : Row) : Prog Int32 := do
  if !rowMatchesWhere row query then return rowsPrinted
  if rowsPrinted = 0 then print (headerText query)
  print (rowText row query)
  return rowsPrinted + 1

/-- `select_with_scan`: the counter of the rows printed, or the status. -/
def selectWithScan (table : Table) (query : SelectQuery) : Prog (Except ExecStatus Int32) := do
  let scanned ← forRows (ρ := Empty)
      (fun rowsPrinted row _ => return .ok (← selectRow query rowsPrinted row))
    (scanPasses table) (storageScanBegin table) 0
  match scanned with
  | .ok (.end, rowsPrinted) => return .ok rowsPrinted
  | .ok (.corrupt, _) =>
    print (str "Error: Table scan failed (corrupt data)." ++ newline)
    return .error .tableCorrupt
  | .ok (_, _) =>
    print (str "Error: Table scan failed (I/O error)." ++ newline)
    return .error .ioError

/-- The last line of a SELECT. -/
def rowsPrintedText (rowsPrinted : Int32) : Bytes :=
  if rowsPrinted = 0 then str "(empty result)" ++ newline
  else newline ++ str "(" ++ decimal rowsPrinted ++ str " row(s) returned)" ++ newline

/-- `execute_select`, where the index is not used. -/
def selectScanned (table : Table) (query : SelectQuery) : Prog ExecStatus := do
  match ← selectWithScan table query with
  | .error status => return status
  | .ok rowsPrinted =>
    print (rowsPrintedText rowsPrinted)
    return .ok

/-- `execute_select`, from the open table on. -/
def selectFrom (table : Table) (query : SelectQuery) : Prog ExecStatus := do
  match ← selectWithIndex table query with
  | .error => return .tableCorrupt
  | .rowPrinted =>
    print (rowsPrintedText 1)
    return .ok
  | .notUsed => selectScanned table query

/-- `execute_select`. -/
def executeSelect (query : SelectQuery) : Prog ExecStatus := do
  match ← storageOpenTableReadonly query.tableName with
  | .error .notFound =>
    print (str "Error: Table '" ++ query.tableName ++ str "' does not exist." ++ newline)
    return .tableNotFound
  | .error .incompatible =>
    print (str "Error: Table '" ++ query.tableName ++
      str "' has an incompatible or legacy file format." ++
      newline)
    return .tableCorrupt
  | .error .corrupt =>
    print (str "Error: Table '" ++ query.tableName ++ str "' is corrupt." ++ newline)
    return .tableCorrupt
  | .error _ =>
    print (str "Error: Could not open table '" ++ query.tableName ++ str "'." ++ newline)
    return .ioError
  | .ok table =>
    let result ← selectFrom table query
    storageCloseTable table
    return result

/-! ## INSERT -/

/-- The check for the id: through a valid index entry, else by scanning. -/
def findDuplicate (table : Table) (id : Int32)
    (index : Option Index) : Prog (Except ScanStatus Bool) := do
  let throughIndex ←
    match index.map (indexLookup · id) with
    | some (.ok existingOffset) =>
      match ← indexValidateLookup table id existingOffset with
      | .ok _ => pure true
      | .error _ => pure false
    | _ => pure false
  if throughIndex then return .ok true
  match ← storageFindId table id with
  | .ok _ => return .ok true
  | .error .end => return .ok false
  | .error status => return .error status

/-- `memset(&row, 0, sizeof(row))` with the id and a copy of the name. -/
def newRow (id : Int32) (name : Bytes) : Option Row :=
  match utilCopyChecked STORAGE_NAME_SIZE name with
  | none => none
  | some name =>
    some { id, name := name.takeD STORAGE_NAME_SIZE 0, name_size := List.takeD_length _ _ _ }

/-- The message for a row whose index entry was not stored. -/
def insertWarningText (id : Int32) (problem : Bytes) : Bytes :=
  str "Warning: Row inserted (id=" ++ decimal id ++ str ") but index " ++ problem ++
    str "; index will rebuild on next query." ++ newline

/-- The part of `execute_insert` that keeps the index up to date. -/
def maintainIndex (index : Option Index) (tableName : Bytes) (id : Int32) (offset : UInt64) :
    Prog ExecStatus := do
  let index ←
    match index with
    | some index => pure (some index)
    | none => liftMemory (indexCreate tableName)
  let some index := index
    | do
      print (insertWarningText id (str "could not be allocated"))
      return .indexPersistFailed
  let (status, index) ← liftMemory (indexInsert index id offset.toInt64 false)
  let (status, index) ←
    if status = .duplicateKey then liftMemory (indexInsert index id offset.toInt64 true)
    else pure (status, index)
  if status ≠ .ok then
    print (insertWarningText id (str "update failed"))
    return .indexError
  if (← indexPersist index) ≠ .ok then
    print (insertWarningText id (str "persistence failed"))
    return .indexPersistFailed
  print (str "Row inserted successfully (id=" ++ decimal id ++ str ")." ++ newline)
  return .ok

/-- `execute_insert`, from the check for the id on. -/
def insertInto (table : Table) (query : InsertQuery) (index : Option Index) :
    Prog (ExecStatus × Table) := do
  match ← findDuplicate table query.id index with
  | .error _ =>
    print (str "Error: Failed while checking for duplicate id." ++ newline)
    return (.ioError, table)
  | .ok true =>
    print (str "Error: Duplicate id " ++ decimal query.id ++
      str " (id is a unique primary key)." ++ newline)
    return (.duplicateId, table)
  | .ok false =>
    let some row := newRow query.id query.name | return (.semanticError, table)
    match ← storageInsertRow table row with
    | .error .readOnly =>
      print (str "Error: Table '" ++ query.tableName ++ str "' is read-only." ++ newline)
      return (.readOnly, table)
    | .error _ =>
      print (str "Error: Could not insert row." ++ newline)
      return (.ioError, table)
    | .ok (offset, table) =>
      let result ← maintainIndex index query.tableName query.id offset
      return (result, table)

/-- `execute_insert`. -/
def executeInsert (query : InsertQuery) : Prog ExecStatus := do
  match ← storageOpenTable query.tableName with
  | .error .notFound =>
    print (str "Error: Table '" ++ query.tableName ++ str "' does not exist." ++ newline)
    return .tableNotFound
  | .error .incompatible =>
    print (str "Error: Table '" ++ query.tableName ++
      str "' is unreadable (incompatible format)." ++ newline)
    return .tableCorrupt
  | .error .corrupt =>
    print (str "Error: Table '" ++ query.tableName ++ str "' is unreadable (corrupt)." ++ newline)
    return .tableCorrupt
  | .error .readOnly =>
    print (str "Error: Table '" ++ query.tableName ++ str "' is read-only." ++ newline)
    return .readOnly
  | .error _ =>
    print (str "Error: Could not open table '" ++ query.tableName ++ str "'." ++ newline)
    return .ioError
  | .ok table =>
    let loaded ← indexLoadOrRebuild query.tableName
    if loaded matches .error .duplicatePrimaryKey then
      print (duplicateKeysText query.tableName)
      storageCloseTable table
      return .tableCorrupt
    let (result, table) ← insertInto table query loaded.toOption
    storageCloseTable table
    return result

/-- `execute`. -/
def execute (ast : AST) : Prog ExecStatus := do
  match semanticValidate ast with
  | .ok =>
    match ast with
    | .select query => executeSelect query
    | .insert query => executeInsert query
  | status =>
    print (str "Error: Semantic error: " ++ semanticStatusString status ++ str "." ++ newline)
    return .semanticError

end SqlEngine
