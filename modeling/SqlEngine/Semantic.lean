import SqlEngine.Parser

/-! Column names and the semantic checks of a statement. -/
namespace SqlEngine

inductive ColumnType where
  | id
  | name
  | all
  | invalid
  deriving DecidableEq, Repr

/-- `column_from_name`. -/
def columnFromName (name : Bytes) : ColumnType :=
  if name = str "*" then .all
  else if name = str "id" then .id
  else if name = str "name" then .name
  else .invalid

inductive SemanticStatus where
  | ok
  | unknownColumn
  | typeMismatch
  | invalidValue
  deriving DecidableEq, Repr

/-- `semantic_status_string`. -/
def semanticStatusString : SemanticStatus → Bytes
  | .ok => str "ok"
  | .unknownColumn => str "unknown column"
  | .typeMismatch => str "type mismatch"
  | .invalidValue => str "invalid value"

/-- The check of the select list. -/
def validateColumns (sel : SelectQuery) : SemanticStatus :=
  if sel.selectAll then .ok
  else if sel.columns.length ≤ 0 then .unknownColumn
  else if sel.columns.length > MAX_COLUMNS then .invalidValue
  else if sel.columns.any fun column =>
      columnFromName column = .invalid || columnFromName column = .all then .unknownColumn
  else .ok

/-- The check of the WHERE clause. -/
def validateWhere (sel : SelectQuery) : SemanticStatus :=
  if !sel.hasWhere then .ok
  else
    match columnFromName sel.whereColumn with
    | .id =>
      if sel.whereValueType ≠ .number then .typeMismatch
      else if (utilParseInt32 sel.whereValue).isNone then .invalidValue
      else .ok
    | .name => if sel.whereValueType ≠ .string then .typeMismatch else .ok
    | _ => .unknownColumn

/-- `semantic_validate`. -/
def semanticValidate : AST → SemanticStatus
  | .select sel =>
    match validateColumns sel with
    | .ok => validateWhere sel
    | status => status
  | .insert _ => .ok

end SqlEngine
