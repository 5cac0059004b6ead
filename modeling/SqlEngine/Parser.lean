import SqlEngine.Tokenizer

/-! The recursive-descent parser over a token buffer. The parser state is threaded
through the steps of a statement, and a failing step ends the parse with its status;
nothing reads the syntax tree of a failed parse. -/
namespace SqlEngine

/-- The statuses of a parse that fails; `PARSE_OK` comes with the syntax tree. -/
inductive ParseStatus where
  | error
  | trailingTokens
  | unexpectedEof
  | nullInput
  | tableNameTooLong
  | identifierTooLong
  | stringTooLong
  | integerOutOfRange
  deriving DecidableEq, Repr

/-- `MAX_COLUMNS`. -/
def MAX_COLUMNS : Nat := 10

/-- `SQL_TABLE_NAME_CAPACITY`, the terminating NUL included. -/
def SQL_TABLE_NAME_CAPACITY : Nat := 32

def SQL_IDENTIFIER_CAPACITY : Nat := 32

def SQL_STORED_NAME_CAPACITY : Nat := 32

def SQL_MAX_TABLE_NAME_LENGTH : Nat := SQL_TABLE_NAME_CAPACITY - 1

inductive LiteralType where
  | number
  | string
  deriving DecidableEq, Repr

/-- A SELECT; `column_count` is the length of `columns`. -/
structure SelectQuery where
  tableName : Bytes
  selectAll : Bool
  columns : List Bytes
  hasWhere : Bool
  whereColumn : Bytes
  whereValue : Bytes
  whereValueType : LiteralType
  deriving DecidableEq, Repr

structure InsertQuery where
  tableName : Bytes
  id : Int32
  name : Bytes
  deriving DecidableEq, Repr

/-- The tagged union of the two statements. -/
inductive AST where
  | select (query : SelectQuery)
  | insert (query : InsertQuery)
  deriving DecidableEq, Repr

structure Parser where
  tokens : TokenBuffer
  position : Nat

/-- `parser_init`. -/
def parserInit (tokens : TokenBuffer) : Parser := { tokens, position := 0 }

/-- `parser_peek`: past the end it is a token of type EOF. -/
def parserPeek (p : Parser) : Token :=
  match p.tokens.data with
  | none => eofToken
  | some data =>
    if p.tokens.count = 0 ∨ p.position ≥ p.tokens.count then eofToken
    else data.getD p.position eofToken

/-- `parser_at_end`. -/
def parserAtEnd (p : Parser) : Bool :=
  p.tokens.data.isNone || p.tokens.count == 0 || p.position ≥ p.tokens.count ||
    (parserPeek p).type == .eof

/-- `parser_advance`, without the token it returns. -/
def parserAdvance (p : Parser) : Parser :=
  if !parserAtEnd p && p.position < p.tokens.count then { p with position := p.position + 1 } else p

/-- `parser_check`. -/
def parserCheck (p : Parser) (type : TokenType) : Bool := (parserPeek p).type == type

/-- A step of a statement: it moves the parser or ends the parse with a status. -/
abbrev Parse := StateT Parser (Except ParseStatus)

/-- `parser_match`, and `parser_expect`, which has the same body. -/
def parserMatch (type : TokenType) : Parse Bool := do
  let p ← get
  if parserCheck p type then
    set (parserAdvance p)
    return true
  else return false

/-- `missing_token_status`. -/
def missingTokenStatus (p : Parser) : ParseStatus :=
  if parserAtEnd p then .unexpectedEof else .error

/-- `return missing_token_status(p)`. -/
def missing : Parse α := do throw (missingTokenStatus (← get))

/-- `if (!parser_expect(p, type)) return missing_token_status(p);` -/
def parserRequire (type : TokenType) : Parse Unit := do
  if !(← parserMatch type) then missing

/-- Read a token of the given type: its value is converted, or the parse ends with
the status of a value that is refused. -/
def parserTake (type : TokenType) (convert : Bytes → Option α) (refused : ParseStatus) :
    Parse α := do
  let p ← get
  if !parserCheck p type then missing
  else
    match convert (parserPeek p).value with
    | none => throw refused
    | some value =>
      set (parserAdvance p)
      return value

/-- The loop over further columns; `room` is `MAX_COLUMNS - column_count`. -/
def parseMoreColumns : Nat → Parse (List Bytes)
  | 0 => do
    if !(← parserMatch .comma) then return []
    else if !parserCheck (← get) .identifier then missing
    else throw .error
  | room + 1 => do
    if !(← parserMatch .comma) then return []
    else
      let column ← parserTake .identifier
          (utilCopyChecked SQL_IDENTIFIER_CAPACITY) .identifierTooLong
      return column :: (← parseMoreColumns room)

/-- The select list: `select_all` and the columns. -/
def parseSelectList : Parse (Bool × List Bytes) := do
  if ← parserMatch .star then return (true, [])
  else if parserCheck (← get) .identifier then
    let column ← parserTake .identifier (utilCopyChecked SQL_IDENTIFIER_CAPACITY) .identifierTooLong
    return (false, column :: (← parseMoreColumns (MAX_COLUMNS - 1)))
  else missing

/-- The literal of a WHERE clause. -/
def parseWhereLiteral : Parse (LiteralType × Bytes) := do
  if parserCheck (← get) .number then
    return (.number, ← parserTake .number
      (utilCopyChecked SQL_STORED_NAME_CAPACITY) .integerOutOfRange)
  else if parserCheck (← get) .string then
    return (.string, ← parserTake .string (utilCopyChecked SQL_STORED_NAME_CAPACITY) .stringTooLong)
  else missing

/-- The optional WHERE clause: column, literal type and literal. -/
def parseWhere : Parse (Option (Bytes × LiteralType × Bytes)) := do
  if ← parserMatch .whereKw then
    let column ← parserTake .identifier (utilCopyChecked SQL_IDENTIFIER_CAPACITY) .identifierTooLong
    parserRequire .equal
    return some (column, ← parseWhereLiteral)
  else return none

/-- The query of a select list, a table and a WHERE clause; what the clause does not
set keeps the value it was initialised with. -/
def selectQuery (list : Bool × List Bytes) (table : Bytes)
    (clause : Option (Bytes × LiteralType × Bytes)) : SelectQuery :=
  { tableName := table
    selectAll := list.1
    columns := list.2
    hasWhere := clause.isSome
    whereColumn := (clause.map (·.1)).getD []
    whereValue := (clause.map (·.2.2)).getD []
    whereValueType := (clause.map (·.2.1)).getD .number }

/-- `if (!parser_at_end(p)) return PARSE_TRAILING_TOKENS;` -/
def parserFinish (ast : AST) : Parse AST := do
  if !parserAtEnd (← get) then throw .trailingTokens else return ast

/-- `parse_select` behind its keyword, up to its test for trailing tokens. -/
def parseSelectBody : Parse AST := do
  let list ← parseSelectList
  parserRequire .fromKw
  let table ← parserTake .identifier (utilCopyChecked SQL_TABLE_NAME_CAPACITY) .tableNameTooLong
  let clause ← parseWhere
  parserRequire .semicolon
  return .select (selectQuery list table clause)

/-- `parse_select`, up to its test for trailing tokens. -/
def parseSelectStatement : Parse AST := do
  if !(← parserMatch .selectKw) then throw .error else parseSelectBody

/-- `parse_select`. -/
def parseSelect : Parse AST := parseSelectStatement >>= parserFinish

/-- `parse_insert` behind its keyword, up to its test for trailing tokens. -/
def parseInsertBody : Parse AST := do
  parserRequire .intoKw
  let tableName ←
    parserTake .identifier (utilCopyChecked SQL_TABLE_NAME_CAPACITY) .tableNameTooLong
  parserRequire .valuesKw
  parserRequire .lparen
  let id ← parserTake .number utilParseInt32 .integerOutOfRange
  parserRequire .comma
  let name ← parserTake .string (utilCopyChecked SQL_STORED_NAME_CAPACITY) .stringTooLong
  parserRequire .rparen
  parserRequire .semicolon
  return .insert { tableName, id, name }

/-- `parse_insert`, up to its test for trailing tokens. -/
def parseInsertStatement : Parse AST := do
  if !(← parserMatch .insertKw) then throw .error else parseInsertBody

/-- `parse_insert`. -/
def parseInsert : Parse AST := parseInsertStatement >>= parserFinish

/-- `parse_tokens`: the syntax tree of `PARSE_OK`, or the status of the failure. -/
def parseTokens (tokens : TokenBuffer) : Except ParseStatus AST :=
  if tokens.data = none ∧ tokens.count ≠ 0 then .error .nullInput
  else
    let p := parserInit tokens
    if parserCheck p .selectKw then (parseSelect.run p).map Prod.fst
    else if parserCheck p .insertKw then (parseInsert.run p).map Prod.fst
    else if parserAtEnd p then .error .unexpectedEof
    else .error .error

end SqlEngine
