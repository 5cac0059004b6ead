import SqlEngine.Executor

/-! The command line: reading a line at a time from a stream, telling statements from meta
commands, and running both. A stream is the bytes that are left of it. -/
namespace SqlEngine

open Library Posix

def CLI_MAX_INPUT : Nat := 512

def MAX_TOKENS : Nat := 64

/-! ## Status texts -/

/-- `tokenize_status_string`. -/
def tokenizeStatusString : TokenizeStatus → Bytes
  | .ok => str "ok"
  | .invalidCharacter => str "invalid character"
  | .tooManyTokens => str "too many tokens"
  | .tokenTooLong => str "token too long"
  | .unterminatedString => str "unterminated string"
  | .nullInput => str "null input"

/-- `parse_status_string`, for the statuses of a failure. -/
def parseStatusString : ParseStatus → Bytes
  | .error => str "syntax error"
  | .trailingTokens => str "trailing tokens after statement"
  | .unexpectedEof => str "unexpected end of input"
  | .nullInput => str "null input"
  | .tableNameTooLong => str "table name too long"
  | .identifierTooLong => str "identifier too long"
  | .stringTooLong => str "string value too long"
  | .integerOutOfRange => str "integer outside int32 range"

/-- `table_create_status_string`. -/
def tableCreateStatusString : TableCreateStatus → Bytes
  | .ok => str "created"
  | .alreadyExists => str "already exists"
  | .ioError => str "I/O error"
  | .invalidName => str "invalid name"
  | .nameTooLong => str "table name too long"

/-- `index_status_string`. -/
def indexStatusString : IndexStatus → Bytes
  | .ok => str "ok"
  | .notFound => str "index not found"
  | .ioError => str "I/O error"
  | .corrupt => str "index corrupt"
  | .incompatible => str "incompatible index format"
  | .allocError => str "allocation failure"
  | .invalidOffset => str "invalid offset"
  | .keyMismatch => str "key mismatch"
  | .duplicateKey => str "duplicate key"
  | .persistError => str "persist error"
  | .duplicatePrimaryKey => str "duplicate primary key in table"
  | .tempfileError => str "secure temporary-file error"
  | .readOnly => str "read-only filesystem"

/-! ## Reading a line -/

/-- The conversion of a `size_t` to `int`. -/
def intOfSize (size : UInt64) : Int := size.toUInt32.toInt32.toInt

/-- The characters `fgets` stores, up to a newline and no more than `room`, and the stream
behind them. -/
def takeLine : Nat → Bytes → Bytes × Bytes
  | 0, stream => ([], stream)
  | _, [] => ([], [])
  | room + 1, c :: stream =>
    if c = 10 then ([c], stream) else (c :: (takeLine room stream).1, (takeLine room stream).2)

/-- `fgets`: the characters in front of the terminating NUL, unless it returns NULL. Only
a read at the end of the stream does, so a buffer for the NUL alone is never refused. -/
def fgets (size : Int) (stream : Bytes) : Option (Bytes × Bytes) :=
  if size ≤ 0 then none
  else if size ≠ 1 ∧ stream = [] then none
  else some (takeLine (size.toNat - 1) stream)

/-- The loop that discards the rest of a line: `fgetc` until a newline or the end. -/
def discardLine (character : UInt8) (stream : Bytes) : Bytes :=
  if character = 10 then stream
  else
    match stream with
    | [] => []
    | next :: rest => discardLine next rest

/-- What `cli_read_line` returns: 0 with the line in the buffer, -1, or -2. -/
inductive LineRead where
  | stored (line : Bytes)
  | eof
  | tooLong
  deriving DecidableEq

/-- `cli_read_line`, and the stream behind it. -/
def cliReadLine (buflen : UInt64) (stream : Bytes) : LineRead × Bytes :=
  if buflen < 2 then (.eof, stream)
  else
    match fgets (intOfSize buflen) stream with
    | none => (.eof, stream)
    | some (stored, stream) =>
      let buf := cstr stored
      if buf.length > 0 ∧ buf.getD (buf.length - 1) 0 = 10 then
        (.stored (buf.take (buf.length - 1)), stream)
      else
        match stream with
        | [] => (.stored buf, [])
        | character :: stream => (.tooLong, discardLine character stream)

/-! ## Statements and meta commands -/

/-- The string behind the white space at its front. -/
def CString.skipSpaces (input : CString) : CString where
  bytes := input.bytes.dropWhile isSpace
  nulFree := fun zero => input.nulFree ((List.dropWhile_suffix _).subset zero)

/-- The C string in a character array. -/
def CString.ofArray (array : Bytes) : CString where
  bytes := cstr array
  nulFree := fun zero => by simpa using List.mem_takeWhile_imp zero

/-- `is_sql_statement`. -/
def isSqlStatement (input : Bytes) : Bool :=
  let input := input.dropWhile isSpace
  if utilStrncasecmp input (str "SELECT") 6 == 0 && utilIsWordBoundary (input.getD 6 0) then true
  else if utilStrncasecmp input (str "INSERT") 6 == 0 && utilIsWordBoundary
    (input.getD 6 0) then true
  else false

/-- `remove_trailing_semicolon`. -/
def removeTrailingSemicolon (word : Bytes) : Bytes :=
  if word.length > 0 ∧ word.getD (word.length - 1) 0 = 59 then word.take (word.length - 1) else word

/-- `%63s` of `sscanf`: the word, and the text behind it. -/
def scanWord63 (text : Bytes) : Bytes × Bytes :=
  let text := text.dropWhile isSpace
  let word := (text.takeWhile fun c => !isSpace c).take 63
  (word, text.drop word.length)

/-- The command word of a line. -/
def commandWord (input : Bytes) : Bytes := removeTrailingSemicolon (scanWord63 input).1

/-- The argument of a meta command. -/
def argumentWord (input : Bytes) : Bytes :=
  removeTrailingSemicolon (scanWord63 (scanWord63 input).2).1

/-- `handle_create_table`. -/
def handleCreateTable (tableName : Bytes) : Prog Unit := do
  if tableName = [] then print (str "Usage: create_table <table_name>" ++ newline)
  else
    match ← storageCreateTable tableName with
    | .ok => print (str "Table '" ++ tableName ++ str "' created successfully." ++ newline)
    | .alreadyExists => print (str "Table '" ++ tableName ++ str "' already exists." ++ newline)
    | .invalidName => print (str "Error: Invalid table name '" ++ tableName ++ str "'." ++ newline)
    | .nameTooLong =>
      print (str "Error: Table name '" ++ tableName ++ str "' is too long (maximum " ++
        decimalNat SQL_MAX_TABLE_NAME_LENGTH ++ str " bytes)." ++ newline)
    | status =>
      print (str "Error: Could not create table '" ++ tableName ++ str "' (" ++
        tableCreateStatusString status ++
        str ")." ++ newline)

/-- `handle_rebuild_index`. -/
def handleRebuildIndex (tableName : Bytes) : Prog Unit := do
  if tableName = [] then print (str "Usage: rebuild_index <table_name>" ++ newline)
  else
    let status ← indexRebuild tableName
    if status = .ok then
      print (str "Index for '" ++ tableName ++ str "' rebuilt successfully." ++ newline)
    else
      print (str "Error: Could not rebuild index for '" ++ tableName ++ str "' (" ++
        indexStatusString status ++
        str ")." ++ newline)

/-- The lines of `print_help`. -/
def helpLines : List Bytes :=
  [str "SQL Engine CLI",
    [],
    str "SQL (keywords are case-insensitive):",
    str "  SELECT * FROM <table>;",
    str "  SELECT id, name FROM <table> WHERE id = <n>;",
    str "  SELECT * FROM <table> WHERE name = \"value\";",
    str "  INSERT INTO <table> VALUES (<id>, \"name\");",
    [],
    str "Meta commands:",
    str "  create_table <name>    Create a new table",
    str "  rebuild_index <name>   Rebuild index from table data",
    str "  help                   Show this help",
    str "  exit, quit             Exit the CLI",
    [],
    str "Schema: columns id (unique int32 primary key), name (string, max 31 chars)."]

/-- What follows a line: the next one, the end of `cli_run`, or `exit(0)`. -/
inductive LineOutcome where
  | next
  | leave
  | exited
  deriving DecidableEq

/-- `handle_meta_command`. -/
def handleMetaCommand (input : Bytes) : Prog LineOutcome := do
  let command := commandWord input
  let argument := argumentWord input
  if command = str "create_table" then
    handleCreateTable argument
    return .next
  if command = str "rebuild_index" then
    handleRebuildIndex argument
    return .next
  if command = str "help" then
    print (helpLines.flatMap (· ++ newline))
    return .next
  if command = str "exit" ∨ command = str "quit" then return .exited
  print (str "Unknown command: " ++ command ++ newline)
  print (str "Type 'help' for available commands." ++ newline)
  return .next

/-- `handle_sql_input`, without the result that its caller ignores. -/
def handleSqlInput (input : CString) : Prog Unit := do
  match tokenize input MAX_TOKENS with
  | none => return () -- a write outside an array, which the tokenizer never makes
  | some (.ok, tokens) =>
    if tokens.count = 0 ∨ (parserPeek (parserInit tokens)).type = .eof then return ()
    match parseTokens tokens with
    | .error status =>
      print (str "Error: Parser: " ++ parseStatusString status ++ str "." ++ newline)
    | .ok ast =>
      let _ ← execute ast
      return ()
  | some (status, _) =>
    print (str "Error: Tokenizer: " ++ tokenizeStatusString status ++ str "." ++ newline)

/-- `cli_handle_line`. -/
def cliHandleLine (input : CString) : Prog LineOutcome := do
  let input := input.skipSpaces
  if input.bytes = [] then return .next
  if !isSqlStatement input.bytes then
    let command := commandWord input.bytes
    if command = str "exit" ∨ command = str "quit" then return .leave
    handleMetaCommand input.bytes
  else
    handleSqlInput input
    return .next

/-! ## The session -/

def prompt : Bytes := str "> "

/-- The loop of `cli_run`, for at most as many lines as there are passes. -/
def cliLoop : Nat → Bytes → Prog LineOutcome
  | 0, _ => return .leave
  | passes + 1, stream =>
    match cliReadLine CLI_MAX_INPUT.toUInt64 stream with
    | (.eof, _) => return .leave
    | (.tooLong, stream) => do
      print (str "Error: Input too long (maximum " ++ decimalNat (CLI_MAX_INPUT - 1) ++
        str " characters per line)." ++ newline)
      print prompt
      cliLoop passes stream
    | (.stored line, stream) => do
      match ← cliHandleLine (CString.ofArray line) with
      | .next =>
        print prompt
        cliLoop passes stream
      | outcome => return outcome

/-- `cli_run`. Every pass but the last one reads at least one character. -/
def cliRun (stdin : Bytes) : Prog LineOutcome := do
  print (str "SQL Engine CLI" ++ newline)
  print (str "Type 'help' for available commands." ++ newline)
  print prompt
  cliLoop (stdin.length + 1) stdin

end SqlEngine
