import SqlEngine.Util

/-! The tokenizer. Every array write of the source is a checked write here: a run
that would store past `token.value[63]` or past `storage[capacity - 1]` ends in
`overrun`, which is not a status of the source but the absence of one. -/
namespace SqlEngine

inductive TokenizeStatus where
  | ok
  | invalidCharacter
  | tooManyTokens
  | tokenTooLong
  | unterminatedString
  | nullInput
  deriving DecidableEq, Repr

inductive TokenType where
  | selectKw
  | insertKw
  | fromKw
  | whereKw
  | intoKw
  | valuesKw
  | identifier
  | number
  | string
  | star
  | comma
  | equal
  | lparen
  | rparen
  | semicolon
  | eof
  | unknown
  deriving DecidableEq, Repr

/-- `TOKEN_VALUE_MAX`: characters of a token value, its NUL excluded. -/
def TOKEN_VALUE_MAX : Nat := 63

/-- A token; `value` is the C string its character array holds. -/
structure Token where
  type : TokenType
  value : Bytes
  deriving DecidableEq, Repr

/-- A pointer to tokens and the number of tokens that may be read through it. -/
structure TokenBuffer where
  data : Option (List Token)
  count : Nat
  deriving DecidableEq, Repr

/-- `{ NULL, 0 }`. -/
def TokenBuffer.null : TokenBuffer := { data := none, count := 0 }

/-- The course of a scan: a result, a failure status, or a write outside an array. -/
inductive Scan (α : Type) where
  | done (value : α)
  | fail (status : TokenizeStatus)
  | overrun
  deriving DecidableEq

namespace Scan

protected def bind (scan : Scan α) (next : α → Scan β) : Scan β :=
  match scan with
  | done value => next value
  | fail status => fail status
  | overrun => overrun

instance : Monad Scan where
  pure := done
  bind := Scan.bind

@[simp] theorem pure_eq (value : α) : (pure value : Scan α) = done value := rfl

@[simp] theorem done_bind (value : α) (next : α → Scan β) :
    (done value >>= next) = next value := rfl

@[simp] theorem fail_bind (status : TokenizeStatus) (next : α → Scan β) :
    (fail status >>= next) = fail status := rfl

@[simp] theorem overrun_bind (next : α → Scan β) : (overrun >>= next) = overrun := rfl

end Scan

/-- `array[i] = c`. -/
def writeChar (array : Bytes) (i : Nat) (c : UInt8) : Scan Bytes :=
  if i < array.length then .done (array.set i c) else .overrun

/-- The table of `keyword_lookup`, in the order of its comparisons. -/
def keywords : List (Bytes × TokenType) :=
  [(str "SELECT", .selectKw), (str "INSERT", .insertKw), (str "FROM", .fromKw),
   (str "WHERE", .whereKw), (str "INTO", .intoKw), (str "VALUES", .valuesKw)]

/-- One comparison of `keyword_lookup`: the word agrees with the keyword ignoring
case over the keyword's length, and ends there. -/
def isKeyword (word keyword : Bytes) : Bool :=
  utilStrncasecmp word keyword keyword.length == 0 && word.getD keyword.length 0 == 0

/-- `keyword_lookup`. -/
def keywordLookup (word : Bytes) : TokenType :=
  match keywords.find? fun entry => isKeyword word entry.1 with
  | some entry => entry.2
  | none => .identifier

/-- The copying loop of strings, numbers and words: while the next character is
accepted, `token.value[i++] = *p++`, refused when `i` has reached the limit. -/
def copyWhile (accept : UInt8 → Bool) : Bytes → Bytes → Nat → Scan (Bytes × Nat × Bytes)
  | [], value, i => .done (value, i, [])
  | c :: p, value, i =>
    if accept c then
      if i ≥ TOKEN_VALUE_MAX then .fail .tokenTooLong
      else do
        let value ← writeChar value i c
        copyWhile accept p value (i + 1)
    else .done (value, i, c :: p)

/-- `memset(&token, 0, sizeof(token))`, on the value array. -/
def emptyValue : Bytes := List.replicate (TOKEN_VALUE_MAX + 1) 0

/-- A token of one punctuation character. -/
def punctuation (type : TokenType) (c : UInt8) (p : Bytes) : Scan (Token × Bytes) := do
  let value ← writeChar emptyValue 0 c
  let value ← writeChar value 1 0
  return ({ type, value := cstr value }, p)

/-- `"..."`, from the character behind the opening quote. -/
def scanString (p : Bytes) : Scan (Token × Bytes) := do
  let (value, i, p) ← copyWhile (fun c => c != 34 && c != 0) p emptyValue 0
  let value ← writeChar value i 0
  if p.headD 0 != 34 then .fail .unterminatedString
  else return ({ type := .string, value := cstr value }, p.tail)

/-- `-?[0-9]+`, from its first character. -/
def scanNumber (p : Bytes) : Scan (Token × Bytes) := do
  let (value, i, p) ←
    if p.headD 0 == 45 then do
      let value ← writeChar emptyValue 0 45
      pure (value, 1, p.tail)
    else pure (emptyValue, 0, p)
  let (value, i, p) ← copyWhile isDigit p value i
  let value ← writeChar value i 0
  return ({ type := .number, value := cstr value }, p)

/-- An identifier or keyword, from its first character. -/
def scanWord (p : Bytes) : Scan (Token × Bytes) := do
  let (value, i, p) ← copyWhile (fun c => isAlnum c || c == 95) p emptyValue 0
  let value ← writeChar value i 0
  return ({ type := keywordLookup (cstr value), value := cstr value }, p)

/-- One token, from a character that is neither white space nor the NUL: the chain
of tests in the body of `tokenize`. -/
def scanToken (p : Bytes) : Scan (Token × Bytes) :=
  let c := p.headD 0
  if c == 44 then punctuation .comma 44 p.tail
  else if c == 42 then punctuation .star 42 p.tail
  else if c == 61 then punctuation .equal 61 p.tail
  else if c == 40 then punctuation .lparen 40 p.tail
  else if c == 41 then punctuation .rparen 41 p.tail
  else if c == 59 then punctuation .semicolon 59 p.tail
  else if c == 34 then scanString p.tail
  else if isDigit c || (c == 45 && isDigit (p.getD 1 0)) then scanNumber p
  else if isAlpha c || c == 95 then scanWord p
  else .fail .invalidCharacter

/-- The outer loop of `tokenize`. Each pass reads at least one character, so a fuel
above the length of the input never runs out. -/
def tokenizeLoop (capacity : Nat) : Nat → Bytes → List Token → Scan (List Token)
  | 0, _, _ => .overrun
  | fuel + 1, p, storage =>
    if p.headD 0 == 0 then .done storage
    else
      let p := p.dropWhile isSpace
      if p.headD 0 == 0 then .done storage
      else if storage.length ≥ capacity - 1 then .fail .tooManyTokens
      else do
        let (token, p) ← scanToken p
        if storage.length < capacity then tokenizeLoop capacity fuel p (storage ++ [token])
        else .overrun

/-- The token written behind the last one. -/
def eofToken : Token := { type := .eof, value := [] }

/-- `tokenize` with the tokens of the result, or the status it fails with. -/
def tokenizeInto (input : Bytes) (capacity : Nat) : Scan (List Token) :=
  if capacity < 1 then .fail .nullInput
  else do
    let storage ← tokenizeLoop capacity (input.length + 1) input []
    -- the final token is stored at `storage[count]`, which the test keeps inside
    if storage.length ≥ capacity then .fail .tooManyTokens
    else return storage ++ [eofToken]

/-- `tokenize`: the status and the result buffer, or `none` for a run that writes
outside an array. -/
def tokenize (input : CString) (capacity : Nat) : Option (TokenizeStatus × TokenBuffer) :=
  match tokenizeInto input.bytes capacity with
  | .done tokens => some (.ok, { data := some tokens, count := tokens.length })
  | .fail status => some (status, .null)
  | .overrun => none

end SqlEngine
