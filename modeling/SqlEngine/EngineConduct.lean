import SqlEngine.Escaping
import SqlEngine.IndexFileProofs
import SqlEngine.Library.Replay
import SqlEngine.Operations
import SqlEngine.StorageConduct

/-! How the operations of the engine use files, and what they print: the index functions, the
statements, and each operation as a whole. -/
namespace SqlEngine

open Library Program Posix

variable {policy : Policy} {s : Conduct} {tableName : Bytes} {h fd : Nat} {table : Table}
    {path text more : Bytes} {α β : Type}
  {index : Index} {query : SelectQuery} {c : UInt8}

/-! ## Plain text -/

/-- A character that a terminal shows as it is, or the end of a line. -/
def Plain (c : UInt8) : Prop := c = 10 ∨ 0x20 ≤ c ∧ c ≤ 0x7E

instance (c : UInt8) : Decidable (Plain c) := inferInstanceAs (Decidable (_ ∨ _))

def PlainText (text : Bytes) : Prop := ∀ c ∈ text, Plain c

instance (text : Bytes) : Decidable (PlainText text) := List.decidableBAll Plain text

theorem PlainText.append (first : PlainText text) (second : PlainText more) :
    PlainText (text ++ more) :=
  fun c among => (List.mem_append.mp among).elim (first c) (second c)

theorem plainText_newline : PlainText newline := by decide

private theorem digit_isPlain (c : UInt8) : isDigit c = true → Plain c :=
  forall_byte (P := fun c => isDigit c = true → Plain c) (by decide +kernel) c

private theorem nameChar_plain (c : UInt8) :
    (isLower c || isUpper c || isDigit c || c == 95) = true → Plain c :=
  forall_byte (P := fun c => (isLower c || isUpper c || isDigit c || c == 95) = true → Plain c)
    (by decide +kernel) c

theorem plainText_decimalNat (n : Nat) : PlainText (decimalNat n) := by
  intro c among
  obtain ⟨character, digit, rfl⟩ := List.mem_map.mp among
  exact digit_isPlain _
    (digit_byte character (Nat.isDigit_of_mem_toDigits (by decide) (by decide) digit)).2

private theorem plainText_decimal (value : Int32) : PlainText (decimal value) := by
  have digits : PlainText (decimalNat value.toInt.natAbs) := plainText_decimalNat _
  unfold decimal
  dsimp only
  split
  · exact fun c among => (List.mem_cons.mp among).elim (fun minus => minus ▸ (by decide)) (digits c)
  · exact digits

private theorem plainText_escapedField (bytes : Bytes) : PlainText (escapedField bytes) :=
  fun c among => .inr ((escaped_field_reversible bytes).1 c among)

private theorem plainText_padTo10 (plain : PlainText text) : PlainText (padTo10 text) :=
  plain.append fun c among => (List.eq_of_mem_replicate among) ▸ (by decide)

private theorem plainText_name (valid : storageValidTableName tableName = true) :
    PlainText tableName := by
  simp only [storageValidTableName, Bool.and_eq_true, List.all_eq_true] at valid
  exact fun c among => nameChar_plain c (valid.1.2 c among)

private theorem plainText_joined {words : List Bytes} (each : ∀ word ∈ words, PlainText word) :
    PlainText (words.intersperse (str " ")).flatten := by
  intro c among
  obtain ⟨word, found, inside⟩ := List.mem_flatten.mp among
  have which : word = str " " ∨ word ∈ words := by
    clear each among inside
    induction words with
    | nil => cases found
    | cons first rest ih =>
      cases rest with
      | nil => exact .inr found
      | cons second rest =>
        rw [List.intersperse_cons_cons] at found
        rcases List.mem_cons.mp found with rfl | found
        · exact .inr List.mem_cons_self
        · rcases List.mem_cons.mp found with rfl | found
          · exact .inl rfl
          · exact (ih found).imp_right (List.mem_cons_of_mem _)
  rcases which with rfl | among
  · exact (show PlainText (str " ") by decide) c inside
  · exact each word among c inside

/-! ## The index -/

/-- A well-formed index of a table. -/
def IndexFor (tableName : Bytes) (index : Index) : Prop := index.Valid ∧ index.tableName = tableName

/-- Memory is asked for, and files are left alone. -/
theorem conducts_liftMemory {computation : Allocating β} {good : β → Prop}
    (verified : wp (Grants true) (fun _ => True) computation (fun result _ => good result) ()) :
    Conducts policy s (liftMemory computation) fun result t => t = s ∧ good result := by
  induction computation with
  | pure value => exact conducts_pure ⟨rfl, verified.2⟩
  | call op next ih =>
    refine ⟨trivial, ⟨true, s, trivial, trivial, rfl⟩, ?_⟩
    rintro granted _ ⟨_, _, rfl⟩
    exact ih granted (verified.2.2 granted () (.inr rfl))

private theorem indexInsert_conducts (indexed : IndexFor tableName index) (key : Int32)
    (fileOffset : Int64) (replace : Bool) :
    Conducts policy s (liftMemory (indexInsert index key fileOffset replace)) fun result t =>
      t = s ∧ IndexFor tableName result.2 :=
  conducts_liftMemory
    (wp_mono (indexInsert_spec indexed.1 key fileOffset replace) (fun _ holds => holds)
    fun _ _ _ inserted => ⟨inserted.valid, inserted.named.trans indexed.2⟩)

private theorem indexCreateSized_conducts (valid : storageValidTableName tableName = true)
    (expected : Nat) :
    Conducts policy s (liftMemory (indexCreateSized tableName expected)) fun result t =>
      t = s ∧ ∀ index, result = some index → IndexFor tableName index :=
  conducts_liftMemory (wp_mono (indexCreateSized_exact valid (utilCopyChecked_valid valid) expected)
    (fun _ holds => holds)
    fun _ _ _ created index made => ⟨(created.1 index made).1, (created.1 index made).2.2.1⟩)

private theorem indexPersist_stays (allows : Allows policy tableName)
    (valid : storageValidTableName tableName = true) (closed : s.directory = false)
    (named : index.tableName = tableName) :
    Stays policy s (indexPersist index) := by
  have noSlash : 47 ∉ indexPath tableName := by
    have suffix : 47 ∉ str ".idx" := by decide
    simp only [indexPath, List.mem_append, (storageValidTableName_parts valid).noSlash, suffix,
      or_self, not_false_eq_true]
  unfold indexPersist
  rw [named, storageIndexPath_valid valid]
  split
  · exact stays_pure _
  refine conducts_bind (utilSecureTempFile_conducts allows (.inr rfl)) ?_
  rintro (_ | ⟨fd, temp⟩) t made
  · obtain rfl := made
    dsimp only
    split <;> exact stays_pure _
  obtain ⟨fresh, allowed, rfl⟩ := made
  refine conducts_call (Conduct.handles_note ..) fun answer _ => ?_
  rcases answer with _ | _
  · exact descriptor_given_up fresh allowed rfl
  change Conducts policy ((s.note fd (some .descriptor)).note fd (some .stream)) _ _
  rw [note_note]
  have opened : (s.note fd (some .stream)).handles fd = some .stream := Conduct.handles_note ..
  refine conducts_stays (writeFields_stays opened _) fun written => ?_
  cases written with
  | false => exact stream_given_up fresh allowed rfl
  | true =>
    refine conducts_stays (writeFields_stays opened _) fun written => ?_
    cases written with
    | false => exact stream_given_up fresh allowed rfl
    | true =>
      refine conducts_stays (utilFlushAndSync_stays opened) fun synced => ?_
      cases synced with
      | false => exact stream_given_up fresh allowed rfl
      | true =>
        refine conducts_call opened fun answer _ => ?_
        change Conducts policy ((s.note fd (some .stream)).note fd none) _ _
        rw [note_none fresh]
        have given_up :
            Stays policy s (unlink temp >>= fun _ => Pure.pure IndexStatus.persistError) :=
          stays_bind (stays_call allowed fun _ => rfl) fun _ => stays_pure _
        rcases answer with _ | _
        · exact given_up
        refine stays_bind (stays_call ⟨allowed, allows.files _ .index⟩ fun _ => rfl)
          fun answer => ?_
        rcases answer with _ | _
        · exact given_up
        refine stays_bind (utilSyncParentDirectory_stays allows noSlash closed) fun synced => ?_
        cases synced <;> exact stays_pure _

private theorem readIndexHeader_stays (opened : s.handles h = some .stream)
    (fileSize tableRowCount : UInt64) :
    Stays policy s (readIndexHeader h fileSize tableRowCount) := by
  have word : Stays policy s (utilReadU32Le h) := utilReadU32Le_stays opened
  have absent : Stays policy s (Pure.pure none : Prog (Option IndexHeader)) := stays_pure none
  have fields : Stays policy s (readIndexFields h) :=
    stays_field word absent fun _ => stays_field word absent fun _ =>
      stays_field word absent fun _ =>
      stays_field word absent fun _ => stays_field word absent fun _ =>
        stays_field word absent fun _ => stays_pure _
  exact stays_field fields (stays_pure _) fun _ => stays_pure _

/-- What loading an index leaves. -/
def LoadConduct (tableName : Bytes) (s : Conduct) (result : Except IndexStatus Index)
    (t : Conduct) : Prop :=
  t = s ∧ ∀ index, result = .ok index → IndexFor tableName index

private theorem loadRefused (status : IndexStatus) :
    Conducts policy s (Pure.pure (.error status)) (LoadConduct tableName s) :=
  conducts_pure ⟨rfl, nofun⟩

private theorem loadEntries_conducts (opened : s.handles h = some .stream) (count : Nat)
    (indexed : IndexFor tableName index) :
    Conducts policy s (loadEntries h count index) (LoadConduct tableName s) := by
  induction count generalizing index with
  | zero =>
    refine conducts_pure ⟨rfl, ?_⟩
    rintro _ ⟨⟩
    exact indexed
  | succ count ih =>
    refine conducts_stays (utilReadU32Le_stays opened) fun key => ?_
    cases key with
    | none => exact loadRefused _
    | some key =>
      refine conducts_stays (utilReadU64Le_stays opened) fun offset => ?_
      cases offset with
      | none => exact loadRefused _
      | some offset =>
        refine conducts_bind (indexInsert_conducts indexed _ _ _) ?_
        rintro ⟨status, after⟩ _ ⟨rfl, indexed⟩
        cases status with
        | ok => exact ih indexed
        | _ => exact loadRefused _

private theorem loadFrom_conducts (valid : storageValidTableName tableName = true)
    (opened : s.handles h = some .stream) (table : Table) :
    Conducts policy s (loadFrom h table tableName) (LoadConduct tableName s) := by
  refine conducts_stays (seekEnd_stays opened) fun size => ?_
  rcases size with _ | size
  · exact loadRefused _
  refine conducts_stays (stays_call opened fun _ => rfl) fun answer => ?_
  rcases answer with _ | _
  · exact loadRefused _
  dsimp only
  split
  · exact loadRefused _
  refine conducts_stays (readIndexHeader_stays opened _ _) fun header => ?_
  rcases header with _ | count
  · exact loadRefused _
  refine conducts_stays (stays_call opened fun _ => rfl) fun answer => ?_
  rcases answer with _ | _
  · exact loadRefused _
  refine conducts_bind (indexCreateSized_conducts valid _) ?_
  rintro (_ | index) _ ⟨rfl, made⟩
  · exact loadRefused _
  · exact loadEntries_conducts opened _ (made index rfl)

private theorem indexLoad_conducts
    (allows : storageValidTableName tableName = true → Allows policy tableName)
    (closed : s.directory = false) :
    Conducts policy s (indexLoad tableName) (LoadConduct tableName s) := by
  unfold indexLoad
  cases valid : storageValidTableName tableName with
  | false => exact loadRefused _
  | true =>
    rw [storageIndexPath_valid valid]
    refine conducts_bind (storageOpenTableMode_conducts allows closed false) ?_
    rintro (status | table) t opened
    · obtain rfl := opened
      dsimp only
      split <;> exact loadRefused _
    obtain ⟨_, fresh, rfl⟩ := opened
    have held : (s.note table.file (some .stream)).handles table.file = some .stream :=
      Conduct.handles_note ..
    refine conducts_call ((allows valid).files _ .index) fun answer fresh' => ?_
    rcases answer with errno | f
    · refine conducts_bind (storageCloseTable_conducts held) ?_
      rintro _ _ rfl
      change Conducts policy ((s.note table.file (some .stream)).note table.file none) _ _
      rw [note_none fresh]
      split <;> exact loadRefused _
    · have other : f ≠ table.file := by
        rintro rfl
        rw [Conduct.Possible, held] at fresh'
        cases fresh'
      refine conducts_bind (loadFrom_conducts valid (Conduct.handles_note ..) table) ?_
      rintro result _ ⟨rfl, indexed⟩
      refine conducts_call (Conduct.handles_note ..) fun _ _ => ?_
      change Conducts policy
        (((s.note table.file (some .stream)).note f (some .stream)).note f none) _ _
      rw [note_none fresh']
      refine conducts_bind (storageCloseTable_conducts held) ?_
      rintro _ _ rfl
      rw [note_none fresh]
      exact conducts_pure ⟨rfl, indexed⟩

private theorem indexRows_conducts (opened : s.handles table.file = some .stream)
    (indexed : IndexFor tableName index) :
    Conducts policy s (indexRows table index) (LoadConduct tableName s) := by
  refine conducts_bind (forRows_conducts opened ?_ _ _ rfl indexed) ?_
  · intro index row offset indexed
    refine conducts_bind (indexInsert_conducts indexed _ _ _) ?_
    rintro ⟨status, after⟩ _ ⟨rfl, indexed⟩
    cases status with
    | ok =>
      refine conducts_pure ⟨rfl, ?_⟩
      rintro _ ⟨⟩
      exact indexed
    | _ => exact conducts_pure ⟨rfl, nofun⟩
  rintro (status | ⟨status, after⟩) _ ⟨rfl, kept⟩
  · exact loadRefused _
  · cases status with
    | «end» =>
      refine conducts_pure ⟨rfl, ?_⟩
      rintro _ ⟨⟩
      exact kept _ _ rfl
    | _ => exact loadRefused _

/-- A rebuild keeps to the files of its table and gives every handle back. -/
theorem indexRebuild_stays
    (allows : storageValidTableName tableName = true → Allows policy tableName)
    (closed : s.directory = false) :
    Stays policy s (indexRebuild tableName) := by
  unfold indexRebuild
  cases valid : storageValidTableName tableName with
  | false => exact stays_pure _
  | true =>
    rw [storageTablePath_valid valid, storageIndexPath_valid valid]
    change Stays policy s (indexRebuildFromTable (tablePath tableName) (indexPath tableName))
    unfold indexRebuildFromTable
    rw [tableNameFromPath_valid valid]
    refine conducts_bind (storageOpenTableMode_conducts allows closed false) ?_
    rintro (status | table) t opened
    · obtain rfl := opened
      dsimp only
      split
      · exact stays_pure _
      split
      · exact stays_pure _
      split <;> exact stays_pure _
    obtain ⟨_, fresh, rfl⟩ := opened
    have held : (s.note table.file (some .stream)).handles table.file = some .stream :=
      Conduct.handles_note ..
    have rebuilt : Stays policy (s.note table.file (some .stream))
        (rebuildFrom table tableName (indexPath tableName)) := by
      unfold rebuildFrom
      split
      · exact stays_pure _
      refine conducts_bind (indexCreateSized_conducts valid _) ?_
      rintro (_ | index) _ ⟨rfl, made⟩
      · exact stays_pure _
      refine conducts_bind (indexRows_conducts held (made index rfl)) ?_
      rintro (status | index) _ ⟨rfl, indexed⟩
      · exact stays_pure _
      refine stays_bind (indexPersist_stays (allows valid) valid closed (indexed index rfl).2)
        fun status => ?_
      split
      · exact stays_pure _
      · rw [storageIndexPath_valid valid]
        simp only [↓reduceIte]
        exact stays_pure _
    refine conducts_stays rebuilt fun status => conducts_bind (storageCloseTable_conducts held) ?_
    rintro _ _ rfl
    rw [note_none fresh]
    exact conducts_pure rfl

private theorem indexLoadOrRebuild_conducts
    (allows : storageValidTableName tableName = true → Allows policy tableName)
    (closed : s.directory = false) :
    Conducts policy s (indexLoadOrRebuild tableName) (LoadConduct tableName s) := by
  refine conducts_bind (indexLoad_conducts allows closed) ?_
  rintro (status | index) _ ⟨rfl, indexed⟩
  · dsimp only
    split
    · refine conducts_stays (indexRebuild_stays allows closed) fun status => ?_
      split
      · exact loadRefused _
      · exact indexLoad_conducts allows closed
    · exact loadRefused _
  · exact conducts_pure ⟨rfl, indexed⟩

private theorem indexValidateLookup_stays (opened : s.handles table.file = some .stream)
    (key : Int32) (offset : Int64) :
    Stays policy s (indexValidateLookup table key offset) := by
  unfold indexValidateLookup
  split
  · exact stays_pure _
  refine stays_bind (storageFileSize_stays opened) fun size => ?_
  rcases size with _ | size
  · exact stays_pure _
  dsimp only
  split
  · exact stays_pure _
  refine stays_bind (storageReadRowAtOffset_stays opened _) fun row => ?_
  rcases row with _ | row
  · exact stays_pure _
  dsimp only
  split <;> exact stays_pure _

/-! ## Statements -/

/-- A policy that lets a statement print. -/
def Speaks (policy : Policy) : Prop := ∀ c, Plain c → policy.byte c

private theorem print_stays (speaks : Speaks policy) (plain : PlainText text) :
    Stays policy s (print text) :=
  stays_call (fun c among => speaks c (plain c among)) fun _ => rfl

/-- The select list of a statement that passed the checks. -/
def PlainColumns (query : SelectQuery) : Prop :=
  query.selectAll = true ∨ ∀ column ∈ query.columns, PlainText column

private theorem plainText_header (columns : PlainColumns query) : PlainText (headerText query) := by
  unfold headerText
  split
  · decide
  · rename_i listed
    exact (plainText_joined (columns.resolve_left listed)).append plainText_newline

private theorem plainText_row (row : Row) (query : SelectQuery) :
    PlainText (rowText row query) := by
  have column : ∀ name, PlainText (columnText row name) := by
    intro name
    unfold columnText
    split
    · exact plainText_decimal _
    · exact plainText_escapedField _
    · exact fun c among => absurd among List.not_mem_nil
  unfold rowText
  split
  · exact (((plainText_padTo10 (plainText_decimal _)).append (by decide)).append
      (plainText_escapedField _)).append
      plainText_newline
  · refine (plainText_joined fun word among => ?_).append plainText_newline
    obtain ⟨name, _, rfl⟩ := List.mem_map.mp among
    exact column name

private theorem plainText_rowsPrinted (rowsPrinted : Int32) :
    PlainText (rowsPrintedText rowsPrinted) := by
  unfold rowsPrintedText
  split
  · decide
  · exact ((((show PlainText (newline ++ str "(") by decide)).append (plainText_decimal _)).append
      (by decide)).append
      plainText_newline

private theorem selectWithIndex_stays (speaks : Speaks policy)
    (allows : Allows policy query.tableName) (valid : storageValidTableName query.tableName = true)
    (closed : s.directory = false) (columns : PlainColumns query)
    (opened : s.handles table.file = some .stream) :
    Stays policy s (selectWithIndex table query) := by
  unfold selectWithIndex
  split
  · exact stays_pure _
  cases utilParseInt32 query.whereValue with
  | none => exact stays_pure _
  | some searchId =>
    refine conducts_bind (indexLoadOrRebuild_conducts (fun _ => allows) closed) ?_
    rintro (status | index) _ ⟨rfl, _⟩
    · dsimp only
      split
      · refine stays_bind (print_stays speaks ?_) fun _ => stays_pure _
        exact (((show PlainText (str "Error: Table '") by decide).append
          (plainText_name valid)).append (by decide)).append
          plainText_newline
      · exact stays_pure _
    · dsimp only
      cases indexLookup index searchId with
      | error => exact stays_pure _
      | ok offset =>
        refine stays_bind (indexValidateLookup_stays opened _ _) fun row => ?_
        rcases row with _ | row
        · exact stays_pure _
        · exact stays_bind (print_stays speaks (plainText_header columns)) fun _ =>
            stays_bind (print_stays speaks (plainText_row row query)) fun _ => stays_pure _

private theorem selectScanned_stays (speaks : Speaks policy) (columns : PlainColumns query)
    (opened : s.handles table.file = some .stream) :
    Stays policy s (selectScanned table query) := by
  have each : ∀ (rowsPrinted : Int32) (row : Row) (offset : UInt64),
      Stays policy s (show Prog (Except Empty Int32) from
      do return .ok (← selectRow query rowsPrinted row)) := by
    intro rowsPrinted row _
    refine stays_bind ?_ fun _ => stays_pure _
    unfold selectRow
    split
    · exact stays_pure _
    have rest : Stays policy s (print (rowText row query) >>=
        fun _ => Pure.pure (rowsPrinted + 1)) :=
      stays_bind (print_stays speaks (plainText_row row query)) fun _ => stays_pure _
    split
    · exact stays_bind (print_stays speaks (plainText_header columns)) fun _ => rest
    · exact rest
  have scanned : Stays policy s (selectWithScan table query) := by
    refine stays_bind (forRows_stays opened each _ _) fun found => ?_
    rcases found with ⟨⟨⟩⟩ | ⟨status, rowsPrinted⟩
    cases status with
    | «end» => exact stays_pure _
    | corrupt => exact stays_bind (print_stays speaks (by decide)) fun _ => stays_pure _
    | _ => exact stays_bind (print_stays speaks (by decide)) fun _ => stays_pure _
  refine stays_bind scanned fun result => ?_
  rcases result with _ | rowsPrinted
  · exact stays_pure _
  · exact stays_bind (print_stays speaks (plainText_rowsPrinted rowsPrinted)) fun _ => stays_pure _

/-- A SELECT keeps to the files of its table and gives every handle back. -/
theorem executeSelect_stays (speaks : Speaks policy) (allows : Allows policy query.tableName)
    (valid : storageValidTableName query.tableName = true) (closed : s.directory = false)
    (columns : PlainColumns query) :
    Stays policy s (executeSelect query) := by
  have named := plainText_name valid
  have message : ∀ (front back : String) (status : ExecStatus), PlainText (str front) →
      PlainText (str back) →
      Stays policy s (print (str front ++ query.tableName ++ str back ++ newline) >>=
        fun _ => Pure.pure status) :=
    fun front back status first second => stays_bind (print_stays speaks
      (((first.append named).append second).append plainText_newline)) fun _ => stays_pure _
  refine conducts_bind (storageOpenTableMode_conducts (fun _ => allows) closed false) ?_
  rintro (status | table) t opened
  · obtain rfl := opened
    cases status <;> exact message _ _ _ (by decide) (by decide)
  · obtain ⟨_, fresh, rfl⟩ := opened
    have held : (s.note table.file (some .stream)).handles table.file = some .stream :=
      Conduct.handles_note ..
    have selected : Stays policy (s.note table.file (some .stream)) (selectFrom table query) := by
      refine stays_bind (selectWithIndex_stays speaks allows valid closed columns held)
        fun result => ?_
      cases result with
      | error => exact stays_pure _
      | notUsed => exact selectScanned_stays speaks columns held
      | rowPrinted =>
        exact stays_bind (print_stays speaks (plainText_rowsPrinted 1)) fun _ => stays_pure _
    refine conducts_stays selected fun result => conducts_bind (storageCloseTable_conducts held) ?_
    rintro _ _ rfl
    rw [note_none fresh]
    exact conducts_pure rfl

section Insert

variable {query : InsertQuery} (speaks : Speaks policy) (allows : Allows policy query.tableName)
  (valid : storageValidTableName query.tableName = true) (closed : s.directory = false)

private theorem findDuplicate_stays (opened : s.handles table.file = some .stream) (id : Int32)
    (loaded : Option Index) :
    Stays policy s (findDuplicate table id loaded) := by
  have scanning : Stays policy s (findDuplicate table id none) := by
    change Stays policy s (storageFindId table id >>= _)
    refine stays_bind (storageFindId_stays opened id) fun found => ?_
    rcases found with status | _
    · cases status <;> exact stays_pure _
    · exact stays_pure _
  unfold findDuplicate
  split
  · refine stays_bind (indexValidateLookup_stays opened _ _) fun row => ?_
    rcases row with _ | row
    · exact scanning
    · exact stays_pure _
  · exact scanning

private theorem plainText_warning (id : Int32) {problem : Bytes} (plain : PlainText problem) :
    PlainText (insertWarningText id problem) :=
  (((((show PlainText (str "Warning: Row inserted (id=") by decide).append
    (plainText_decimal id)).append (by decide)).append
    plain).append (by decide)).append plainText_newline

include speaks allows valid closed

private theorem maintainIndex_stays {loaded : Option Index}
    (indexed : ∀ base, loaded = some base → IndexFor query.tableName base) (id : Int32)
    (offset : UInt64) :
    Stays policy s (maintainIndex loaded query.tableName id offset) := by
  have warns : ∀ (problem : String) (status : ExecStatus), PlainText (str problem) →
      Stays policy s (print (insertWarningText id (str problem)) >>= fun _ => Pure.pure status) :=
    fun problem status plain => stays_bind (print_stays speaks (plainText_warning id plain))
      fun _ => stays_pure _
  have persists : ∀ after : Index, IndexFor query.tableName after →
      Stays policy s (show Prog ExecStatus from do
      if (← indexPersist after) ≠ .ok then
        print (insertWarningText id (str "persistence failed"))
        return .indexPersistFailed
      print (str "Row inserted successfully (id=" ++ decimal id ++ str ")." ++ newline)
      return .ok) := by
    intro after indexed
    refine stays_bind (indexPersist_stays allows valid closed indexed.2) fun status => ?_
    split
    · exact warns _ _ (by decide)
    · exact stays_bind (print_stays speaks
        ((((show PlainText (str "Row inserted successfully (id=") by decide).append
        (plainText_decimal id)).append (by decide)).append plainText_newline)) fun _ => stays_pure _
  have upkeep : ∀ base : Index, IndexFor query.tableName base →
      Stays policy s (maintainIndex (some base) query.tableName id offset) := by
    intro base indexed
    unfold maintainIndex
    dsimp only [Program.pure_eq, Program.pure_bind]
    refine conducts_bind (indexInsert_conducts indexed id offset.toInt64 false) ?_
    rintro ⟨status, after⟩ _ ⟨rfl, indexed⟩
    dsimp only
    split
    · refine conducts_bind (indexInsert_conducts indexed id offset.toInt64 true) ?_
      rintro ⟨status, after⟩ _ ⟨rfl, indexed⟩
      dsimp only
      split
      · exact warns _ _ (by decide)
      · exact persists after indexed
    · split
      · exact warns _ _ (by decide)
      · exact persists after indexed
  cases loaded with
  | some base => exact upkeep base (indexed base rfl)
  | none =>
    refine conducts_bind (indexCreateSized_conducts valid 0) ?_
    rintro (_ | base) _ ⟨rfl, made⟩
    · exact warns _ _ (by decide)
    · exact upkeep base (made base rfl)

private theorem insertInto_conducts {loaded : Option Index} (named : table.name = query.tableName)
    (opened : s.handles table.file = some .stream)
    (indexed : ∀ base, loaded = some base → IndexFor query.tableName base) :
    Conducts policy s (insertInto table query loaded) fun result t => t = s ∧
      result.2.file = table.file := by
  have reports : ∀ text (status : ExecStatus), PlainText text →
      Conducts policy s (print text >>= fun _ => Pure.pure (status, table))
      fun result t => t = s ∧ result.2.file = table.file :=
    fun text status plain => conducts_stays (print_stays speaks plain) fun _ =>
      conducts_pure ⟨rfl, rfl⟩
  refine conducts_stays (findDuplicate_stays opened query.id loaded) fun found => ?_
  rcases found with _ | taken | _
  · exact reports _ _ (by decide)
  · dsimp only
    cases newRow query.id query.name with
    | none => exact conducts_pure ⟨rfl, rfl⟩
    | some row =>
      refine conducts_bind (storageInsertRow_conducts allows valid closed named opened row) ?_
      rintro (status | ⟨offset, later⟩) _ ⟨rfl, same⟩
      · cases status with
        | readOnly =>
          exact reports _ _
            ((((show PlainText (str "Error: Table '") by decide).append
              (plainText_name valid)).append
            (by decide)).append plainText_newline)
        | _ => exact reports _ _ (by decide)
      · exact conducts_stays
          (maintainIndex_stays speaks allows valid closed indexed query.id offset) fun status =>
          conducts_pure ⟨rfl, same _ _ rfl⟩
  · exact reports _ _
      ((((show PlainText (str "Error: Duplicate id ") by decide).append
        (plainText_decimal query.id)).append
      (by decide)).append plainText_newline)

/-- So does an INSERT. -/
theorem executeInsert_stays : Stays policy s (executeInsert query) := by
  have plain := plainText_name valid
  have message : ∀ (front back : String) (status : ExecStatus), PlainText (str front) →
      PlainText (str back) →
      Stays policy s (print (str front ++ query.tableName ++ str back ++ newline) >>=
        fun _ => Pure.pure status) :=
    fun front back status first second => stays_bind (print_stays speaks
      (((first.append plain).append second).append plainText_newline)) fun _ => stays_pure _
  refine conducts_bind (storageOpenTableMode_conducts (fun _ => allows) closed true) ?_
  rintro (status | table) t opened
  · obtain rfl := opened
    cases status <;> exact message _ _ _ (by decide) (by decide)
  · obtain ⟨named, fresh, rfl⟩ := opened
    have held : (s.note table.file (some .stream)).handles table.file = some .stream :=
      Conduct.handles_note ..
    have closing : ∀ status : ExecStatus, Conducts policy (s.note table.file (some .stream))
        (storageCloseTable table >>= fun _ => Pure.pure status) fun _ t => t = s := by
      intro status
      refine conducts_bind (storageCloseTable_conducts held) ?_
      rintro _ _ rfl
      rw [note_none fresh]
      exact conducts_pure rfl
    refine conducts_bind (indexLoadOrRebuild_conducts (fun _ => allows) closed) ?_
    rintro loaded _ ⟨rfl, indexed⟩
    have goes_on : Conducts policy (s.note table.file (some .stream))
        (insertInto table query loaded.toOption >>= fun inserted =>
        storageCloseTable inserted.2 >>= fun _ => Pure.pure inserted.1) fun _ t => t = s := by
      have closed' : (s.note table.file (some .stream)).directory = false := closed
      refine conducts_bind (insertInto_conducts speaks allows valid closed' named held
        fun base known => indexed base ?_) ?_
      · cases loaded with
        | error => cases known
        | ok index =>
          cases known
          rfl
      · rintro ⟨status, later⟩ _ ⟨rfl, same⟩
        have closes : storageCloseTable later = storageCloseTable table := by
          unfold storageCloseTable
          rw [same]
        dsimp only
        rw [closes]
        exact closing status
    rcases loaded with status | index
    · cases status with
      | duplicatePrimaryKey =>
        refine conducts_stays (print_stays speaks ?_) fun _ => closing _
        exact (((show PlainText (str "Error: Table '") by decide).append plain).append
          (by decide)).append plainText_newline
      | _ => exact goes_on
    · exact goes_on

end Insert

/-! ## Operations -/

private theorem plainColumns_of_checked (checked : validateColumns query = .ok) :
    PlainColumns query := by
  unfold validateColumns at checked
  split at checked
  · exact .inl ‹_›
  split at checked
  · cases checked
  split at checked
  · cases checked
  split at checked
  · cases checked
  rename_i known
  refine .inr fun column among => ?_
  rw [Bool.not_eq_true, List.any_eq_false] at known
  have real := known column among
  unfold columnFromName at real
  split at real
  · cases real rfl
  split at real
  · rename_i id
    exact id ▸ (by decide)
  split at real
  · rename_i name
    exact name ▸ (by decide)
  · cases real rfl

/-- The statements of the parser. -/
theorem execute_stays {ast : AST} (speaks : Speaks policy) (allows : Allows policy ast.tableName)
    (producible : Producible ast) (closed : s.directory = false) :
    Stays policy s (execute ast) := by
  have valid := producible.named.valid
  have refused : ∀ status : SemanticStatus, PlainText (semanticStatusString status) →
      Stays policy s
        (print (str "Error: Semantic error: " ++ semanticStatusString status ++ str "." ++ newline)
          >>= fun _ =>
        Pure.pure ExecStatus.semanticError) :=
    fun status plain => stays_bind
      (print_stays speaks ((((show PlainText (str "Error: Semantic error: ") by decide).append
      plain).append (by decide)).append plainText_newline)) fun _ => stays_pure _
  unfold execute
  cases checked : semanticValidate ast with
  | ok =>
    cases ast with
    | select query =>
      have columns : validateColumns query = .ok := by
        simp only [semanticValidate] at checked
        cases status : validateColumns query with
        | ok => rfl
        | _ =>
          rw [status] at checked
          cases checked
      exact executeSelect_stays speaks allows valid closed (plainColumns_of_checked columns)
    | insert query => exact executeInsert_stays speaks allows valid closed
  | _ => exact refused _ (by decide)

/-- The table of an operation. -/
def Operation.about : Operation → Bytes
  | .create tableName => tableName
  | .rebuild tableName => tableName
  | .execute ast => ast.tableName

/-- Each of the three operations keeps to the files of the table it is about, and gives
every handle back. -/
theorem operation_stays {operation : Operation} (speaks : Speaks policy) (parsed : operation.Parsed)
    (allows : storageValidTableName operation.about = true → Allows policy operation.about)
    (closed : s.directory = false) :
    Stays policy s operation.run := by
  cases operation with
  | create tableName =>
    exact stays_bind (storageCreateTable_stays allows closed) fun _ => stays_pure _
  | rebuild tableName => exact stays_bind (indexRebuild_stays allows closed) fun _ => stays_pure _
  | execute ast =>
    have valid : storageValidTableName ast.tableName = true := Producible.named parsed |>.valid
    exact stays_bind (execute_stays speaks (allows valid) parsed closed) fun _ => stays_pure _

/-- The files of one table in the current directory, and plain text. -/
def tablePolicy (tableName : Bytes) : Policy where
  path path := storageValidTableName tableName = true ∧ TableFile tableName path
  directory path := path = str "."
  byte := Plain

private theorem tableFile_name (file : TableFile tableName path) :
    ∃ rest, path = tableName ++ 46 :: rest := by
  cases file with
  | table | journal | index => exact ⟨_, rfl⟩
  | temporary beside =>
    rcases beside with rfl | rfl
    · exact ⟨_, by rw [journalPath, List.append_assoc, List.append_assoc]; rfl⟩
    · exact ⟨_, by rw [indexPath, List.append_assoc, List.append_assoc]; rfl⟩

/-- Two tables have no file in common, temporary files included. -/
theorem tableFile_unique {other : Bytes} (valid : storageValidTableName tableName = true)
    (valid' : storageValidTableName other = true) (file : TableFile tableName path)
    (file' : TableFile other path) :
    tableName = other := by
  obtain ⟨rest, named⟩ := tableFile_name file
  obtain ⟨rest', named'⟩ := tableFile_name file'
  exact (path_injective (storageValidTableName_parts valid).noDot
    (storageValidTableName_parts valid').noDot
    (named.symm.trans named')).1

variable {faults : Faults} {w u : World} {operation : Operation}

/-- An operation uses only the files of its table: in any directory, whatever its files
contain, whichever calls fail and wherever it is stopped, the files of other names, those of
every other table among them, and the handles of others are as they were, and what it has
printed is plain text. -/
theorem operation_confined (parsed : operation.Parsed)
    (stopped : Stops (Steps faults) operation.run w u) :
    (∀ path, ¬ TableFile operation.about path → Kept (w.entries path) (u.entries path)) ∧
      (∀ other, storageValidTableName other = true → other ≠ operation.about →
        ∀ path, TableFile other path → Kept (w.entries path) (u.entries path)) ∧
      (∀ handle < w.next, u.streams handle = w.streams handle) ∧
      ∃ text, u.output = w.output ++ text ∧ PlainText text := by
  have verified : Stays (tablePolicy operation.about) .idle operation.run :=
    operation_stays (fun _ plain => plain) parsed
      (fun valid => ⟨fun _ file => ⟨valid, file⟩, rfl⟩) rfl
  obtain ⟨trace, rest, ran⟩ := stops_traces stopped
  obtain ⟨last, _, sees, _⟩ := watched_traces follows_watch verified (Policy.Sees.start w) ran
  refine ⟨fun path off => sees.entries path fun used => off used.2,
    fun other valid different path file => ?_,
    sees.streams, sees.output⟩
  refine sees.entries path ?_
  rintro ⟨valid', file'⟩
  exact different (tableFile_unique valid valid' file file')

/-- A table of two rows. -/
def rowsFile : File :=
  { bytes := headerBytes 2 ++ (7 :: List.replicate 35 0) ++ (9 :: List.replicate 35 0), older := []
    fits := by decide +kernel }

/-- Two tables of two rows each. -/
private def besideWorld : World :=
  (World.empty.setEntry (tablePath (str "a")) { now := some rowsFile, before := [] }).setEntry
    (tablePath (str "b"))
    { now := some rowsFile, before := [] }

private def addsToA : Operation :=
  .execute (.insert { tableName := str "a", id := 8, name := str "x" })

private def addingToA : World :=
  stoppedAt .any addsToA.run (List.replicate 140 { suffix := str "aaaaaa" }) besideWorld

/-- An INSERT into a table beside another, stopped behind its journal. -/
theorem operation_confined_beside : Stops (Steps .any) addsToA.run besideWorld addingToA ∧
    (addingToA.file (journalPath (str "a"))).isSome = true ∧
    (∀ path, TableFile (str "b") path → Kept (besideWorld.entries path) (addingToA.entries path)) ∧
    addingToA.file (tablePath (str "b")) = some rowsFile ∧
    ∃ text, addingToA.output = besideWorld.output ++ text ∧ PlainText text := by
  have stopped : Stops (Steps .any) addsToA.run besideWorld addingToA := stoppedAt_stops
  have parsed : addsToA.Parsed :=
    producible_of_read ⟨str "INSERT INTO a VALUES(8,\"x\");", by decide⟩ (by decide +kernel)
  obtain ⟨_, others, _, said⟩ := operation_confined parsed stopped
  have kept := others (str "b") (by decide) (by decide)
  exact ⟨stopped, by decide +kernel, kept, (kept _ .table).same_file, said⟩

/-! ## Operations that only read tables -/

/-- A rebuild or a SELECT. -/
def Operation.Reads : Operation → Prop
  | .create _ => False
  | .rebuild _ => True
  | .execute ast => ∃ query, ast = .select query

/-- Nothing is changed but the index file of a table that may exist, and that only as a whole. -/
private def ReaderKept (tableName : Bytes) (w v : World) : Prop :=
  v.entries = w.entries ∨ storageValidTableName tableName = true ∧
    IndexKept tableName (Rebuilt .any tableName w) w v

private theorem reader_keeps (reads : operation.Reads) (parsed : operation.Parsed) :
    wp (Steps .any) (ReaderKept operation.about w) operation.run
      (fun _ v => ReaderKept operation.about w v) w := by
  have start : ∀ tableName, ReaderKept tableName w w := fun _ => .inl rfl
  cases operation with
  | create => exact reads.elim
  | rebuild tableName =>
    have rebuilt : wp (Steps .any) (ReaderKept tableName w) (indexRebuild tableName)
        (fun _ v => ReaderKept tableName w v) w := by
      cases valid : storageValidTableName tableName with
      | false =>
        unfold indexRebuild
        rw [valid]
        exact ⟨start _, start _⟩
      | true =>
        exact wp_mono (indexRebuild_spec (.inl rfl)) (fun _ kept => .inr ⟨valid, kept⟩)
          fun _ _ kept _ => .inr ⟨valid, kept⟩
    exact wp_seq rebuilt (fun _ kept => kept) fun _ _ kept _ => ⟨kept, kept⟩
  | execute ast =>
    obtain ⟨query, rfl⟩ := reads
    have producible : Producible (.select query) := parsed
    have valid := producible.named.valid
    have selected : wp (Steps .any) (ReaderKept query.tableName w) (execute (.select query))
        (fun _ v => ReaderKept query.tableName w v) w := by
      unfold execute
      cases checked : semanticValidate (.select query) with
      | ok =>
        exact wp_mono (executeSelect_spec valid (.inl rfl)) (fun _ kept => .inr ⟨valid, kept⟩)
          fun _ _ kept _ => .inr ⟨valid, kept⟩
      | _ => exact wp_print (start _) ⟨.inl rfl, .inl rfl⟩
    exact wp_seq selected (fun _ kept => kept) fun _ _ kept _ => ⟨kept, kept⟩

/-- Wherever a rebuild or a SELECT is stopped, in any directory and whichever calls fail: every
table and every journal is as it was, and the index file is, or it was replaced as a whole by
one of exactly the rows of the table file. -/
theorem readers_replace_index (reads : operation.Reads) (parsed : operation.Parsed)
    (stopped : Stops (Steps .any) operation.run w u) :
    (∀ other, storageValidTableName other = true →
      Kept (w.entries (tablePath other)) (u.entries (tablePath other)) ∧
      Kept (w.entries (journalPath other)) (u.entries (journalPath other))) ∧
    (u.file (indexPath operation.about) = w.file (indexPath operation.about) ∨
      ∃ file count index after, w.file (tablePath operation.about) = some file ∧
        acceptedCount file.bytes = .ok count ∧
        IndexOf (tableRows file.bytes count.toNat) operation.about index ∧
        u.file (indexPath operation.about) = some after ∧ Image index after.bytes) := by
  rcases wp_stops (reader_keeps reads parsed) stopped with same | ⟨valid, kept, index⟩
  · exact ⟨fun _ _ => ⟨.of_eq (congrFun same _), .of_eq (congrFun same _)⟩,
    .inl (World.file_congr same _)⟩
  refine ⟨fun other valid' => ?_, index.imp_right ?_⟩
  · obtain ⟨offTable, offJournal, _⟩ := indexPath_apart (storageValidTableName_parts valid).noDot
      (storageValidTableName_parts valid').noDot
    exact ⟨kept _ offTable, kept _ offJournal⟩
  · rintro ⟨after, there, _, index, ⟨file, count, found, accepted, _, rfl⟩, index_of, image⟩
    exact ⟨file, count, index, after, found, accepted, index_of, there, image⟩

private def rebuildsA : Operation := .rebuild (str "a")

private def rebuildingA : World :=
  stoppedAt .any rebuildsA.run (List.replicate 44 { suffix := str "aaaaaa" }) besideWorld

/-- A rebuild that is stopped behind the renaming of its index file. -/
theorem readers_replace_index_renamed : Stops (Steps .any) rebuildsA.run besideWorld rebuildingA ∧
    Kept (besideWorld.entries (tablePath (str "a"))) (rebuildingA.entries (tablePath (str "a"))) ∧
    ∃ index after, IndexOf (tableRows rowsFile.bytes 2) (str "a") index ∧
      rebuildingA.file (indexPath (str "a")) = some after ∧ Image index after.bytes := by
  have stopped : Stops (Steps .any) rebuildsA.run besideWorld rebuildingA := stoppedAt_stops
  have reads : rebuildsA.Reads := trivial
  have parsed : rebuildsA.Parsed := trivial
  have accepted : acceptedCount rowsFile.bytes = .ok 2 := by decide +kernel
  have replaced : (rebuildingA.file (indexPath (str "a"))).isSome = true := by decide +kernel
  obtain ⟨kept, same | ⟨file, count, index, after, found, counted, index_of, there, image⟩⟩ :=
    readers_replace_index reads parsed stopped
  · rw [show rebuildingA.file (indexPath (str "a")) = none from same] at replaced
    cases replaced
  · obtain rfl : rowsFile = file := Option.some.inj found
    rw [accepted, Except.ok.injEq] at counted
    subst counted
    exact ⟨stopped, (kept (str "a") (by decide)).1, index, after, index_of, there, image⟩

end SqlEngine
