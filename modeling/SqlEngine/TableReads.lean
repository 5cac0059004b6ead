import SqlEngine.FileOperations

/-! Reading a table file: what its bytes stand for, and that opening and scanning return
that, whatever the file holds. A call that fails makes the operation fail. -/
namespace SqlEngine

open Library Program World Posix

/-! ## What the bytes stand for -/

/-- The numbers of a header, as they lie in the file. -/
def headerOf (bytes : Bytes) : TableHeader :=
  { magic := getU32Le (slice bytes 0 4)
    version := getU32Le (slice bytes 4 4)
    headerSize := getU32Le (slice bytes 8 4)
    pageSize := getU32Le (slice bytes 12 4)
    rowSize := getU32Le (slice bytes 16 4)
    reserved0 := getU32Le (slice bytes 20 4)
    count := getU64Le (slice bytes 24 8) }

/-- The row count of a table file, or why it is not one. -/
def acceptedCount (bytes : Bytes) : Except TableStatus UInt64 :=
  if bytes.length < 64 then .error .incompatible else validateHeader (headerOf bytes) bytes.length

/-- The row in a slot. -/
def rowAt (bytes : Bytes) (row : Nat) : Row :=
  storageDeserializeRow (slice bytes (rowOffset row) 36)

/-- The rows in the first slots, in order. -/
def tableRows (bytes : Bytes) (count : Nat) : List Row := (List.range count).map (rowAt bytes)

/-- A table file without a row. -/
def rowlessFile : File := { bytes := headerBytes 0, older := [], fits := by decide }

theorem length_tableRows (bytes : Bytes) (n : Nat) :
    (tableRows bytes n).length = n := by simp [tableRows]

theorem tableRows_front (bytes : Bytes) {i count : Nat} (inside : i ≤ count) :
    (tableRows bytes count).take i = tableRows bytes i := by
  rw [tableRows, tableRows, ← List.map_take, List.take_range, Nat.min_eq_left inside]

/-- The words that a header of this version has. -/
structure TableHeader.Current (header : TableHeader) : Prop where
  magic : header.magic = STORAGE_TABLE_MAGIC
  version : header.version = STORAGE_TABLE_VERSION
  headerSize : header.headerSize = 64
  pageSize : header.pageSize = 4096
  rowSize : header.rowSize = 36
  reserved0 : header.reserved0 = 0

/-- The checks of a header pass exactly for a current header whose rows end within the
file, at an offset of 64 bits. -/
theorem validateHeader_iff {header : TableHeader} {fileSize : Nat} {count : UInt64} :
    validateHeader header fileSize = .ok count ↔
      header.Current ∧ count = header.count ∧ rowsEnd count.toNat < 2 ^ 64 ∧
        rowsEnd count.toNat ≤ fileSize := by
  have headerSize : STORAGE_HEADER_SIZE.toUInt32 = 64 := by decide
  have pageSize : STORAGE_PAGE_SIZE.toUInt32 = 4096 := by decide
  have rowSize : STORAGE_ROW_SIZE.toUInt32 = 36 := by decide
  constructor
  · intro accepted
    unfold validateHeader at accepted
    split at accepted
    · cases accepted
    split at accepted
    · cases accepted
    split at accepted
    · cases accepted
    split at accepted
    · cases accepted
    split at accepted
    · cases accepted
    split at accepted
    · cases accepted
    split at accepted
    · cases accepted
    split at accepted
    · cases accepted
    cases accepted
    rename_i magic version size page row reserved _ minimum sized enough
    have exact := storageLogicalSize_iff.mp sized
    have bound := minimum.toNat_lt
    refine ⟨⟨of_not_not magic, of_not_not version, ?_, ?_, ?_, of_not_not reserved⟩, rfl,
      by omega, by omega⟩
    · exact headerSize ▸ of_not_not size
    · exact pageSize ▸ of_not_not page
    · exact rowSize ▸ of_not_not row
  · rintro ⟨current, rfl, fits, enough⟩
    have sized : storageLogicalSize header.count = some (.ofNat (rowsEnd header.count.toNat)) :=
      storageLogicalSize_iff.mpr (toNat_ofNat fits)
    have size : (UInt64.ofNat (rowsEnd header.count.toNat)).toNat = rowsEnd header.count.toNat :=
      toNat_ofNat fits
    have long : ¬ fileSize < (UInt64.ofNat (rowsEnd header.count.toNat)).toNat := by
      rw [size]
      omega
    simp only [validateHeader, current.magic, current.version, current.headerSize, current.pageSize,
      current.rowSize, current.reserved0, headerSize, pageSize, rowSize, sized, long, ne_eq,
        not_true_eq_false,
      ↓reduceIte]

/-- A table file is accepted exactly with a full, current header and all its rows. -/
theorem acceptedCount_iff {bytes : Bytes} {count : UInt64} :
    acceptedCount bytes = .ok count ↔
      64 ≤ bytes.length ∧ (headerOf bytes).Current ∧ count = (headerOf bytes).count ∧
        rowsEnd count.toNat < 2 ^ 64 ∧ rowsEnd count.toNat ≤ bytes.length := by
  unfold acceptedCount
  split
  · rename_i short
    constructor
    · nofun
    · rintro ⟨long, _⟩
      omega
  · rename_i long
    rw [validateHeader_iff]
    exact ⟨fun accepted => ⟨by omega, accepted⟩, fun accepted => accepted.2⟩

/-- A table file is refused for its version, or as corrupt. -/
theorem acceptedCount_error {bytes : Bytes} {status : TableStatus}
    (refused : acceptedCount bytes = .error status) :
    status = .incompatible ∨ status = .corrupt := by
  unfold acceptedCount at refused
  split at refused
  · cases refused
    exact .inl rfl
  unfold validateHeader at refused
  -- each check in turn
  repeat'
    split at refused
    · cases refused
      first | exact .inl rfl | exact .inr rfl
  cases refused

/-! ## Calls on an open file -/

/-- Nothing any name stands for has changed. -/
def Still (w : World) : World → Prop := fun v => v.entries = w.entries

variable {faults : Faults} {inv : World → Prop} {post : α → World → Prop} {w : World}
    {path : Path} {h : Nat}
  {file : File} {position : Nat}

private theorem wp_readExact {β : Type} {count : Nat} (decode : Bytes → β)
    {next : Option β → Prog α}
    (positive : 0 < count) (found : w.file path = some file)
    (enough : position + count ≤ file.bytes.length)
    (holds : ∀ p, inv (w.cursor h path p))
    (ok : wp (Steps faults) inv (next (some (decode (slice file.bytes position count)))) post
      (w.cursor h path (position + count)))
    (failed : faults.calls = true →
      ∀ p, wp (Steps faults) inv (next none) post (w.cursor h path p)) :
    wp (Steps faults) inv ((do
      let b ← fread h count
      if b.length ≠ count then return none else return some (decode b)) >>= next) post
      (w.cursor h path position) := by
  have length : (slice file.bytes position count).length = count := by
    rw [length_slice]
    omega
  refine wp_bind (wp_fread_cursor found (holds _) positive ?_ fun calls data short => ?_)
  · rw [length, if_neg (not_not_intro rfl)]
    exact ⟨holds _, ok⟩
  · rw [if_pos (by omega)]
    exact ⟨holds _, failed calls _⟩

/-- `util_read_u32_le` inside the file. -/
theorem wp_utilReadU32Le {next : Option UInt32 → Prog α} (found : w.file path = some file)
    (enough : position + 4 ≤ file.bytes.length) (holds : ∀ p, inv (w.cursor h path p))
    (ok : wp (Steps faults) inv (next (some (getU32Le (slice file.bytes position 4)))) post
      (w.cursor h path (position + 4)))
    (failed : faults.calls = true →
      ∀ p, wp (Steps faults) inv (next none) post (w.cursor h path p)) :
    wp (Steps faults) inv (utilReadU32Le h >>= next) post (w.cursor h path position) :=
  wp_readExact getU32Le (by decide) found enough holds ok failed

theorem wp_utilReadU64Le {next : Option UInt64 → Prog α} (found : w.file path = some file)
    (enough : position + 8 ≤ file.bytes.length) (holds : ∀ p, inv (w.cursor h path p))
    (ok : wp (Steps faults) inv (next (some (getU64Le (slice file.bytes position 8)))) post
      (w.cursor h path (position + 8)))
    (failed : faults.calls = true →
      ∀ p, wp (Steps faults) inv (next none) post (w.cursor h path p)) :
    wp (Steps faults) inv (utilReadU64Le h >>= next) post (w.cursor h path position) :=
  wp_readExact getU64Le (by decide) found enough holds ok failed

/-- The size of an open file. -/
theorem wp_seekEnd {next : Except Errno Nat → Prog α} (found : w.file path = some file)
    (holds : ∀ p, inv (w.cursor h path p))
    (ok : wp (Steps faults) inv (next (.ok file.bytes.length)) post
      (w.cursor h path file.bytes.length))
    (failed : faults.calls = true → ∀ error p,
      wp (Steps faults) inv (next (.error error)) post (w.cursor h path p)) :
    wp (Steps faults) inv (seekEnd h >>= next) post (w.cursor h path position) := by
  refine wp_bind (wp_fseek_cursor found (holds _) ?_ fun calls error => ?_)
  · exact @wp_ftell_cursor _ _ _ _ _ _ _ _ Pure.pure (holds _) file.fits ⟨holds _, ok⟩
      fun calls error =>
      ⟨holds _, failed calls error _⟩
  · exact ⟨holds _, failed calls error _⟩

private theorem readHeader_spec (found : w.file path = some file)
    (enough : 64 ≤ file.bytes.length) :
    wp (Steps faults) (Still w) (readHeader h)
      (fun result v => (∃ p, v = w.cursor h path p) ∧
        (result = some (headerOf file.bytes) ∨ faults.calls = true ∧ result = none))
          (w.cursor h path 0) := by
  have still : ∀ p, Still w (w.cursor h path p) := fun _ => rfl
  have failing : faults.calls = true → ∀ p, wp (Steps faults) (Still w) (Pure.pure none)
      (fun result v => (∃ p, v = w.cursor h path p) ∧
        (result = some (headerOf file.bytes) ∨ faults.calls = true ∧ result = none))
          (w.cursor h path p) :=
    fun calls p => ⟨rfl, ⟨p, rfl⟩, .inr ⟨calls, rfl⟩⟩
  refine wp_utilReadU32Le found (by omega) still ?_ failing
  refine wp_utilReadU32Le found (by omega) still ?_ failing
  refine wp_utilReadU32Le found (by omega) still ?_ failing
  refine wp_utilReadU32Le found (by omega) still ?_ failing
  refine wp_utilReadU32Le found (by omega) still ?_ failing
  refine wp_utilReadU32Le found (by omega) still ?_ failing
  refine wp_utilReadU64Le found (by omega) still ?_ failing
  exact ⟨rfl, ⟨_, rfl⟩, .inl rfl⟩

/-- The header check returns what the bytes stand for. -/
theorem readAndValidateHeader_spec (found : w.file path = some file) :
    wp (Steps faults) (Still w) (readAndValidateHeader h)
      (fun result v => (∃ p, v = w.cursor h path p) ∧
        (result = acceptedCount file.bytes ∨
          faults.calls = true ∧ ∃ status, result = .error status))
      (w.cursor h path position) := by
  refine wp_seekEnd found (fun _ => rfl) ?_ fun calls error p =>
    ⟨rfl, ⟨p, rfl⟩, .inr ⟨calls, _, rfl⟩⟩
  dsimp only
  have size : STORAGE_HEADER_SIZE.toNat = 64 := rfl
  unfold acceptedCount
  rw [size]
  split
  · exact ⟨rfl, ⟨_, rfl⟩, .inl rfl⟩
  · rename_i long
    refine wp_fseek_cursor found rfl ?_ fun calls error => ⟨rfl, ⟨_, rfl⟩, .inr ⟨calls, _, rfl⟩⟩
    refine wp_seq (readHeader_spec found (by omega)) (fun _ still => still) ?_
    rintro result _ _ ⟨⟨p, rfl⟩, rfl | ⟨calls, rfl⟩⟩
    · exact ⟨rfl, ⟨p, rfl⟩, .inl rfl⟩
    · exact ⟨rfl, ⟨p, rfl⟩, .inr ⟨calls, _, rfl⟩⟩

/-! ## Rows -/

/-- A row is read from a valid offset; any other offset is refused. -/
theorem storageReadRowAtOffset_spec (found : w.file path = some file) (table : Table)
    (offset : UInt64) :
    wp (Steps faults) (Still w) (storageReadRowAtOffset table offset)
      (fun result v => (∃ p, v = w.cursor table.file path p) ∧
        (result = (if storageIsValidRowOffset offset file.bytes.length.toUInt64 table.rowCount
            then .ok (storageDeserializeRow (slice file.bytes offset.toNat 36))
              else .error .invalidOffset) ∨
          faults.calls = true ∧ result = .error .ioError))
      (w.cursor table.file path position) := by
  refine wp_bind (wp_seekEnd found (fun _ => rfl) ?_ fun calls error p => ?_)
  · refine ⟨rfl, ?_⟩
    dsimp only
    cases valid : storageIsValidRowOffset offset file.bytes.length.toUInt64 table.rowCount with
    | false => exact ⟨rfl, ⟨_, rfl⟩, .inl rfl⟩
    | true =>
      obtain ⟨_, _, _, enough, _⟩ := storageIsValidRowOffset_iff.mp valid
      have size : file.bytes.length.toUInt64.toNat = file.bytes.length :=
        toNat_ofNat (by have fits := file.fits; unfold maxFileSize at fits; omega)
      have length : (slice file.bytes offset.toNat STORAGE_ROW_SIZE.toNat).length =
          STORAGE_ROW_SIZE.toNat := by
        have rowSize : STORAGE_ROW_SIZE.toNat = 36 := rfl
        rw [length_slice]
        omega
      simp only [Bool.not_true, Bool.false_eq_true, ↓reduceIte]
      refine wp_fseek_cursor found rfl ?_ fun calls error => ⟨rfl, ⟨_, rfl⟩, .inr ⟨calls, rfl⟩⟩
      refine wp_fread_cursor found rfl (by decide) ?_ fun calls data short => ?_
      · dsimp only [Option.getD_some]
        rw [length, if_neg (not_not_intro rfl)]
        exact ⟨rfl, ⟨_, rfl⟩, .inl rfl⟩
      · rw [if_pos (by omega)]
        exact ⟨rfl, ⟨_, rfl⟩, .inr ⟨calls, rfl⟩⟩
  · exact ⟨rfl, rfl, ⟨_, rfl⟩, .inr ⟨calls, rfl⟩⟩

/-- The offset of a row, as the engine passes it on. -/
def offsetOf (row : Nat) : UInt64 := .ofNat (rowOffset row)

/-- Inside a file of possible size the offset of a row does not wrap. -/
theorem offsetOf_toNat {row count : Nat} (inside : row < count) (bytes : Bytes)
    (whole : rowsEnd count ≤ bytes.length)
    (fits : bytes.length ≤ maxFileSize) : (offsetOf row).toNat = rowOffset row := by
  have last := rowOffset_lt_rowsEnd inside
  unfold maxFileSize at fits
  exact toNat_ofNat (by omega)

/-- A scanner in front of a row. -/
def scanAt (table : Table) (row : Nat) : RowScanner :=
  { table, nextRow := .ofNat row, rowCount := table.rowCount }

theorem storageScanBegin_eq (table : Table) : storageScanBegin table = scanAt table 0 := rfl

/-- A scan returns row after row, then the end. -/
theorem storageScanNext_spec (found : w.file path = some file) {table : Table} {row : Nat}
    (whole : rowsEnd table.rowCount.toNat ≤ file.bytes.length)
    (reached : row ≤ table.rowCount.toNat) :
    wp (Steps faults) (Still w) (storageScanNext (scanAt table row))
      (fun result v => (∃ p, v = w.cursor table.file path p) ∧
        (row = table.rowCount.toNat ∧ result = .error .end ∨
          row < table.rowCount.toNat ∧
            result = .ok (rowAt file.bytes row, offsetOf row, scanAt table (row + 1)) ∨
          faults.calls = true ∧ result = .error .ioError))
      (w.cursor table.file path position) := by
  have below := table.rowCount.toNat_lt
  have named : (UInt64.ofNat row).toNat = row := toNat_ofNat (by omega)
  have order : (UInt64.ofNat row ≥ table.rowCount) ↔ table.rowCount.toNat ≤ row := by
    rw [ge_iff_le, UInt64.le_iff_toNat_le, named]
  unfold storageScanNext
  simp only [scanAt, order]
  by_cases done : table.rowCount.toNat ≤ row
  · rw [if_pos done]
    exact ⟨rfl, ⟨_, rfl⟩, .inl ⟨by omega, rfl⟩⟩
  · have inside : row < table.rowCount.toNat := by omega
    have offset := offsetOf_toNat inside file.bytes whole file.fits
    have found_offset : storageOffsetForRow (.ofNat row) = some (offsetOf row) :=
      storageOffsetForRow_iff.mpr (by rw [offset, named])
    have length := file.fits
    have last := rowOffset_lt_rowsEnd inside
    unfold maxFileSize at length
    have size : file.bytes.length.toUInt64.toNat = file.bytes.length := toNat_ofNat (by omega)
    have valid : storageIsValidRowOffset
        (offsetOf row) file.bytes.length.toUInt64 table.rowCount = true :=
      storageIsValidRowOffset_iff.mpr ⟨row, inside, offset, by omega, by omega⟩
    rw [if_neg done, found_offset]
    refine wp_seq (storageReadRowAtOffset_spec found table (offsetOf row)) (fun _ still => still) ?_
    rw [valid, offset]
    rintro result _ _ ⟨⟨p, rfl⟩, rfl | ⟨calls, rfl⟩⟩
    · refine ⟨rfl, ⟨p, rfl⟩, .inr (.inl ⟨inside, ?_⟩)⟩
      simp only [rowAt, UInt64.ofNat_add, UInt64.ofNat_one]
    · exact ⟨rfl, ⟨p, rfl⟩, .inr (.inr ⟨calls, rfl⟩)⟩

/-- A property of worlds that looks at nothing but what the names stand for. -/
def OnEntries (inv : World → Prop) : Prop := ∀ u v, inv u → v.entries = u.entries → inv v

/-- The file of a table is open, with nothing buffered. -/
def OpenOn (table : Table) (path : Path) (file : File) (v : World) : Prop :=
  v.file path = some file ∧ ∃ p, v.streams table.file = some { path, position := p, pending := [] }

theorem OpenOn.cursor {table : Table} {v : World} (opened : OpenOn table path file v) :
    ∃ p, v = v.cursor table.file path p := by
  obtain ⟨_, p, stream⟩ := opened
  exact ⟨p, (setStream_self stream).symm⟩

theorem openOn_cursor {table : Table} {v : World} (found : v.file path = some file) (p : Nat) :
    OpenOn table path file (v.cursor table.file path p) := ⟨found, p, streams_cursor ..⟩

/-- The loop over all rows: what holds in front of each row and is kept by the body holds
at the end. The loop may also be left by the body, or by a call that fails. -/
theorem forRows_spec {σ ρ : Type} {body : σ → Row → UInt64 → Prog (Except ρ σ)} {table : Table}
    (path : Path)
    (holds : Nat → σ → World → Prop) (left : ρ → World → Prop) (stable : OnEntries inv)
    (whole : rowsEnd table.rowCount.toNat ≤ file.bytes.length)
    (opened : ∀ i state v, holds i state v → inv v ∧ OpenOn table path file v)
    (moved : ∀ i state v p, holds i state v → holds i state (v.cursor table.file path p))
    (step : ∀ i state v, i < table.rowCount.toNat → holds i state v →
      wp (Steps faults) inv (body state (rowAt file.bytes i) (offsetOf i))
        (fun result v => match result with
          | .ok state => holds (i + 1) state v
          | .error result => left result v) v)
    {passes row : Nat} {state : σ} (reached : row ≤ table.rowCount.toNat)
    (enough : table.rowCount.toNat + 1 ≤ passes + row) (start : holds row state w) :
    wp (Steps faults) inv (forRows body passes (scanAt table row) state)
      (fun result v => match result with
        | .error result => left result v
        | .ok (status, state) => status = .end ∧ holds table.rowCount.toNat state v ∨
            faults.calls = true ∧ status = .ioError ∧ ∃ i, holds i state v) w := by
  induction passes generalizing row state w with
  | zero => omega
  | succ passes ih =>
    obtain ⟨holding, found, position, stream⟩ := opened row state w start
    obtain ⟨p, here⟩ := OpenOn.cursor ⟨found, position, stream⟩
    unfold forRows
    rw [here]
    refine wp_seq (storageScanNext_spec found whole reached)
      (fun v still => stable w v holding still) ?_
    rintro result _ _ ⟨⟨p, rfl⟩, ⟨rfl, rfl⟩ | ⟨inside, rfl⟩ | ⟨calls, rfl⟩⟩
    · have again := moved _ _ _ p start
      exact ⟨(opened _ _ _ again).1, .inl ⟨rfl, again⟩⟩
    · refine wp_seq (step row state _ inside (moved _ _ _ p start)) (fun _ same => same) ?_
      rintro (result | state) v kept after
      · exact ⟨kept, after⟩
      · exact ih (by omega) (by omega) after
    · have again := moved _ _ _ p start
      exact ⟨(opened _ _ _ again).1, .inr ⟨calls, rfl, row, again⟩⟩

/-! ## Opening -/

/-- An open file on a world that differs from another only in what was opened since. -/
theorem quiet_cursor (w : World) (path : Path) (p : Nat) :
    Quiet w ({ w with next := w.next + 1 }.cursor w.next path p) := Quiet.newHandle w _

/-- What opening a table for reading comes to. -/
inductive OpenedReadonly (faults : Faults) (tableName : Bytes) (w : World) :
    Except TableStatus Table → World → Prop where
  | opened {file : File} (found : w.file (tablePath tableName) = some file)
      (accepted : acceptedCount file.bytes = .ok rowCount)
      (settled : faults.access = true ∨ w.file (journalPath tableName) = none) :
      OpenedReadonly faults tableName w
        (.ok { name := tableName, file := w.next, rowCount, writable := false })
        ({ w with next := w.next + 1 }.cursor w.next (tablePath tableName) p)
  | absent (missing : w.file (tablePath tableName) = none) (quiet : Quiet w v) :
      OpenedReadonly faults tableName w (.error .notFound) v
  | pending (present : (w.file (tablePath tableName)).isSome = true)
      (there : (w.file (journalPath tableName)).isSome = true) (quiet : Quiet w v) :
      OpenedReadonly faults tableName w (.error .recoveryRequired) v
  | refused {file : File} (found : w.file (tablePath tableName) = some file)
      (refusal : acceptedCount file.bytes = .error status) (quiet : Quiet w v) :
      OpenedReadonly faults tableName w (.error status) v
  | failed (calls : faults.calls = true) (quiet : Quiet w v) :
      OpenedReadonly faults tableName w (.error status) v

theorem OpenedReadonly.quiet {tableName : Bytes} {result : Except TableStatus Table} {v : World}
    (opened : OpenedReadonly faults tableName w result v) : Quiet w v := by
  cases opened with
  | opened => exact quiet_cursor _ _ _
  | absent _ quiet => exact quiet
  | pending _ _ quiet => exact quiet
  | refused _ _ quiet => exact quiet
  | failed _ quiet => exact quiet

/-- A table that opens for reading. -/
structure Openable (tableName : Bytes) (w : World) : Prop where
  valid : storageValidTableName tableName = true
  accepted : ∃ file count, w.file (tablePath tableName) = some file ∧
    acceptedCount file.bytes = .ok count
  settled : w.file (journalPath tableName) = none

/-- Opening for reading is refused for a failing call or a file that is no table. -/
theorem OpenedReadonly.refusal {tableName : Bytes} {status : TableStatus} {v : World}
    (opened : OpenedReadonly faults tableName w (.error status) v) :
    faults.calls = true ∨ ¬ Openable tableName w := by
  cases opened with
  | absent missing =>
    refine .inr fun ⟨_, ⟨_, _, found, _⟩, _⟩ => ?_
    rw [missing] at found
    cases found
  | pending _ there =>
    refine .inr fun openable => ?_
    rw [openable.settled] at there
    cases there
  | refused found refusal =>
    refine .inr fun ⟨_, ⟨_, _, found', accepted⟩, _⟩ => ?_
    rw [found, Option.some.injEq] at found'
    rw [← found', refusal] at accepted
    cases accepted
  | failed calls => exact .inl calls

/-- Why a table was not opened. -/
theorem OpenedReadonly.error_ends {tableName : Bytes} {status : TableStatus} {v : World}
    (opened : OpenedReadonly faults tableName w (.error status) v) :
    faults.calls = true ∨ status = .notFound ∧ w.file (tablePath tableName) = none ∨
      status ≠ .notFound ∧ (w.file (tablePath tableName)).isSome = true ∧
        ¬ Openable tableName w := by
  rcases opened.refusal with calls | closed
  · exact .inl calls
  · cases opened with
    | absent missing => exact .inr (.inl ⟨rfl, missing⟩)
    | pending present => exact .inr (.inr ⟨nofun, present, closed⟩)
    | refused found refusal =>
      refine .inr (.inr ⟨?_, found ▸ rfl, closed⟩)
      rcases acceptedCount_error refusal with rfl | rfl <;> nofun
    | failed calls => exact .inl calls

/-- What follows once the file is open. -/
theorem finishOpen_spec (found : w.file path = some file) (name : Bytes) (writable : Bool) :
    wp (Steps faults) (Still w) (finishOpen name h writable)
      (fun result v => match result with
        | .ok table => acceptedCount file.bytes = .ok table.rowCount ∧
            table = { name, file := h, rowCount := table.rowCount, writable } ∧
              ∃ p, v = w.cursor h path p
        | .error status => (acceptedCount file.bytes = .error status ∨ faults.calls = true) ∧
            v = w.setStream h none)
      (w.cursor h path position) := by
  refine wp_seq (readAndValidateHeader_spec found) (fun _ still => still) ?_
  rintro (status | rowCount) _ _ ⟨⟨p, rfl⟩, outcome⟩
  · refine wp_fclose_cursor rfl fun _ => ⟨rfl, ?_, rfl⟩
    rcases outcome with accepted | ⟨calls, _⟩
    · exact .inl accepted.symm
    · exact .inr calls
  · rcases outcome with accepted | ⟨_, _, wrong⟩
    · exact ⟨rfl, accepted.symm, rfl, p, rfl⟩
    · cases wrong

/-- Only a valid name is opened, in either mode. -/
theorem storageOpenTableMode_valid {tableName : Bytes} {writable : Bool} {table : Table}
    (ran : Returns (Steps faults) (storageOpenTableMode tableName writable) w (.ok table) v) :
    storageValidTableName tableName = true := by
  cases valid : storageValidTableName tableName with
  | true => rfl
  | false =>
    unfold storageOpenTableMode at ran
    rw [valid] at ran
    cases ran

/-- Opening for reading. -/
theorem storageOpenTableReadonly_spec {tableName : Bytes}
    (valid : storageValidTableName tableName = true) :
    wp (Steps faults) (Still w) (storageOpenTableReadonly tableName)
      (OpenedReadonly faults tableName w) w := by
  unfold storageOpenTableReadonly storageOpenTableMode
  rw [valid, utilCopyChecked_valid valid, storageTablePath_valid valid,
    storageJournalPath_valid valid]
  refine wp_allocate rfl ?_ fun calls => ⟨rfl, .failed calls (.refl w)⟩
  refine wp_openFile rfl (fun present => ?_)
    (fun absent => ⟨rfl, .absent absent (.refl w)⟩) fun calls error known => ?_
  · obtain ⟨file, found⟩ := Option.isSome_iff_exists.mp present
    have quiet := Quiet.newHandle w
    rw [opened_eq]
    refine wp_fdopen rfl ?_ fun calls error => wp_close rfl ?_ fun _ _ => ?_
    · dsimp only
      have finish : (faults.access = true ∨ w.file (journalPath tableName) = none) →
          wp (Steps faults) (Still w) (finishOpen tableName w.next false)
            (OpenedReadonly faults tableName w)
            ({ w with next := w.next + 1 }.cursor w.next (tablePath tableName) 0) := by
        intro settled
        refine wp_mono (finishOpen_spec (w := { w with next := w.next + 1 }) found tableName false)
          (fun _ still => still) ?_
        rintro (status | table) v _ outcome
        · obtain ⟨refusal | calls, rfl⟩ := outcome
          · exact .refused found refusal (quiet _)
          · exact .failed calls (quiet _)
        · obtain ⟨accepted, shape, p, rfl⟩ := outcome
          rw [shape]
          exact .opened found accepted settled
      refine wp_access rfl (fun there => ?_) (fun missing => ?_) fun _ faulty _ _ => ?_
      · exact wp_fclose_cursor rfl fun _ => ⟨rfl, .pending present there (quiet _)⟩
      · exact finish (.inr missing)
      · exact finish (.inl faulty)
    · rw [World.cursor, setStream_setStream]
      exact ⟨rfl, .failed calls (quiet _)⟩
    · rw [World.cursor, setStream_setStream]
      exact ⟨rfl, .failed calls (quiet _)⟩
  · dsimp only
    rw [if_neg known]
    exact ⟨rfl, .failed calls (.refl w)⟩

end SqlEngine
