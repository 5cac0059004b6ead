import SqlEngine.JournalProofs
import SqlEngine.TableReads

/-! The state of a table between, during and after insertions: which rows it holds, what
each of its contents and each of its journals say about them, and what a crash leaves. -/
namespace SqlEngine

open Library World

/-! ## Shapes of table files -/

/-- The bytes of some rows in the first slots. -/
def rowsByte (rows : List Row) (i : Nat) (b : UInt8) : Prop :=
  ∃ r j, ∃ inside : r < rows.length, j < 36 ∧ i = rowOffset r + j ∧
    b = (storageSerializeRow (rows.get ⟨r, inside⟩)).getD j 0

/-- The bytes of a row count in the header. -/
def countByte (count : Nat) (i : Nat) (b : UInt8) : Prop :=
  ∃ j < 8, i = 24 + j ∧ b = (leBytes 8 count).getD j 0

def rowsShape (limit : Nat) (rows : List Row) : Shape := { byte := rowsByte rows, limit }

/-- The rows, and their number in the header. -/
def countedShape (limit : Nat) (rows : List Row) : Shape :=
  { byte := fun i b => rowsByte rows i b ∨ countByte rows.length i b, limit }

/-- No byte is fixed. -/
def boundShape (limit : Nat) : Shape := { byte := fun _ _ => False, limit }

section Shapes

variable {rows shown : List Row} {row : Row} {limit offset count n i : Nat} {b : UInt8}
    {bytes data : Bytes}

private theorem rowsByte_front (front : shown <+: rows) (fixed : rowsByte shown i b) :
    rowsByte rows i b := by
  obtain ⟨r, j, inside, inSlot, rfl, rfl⟩ := fixed
  obtain ⟨rest, rfl⟩ := front
  refine ⟨r, j, by rw [List.length_append]; omega, inSlot, rfl, ?_⟩
  simp only [List.get_eq_getElem, List.getElem_append_left inside]

private theorem rowsByte_ge (fixed : rowsByte rows i b) : 64 ≤ i := by
  obtain ⟨r, j, _, _, rfl, _⟩ := fixed
  have least := rowOffset_ge r
  omega

theorem rowsByte_lt (fixed : rowsByte rows i b) : i < rowsEnd rows.length := by
  obtain ⟨r, j, inside, inSlot, rfl, _⟩ := fixed
  have last := rowOffset_lt_rowsEnd inside
  omega

theorem countByte_bounds (fixed : countByte count i b) : 24 ≤ i ∧ i < 32 := by
  obtain ⟨j, inside, rfl, _⟩ := fixed
  omega

/-- Another row fixes the bytes of its slot. -/
theorem rowsByte_append (fixed : rowsByte (rows ++ [row]) i b) :
    rowsByte rows i b ∨ ∃ j < 36, i = rowOffset rows.length + j ∧
      b = (storageSerializeRow row).getD j 0 := by
  obtain ⟨r, j, inside, inSlot, rfl, rfl⟩ := fixed
  rw [List.length_append, List.length_singleton] at inside
  by_cases old : r < rows.length
  · refine .inl ⟨r, j, old, inSlot, rfl, ?_⟩
    simp only [List.get_eq_getElem, List.getElem_append_left old]
  · obtain rfl : r = rows.length := by omega
    refine .inr ⟨j, inSlot, rfl, ?_⟩
    simp only [List.get_eq_getElem, List.getElem_concat_length]

@[simp] theorem length_headerBytes (rowCount : UInt64) : (headerBytes rowCount).length = 64 := by
  simp [headerBytes]

/-- A header has its count in place. -/
theorem getD_headerBytes {rowCount : UInt64} (fixed : countByte rowCount.toNat i b) :
    (headerBytes rowCount).getD i 0 = b := by
  obtain ⟨j, inside, rfl, rfl⟩ := fixed
  have front : (putU32Le STORAGE_TABLE_MAGIC ++ putU32Le STORAGE_TABLE_VERSION ++
      putU32Le STORAGE_HEADER_SIZE.toUInt32 ++ putU32Le STORAGE_PAGE_SIZE.toUInt32 ++
      putU32Le STORAGE_ROW_SIZE.toUInt32 ++ putU32Le 0).length = 24 := rfl
  rw [headerBytes, List.append_assoc _ (putU64Le rowCount),
    List.getD_append_right _ _ _ _ (by omega), front,
    Nat.add_sub_cancel_left, List.getD_append _ _ _ _ inside, putU64Le_eq]

/-- What lies behind the rows does not touch them or the header. -/
theorem agrees_behind (behind : rowOffset rows.length ≤ offset)
    (bound : offset + data.length ≤ limit) :
    (countedShape limit rows).Agrees offset data := by
  refine ⟨fun _ => bound, fun i inside b fixed => ?_⟩
  rcases fixed with fixed | fixed
  · have within := rowsByte_lt fixed
    have ends := rowsEnd_le_rowOffset rows.length
    omega
  · have within := countByte_bounds fixed
    have least := rowOffset_ge rows.length
    omega

/-- The rows that a file with such slots shows. -/
theorem tableRows_of_fits (fits : (rowsShape limit rows).Fits bytes) (few : n ≤ rows.length) :
    tableRows bytes n = (rows.take n).map visibleRow := by
  apply List.ext_getElem
  · simp [tableRows, few]
  · intro r left right
    have inside : r < rows.length := by
      have within : r < n := by simpa [tableRows] using left
      omega
    have slot : ∀ j < 36, (slice bytes (rowOffset r) 36).getD j 0 =
        (storageSerializeRow (rows.get ⟨r, inside⟩)).getD j 0 := by
      intro j inSlot
      rw [← fits.byte _ _ ⟨r, j, inside, inSlot, rfl, rfl⟩]
      simp only [slice, List.getD_eq_getElem?_getD, List.getElem?_take_of_lt inSlot,
        List.getElem?_drop]
    simp only [tableRows, List.getElem_map, List.getElem_range, List.getElem_take, rowAt,
      storageDeserializeRow_congr slot, storageDeserializeRow_serialize, List.get_eq_getElem]

/-- The count that a header shows. -/
theorem count_of_fits (fits : ∀ i b, countByte n i b → bytes.getD i 0 = b) (small : n < 2 ^ 64) :
    (headerOf bytes).count.toNat = n := by
  have same : getU64Le (slice bytes 24 8) = getU64Le (putU64Le (.ofNat n)) := by
    refine getU64Le_congr fun j inside => ?_
    rw [putU64Le_eq, toNat_ofNat small, ← fits (24 + j) _ ⟨j, inside, rfl, rfl⟩]
    simp only [slice, List.getD_eq_getElem?_getD, List.getElem?_take_of_lt inside,
      List.getElem?_drop]
  rw [headerOf, same, getU64Le_put, toNat_ofNat small]

end Shapes

/-! ## The invariant -/

/-- The circumstances in which a table is followed. -/
structure Regime where
  /-- What a crash could bring back matters. -/
  crashes : Bool
  /-- A table may be opened for reading although its journal is there. -/
  overlook : Bool
  /-- The length its file may have from elsewhere. -/
  tail : Nat
  /-- The row lists that may be shown. -/
  fine : List Row → Prop

namespace Regime

variable (regime : Regime)

/-- How long a file of so many rows may be. -/
def limit (count : Nat) : Nat := max regime.tail (rowsEnd count)

/-- The shape of a table file up to the row write of an insertion. -/
def before (rows : List Row) : Shape :=
  { byte := fun i b => rowsByte rows i b ∨ regime.overlook = true ∧ countByte rows.length i b
    limit := regime.limit (rows.length + 1) }

/-- The shape of a table file once the new row is durable. -/
def after (rows : List Row) (row : Row) : Shape :=
  rowsShape (regime.limit (rows.length + 1)) (rows ++ [row])

/-- The shapes a table file may have while its journal is there. -/
inductive Phase (rows : List Row) : Shape → Prop where
  | before : Phase rows (regime.before rows)
  | after {row : Row} (fine : regime.fine (rows ++ [row])) : Phase rows (regime.after rows row)

end Regime

variable {regime : Regime} {rows shown : List Row} {n i : Nat} {b : UInt8} {shape : Shape}
    {tableName : Bytes} {w v : World} {kept : Nat} {file journal : File}

theorem limit_mono {m : Nat} (order : n ≤ m) : regime.limit n ≤ regime.limit m := by
  have ends := rowsEnd_mono order
  unfold Regime.limit
  omega

theorem limit_ge (regime : Regime) (n : Nat) : 64 ≤ regime.limit n := by
  have ends : 64 ≤ rowsEnd n := rowsEnd_mono (Nat.zero_le n)
  unfold Regime.limit
  omega

theorem Regime.Phase.limit_eq (phase : regime.Phase rows shape) :
    shape.limit = regime.limit (rows.length + 1) := by
  cases phase <;> rfl

theorem Regime.Phase.byte (phase : regime.Phase rows shape) (fixed : rowsByte rows i b) :
    shape.byte i b := by
  cases phase with
  | before => exact .inl fixed
  | after => exact rowsByte_front (List.prefix_append _ _) fixed

/-- The journals that matter: the one that is there, and those that may come back. -/
def Journal (crashes : Bool) (tableName : Bytes) (w : World) (meaning : Option File) : Prop :=
  meaning = w.file (journalPath tableName) ∨
    meaning ∈ (w.entries (journalPath tableName)).earlier crashes

/-- A table that holds some rows once it is recovered. Of these, `kept` are behind every
journal that may come back. -/
structure TableInv (regime : Regime) (tableName : Bytes) (w : World) (rows : List Row)
    (kept : Nat) : Prop where
  small : rows.length < 2 ^ 64
  fine : regime.fine rows
  acked : kept ≤ rows.length
  /-- Every content of the file has the rows, whatever an insertion has done to it. -/
  phase : ∃ shape, regime.Phase rows shape ∧
    Throughout regime.crashes shape.Fits w (tablePath tableName)
  missing : w.file (tablePath tableName) = none → rows = []
  /-- Only a table that was never filled can be lost or replaced. -/
  earlier : ∀ meaning ∈ (w.entries (tablePath tableName)).earlier regime.crashes, rows = [] ∧
    ∀ file, meaning = some file →
      ∀ content ∈ file.contents regime.crashes, (countedShape 64 []).Fits content
  /-- Every journal is whole and undoes one insertion at most. -/
  journals : ∀ journal, Journal regime.crashes tableName w (some journal) → journal.older = [] ∧
    ∃ count, count ≤ rows.length ∧ rows.length ≤ count + 1 ∧ kept ≤ count ∧
      IsJournal tableName count journal.bytes ∧
      Throughout regime.crashes (boundShape (regime.limit (count + 1))).Fits w (tablePath tableName)
  present : ∀ journal, w.file (journalPath tableName) = some journal →
    IsJournal tableName rows.length journal.bytes
  /-- Where the journal may be missing, the header counts the rows. -/
  counts : Journal regime.crashes tableName w none →
    Throughout regime.crashes (countedShape (regime.limit rows.length) rows).Fits w
      (tablePath tableName)

/-- Every journal that matters undoes the insertion behind so many rows: the table file
may be written. -/
def Armed (crashes : Bool) (tableName : Bytes) (w : World) (count : Nat) : Prop :=
  ∀ meaning, Journal crashes tableName w meaning →
    ∃ journal, meaning = some journal ∧ journal.older = [] ∧ IsJournal tableName count journal.bytes

theorem Journal.of_kept {crashes : Bool} {meaning : Option File}
    (same : Kept (w.entries (journalPath tableName)) (v.entries (journalPath tableName)))
    (journal : Journal crashes tableName v meaning) : Journal crashes tableName w meaning := by
  rcases journal with now | earlier
  · exact .inl (now.trans same.same_file)
  · exact .inr (same.subset earlier)

theorem Armed.of_kept {crashes : Bool} {count : Nat} (armed : Armed crashes tableName w count)
    (same : Kept (w.entries (journalPath tableName)) (v.entries (journalPath tableName))) :
    Armed crashes tableName v count :=
  fun meaning journal => armed meaning (journal.of_kept same)

/-- The invariant is about two names only, and may forget what could come back. -/
theorem TableInv.of_kept (inv : TableInv regime tableName w rows kept)
    (sameTable : Kept (w.entries (tablePath tableName)) (v.entries (tablePath tableName)))
    (sameJournal : Kept (w.entries (journalPath tableName)) (v.entries (journalPath tableName))) :
    TableInv regime tableName v rows kept where
  small := inv.small
  fine := inv.fine
  acked := inv.acked
  phase := by
    obtain ⟨shape, phase, fits⟩ := inv.phase
    exact ⟨shape, phase, fits.congr sameTable.same_file⟩
  missing absent := inv.missing (sameTable.same_file ▸ absent)
  earlier meaning among := inv.earlier meaning (sameTable.subset among)
  journals journal there := by
    obtain ⟨synced, count, most, least, behind, valid, bound⟩ :=
      inv.journals journal (there.of_kept sameJournal)
    exact ⟨synced, count, most, least, behind, valid, bound.congr sameTable.same_file⟩
  present journal there := inv.present journal (sameJournal.same_file ▸ there)
  counts gone := (inv.counts (gone.of_kept sameJournal)).congr sameTable.same_file

/-- While the journal is armed, the table file may change in the shape of a phase. -/
theorem TableInv.write (inv : TableInv regime tableName w rows kept)
    (armed : Armed regime.crashes tableName w rows.length)
    (sameJournal : Kept (w.entries (journalPath tableName)) (v.entries (journalPath tableName)))
    (sameEarlier : (v.entries (tablePath tableName)).before =
      (w.entries (tablePath tableName)).before)
    (there : (v.file (tablePath tableName)).isSome = true) (phase : regime.Phase rows shape)
    (fits : Throughout regime.crashes shape.Fits v (tablePath tableName)) :
    TableInv regime tableName v rows kept where
  small := inv.small
  fine := inv.fine
  acked := inv.acked
  phase := ⟨shape, phase, fits⟩
  missing absent := by
    rw [absent] at there
    cases there
  earlier meaning among := by
    refine inv.earlier meaning ?_
    unfold Entry.earlier at among ⊢
    rwa [sameEarlier] at among
  journals journal there := by
    have before := there.of_kept sameJournal
    obtain ⟨_, same, synced, valid⟩ := armed _ before
    cases same
    obtain ⟨_, count, _, _, behind, valid', _⟩ := inv.journals journal before
    obtain rfl := valid.unique valid'
    refine ⟨synced, _, Nat.le_refl _, Nat.le_succ _, behind, valid, ?_⟩
    exact fits.mono fun bytes fit => fit.weaken (Nat.le_of_eq phase.limit_eq) fun _ _ => False.elim
  present journal there := inv.present journal (sameJournal.same_file ▸ there)
  counts gone := by
    obtain ⟨_, same, _⟩ := armed _ (gone.of_kept sameJournal)
    cases same

/-! ## What keeps the invariant -/

private theorem fits_bound {shape : Shape} {bytes : Bytes} {limit : Nat} (fits : shape.Fits bytes)
    (within : shape.limit ≤ limit) : (boundShape limit).Fits bytes :=
  fits.weaken within fun _ _ => False.elim

/-- No content of a table file is longer than one more row needs. -/
theorem TableInv.bound (inv : TableInv regime tableName w rows kept) :
    Throughout regime.crashes (boundShape (regime.limit (rows.length + 1))).Fits w
      (tablePath tableName) := by
  obtain ⟨shape, phase, fits⟩ := inv.phase
  exact fits.mono fun bytes fit => fits_bound fit (Nat.le_of_eq phase.limit_eq)

/-- Every content of a table file has the bytes of its rows. -/
theorem TableInv.holds (inv : TableInv regime tableName w rows kept) :
    Throughout regime.crashes (rowsShape (regime.limit (rows.length + 1)) rows).Fits w
      (tablePath tableName) := by
  obtain ⟨shape, phase, fits⟩ := inv.phase
  exact fits.mono fun bytes fit => fit.weaken (Nat.le_of_eq phase.limit_eq) fun i b fixed =>
    phase.byte fixed

/-- The shapes that a header with the right count does not spoil. -/
def HeaderKept (count : Nat) (shape : Shape) : Prop :=
  64 ≤ shape.limit ∧ ∀ i b, i < 64 → shape.byte i b → countByte count i b

theorem headerKept_rows {limit : Nat} (room : 64 ≤ limit) : HeaderKept n (rowsShape limit rows) :=
  ⟨room, fun i b front fixed => by have behind := rowsByte_ge fixed; omega⟩

private theorem headerKept_counted {limit : Nat} (room : 64 ≤ limit) :
    HeaderKept rows.length (countedShape limit rows) := by
  refine ⟨room, fun i b front fixed => ?_⟩
  rcases fixed with fixed | fixed
  · have behind := rowsByte_ge fixed
    omega
  · exact fixed

private theorem headerKept_bound {limit : Nat} (room : 64 ≤ limit) :
    HeaderKept n (boundShape limit) :=
  ⟨room, fun _ _ _ => False.elim⟩

private theorem headerKept_phase (phase : regime.Phase rows shape) :
    HeaderKept rows.length shape := by
  have room := limit_ge regime (rows.length + 1)
  cases phase with
  | before =>
    refine ⟨room, fun i b front fixed => ?_⟩
    rcases fixed with fixed | ⟨_, fixed⟩
    · have behind := rowsByte_ge fixed
      omega
    · exact fixed
  | after => exact headerKept_rows room

theorem HeaderKept.agrees {rowCount : UInt64} (kept : HeaderKept rowCount.toNat shape) :
    shape.Agrees 0 (headerBytes rowCount) := by
  have size := length_headerBytes rowCount
  refine ⟨fun _ => by rw [size]; exact kept.1, fun i inside b fixed => ?_⟩
  rw [size] at inside
  rw [Nat.zero_add] at fixed
  exact getD_headerBytes (kept.2 i b inside fixed)

private theorem TableInv.changed_table (inv : TableInv regime tableName w rows kept)
    (sameJournal : Kept (w.entries (journalPath tableName)) (v.entries (journalPath tableName)))
    (sameEarlier : (v.entries (tablePath tableName)).before =
      (w.entries (tablePath tableName)).before)
    (there : (v.file (tablePath tableName)).isSome = true)
    (phase : ∃ shape, regime.Phase rows shape ∧
      Throughout regime.crashes shape.Fits v (tablePath tableName))
    (bounds : ∀ n, rows.length ≤ n →
      Throughout regime.crashes (boundShape (regime.limit n)).Fits w (tablePath tableName) →
      Throughout regime.crashes (boundShape (regime.limit n)).Fits v (tablePath tableName))
    (counts : Throughout regime.crashes (countedShape (regime.limit rows.length) rows).Fits w
      (tablePath tableName) →
      Throughout regime.crashes (countedShape (regime.limit rows.length) rows).Fits v
      (tablePath tableName)) :
    TableInv regime tableName v rows kept where
  small := inv.small
  fine := inv.fine
  acked := inv.acked
  phase := phase
  missing absent := by
    rw [absent] at there
    cases there
  earlier meaning among := by
    refine inv.earlier meaning ?_
    unfold Entry.earlier at among ⊢
    rwa [sameEarlier] at among
  journals journal there := by
    obtain ⟨synced, count, most, least, behind, valid, bound⟩ :=
      inv.journals journal (there.of_kept sameJournal)
    exact ⟨synced, count, most, least, behind, valid, bounds _ least bound⟩
  present journal there := inv.present journal (sameJournal.same_file ▸ there)
  counts gone := counts (inv.counts (gone.of_kept sameJournal))

/-- A change of the table file that keeps what a right header keeps. -/
theorem TableInv.rewrite (inv : TableInv regime tableName w rows kept)
    (sameJournal : Kept (w.entries (journalPath tableName)) (v.entries (journalPath tableName)))
    (sameEarlier : (v.entries (tablePath tableName)).before =
      (w.entries (tablePath tableName)).before)
    (there : (v.file (tablePath tableName)).isSome = true)
    (keeps : ∀ shape, HeaderKept rows.length shape →
      Throughout regime.crashes shape.Fits w (tablePath tableName) →
      Throughout regime.crashes shape.Fits v (tablePath tableName)) :
    TableInv regime tableName v rows kept := by
  refine inv.changed_table sameJournal sameEarlier there ?_ (fun n _ bound => ?_) fun counted => ?_
  · obtain ⟨shape, phase, fits⟩ := inv.phase
    exact ⟨shape, phase, keeps shape (headerKept_phase phase) fits⟩
  · exact keeps _ (headerKept_bound (limit_ge _ _)) bound
  · exact keeps _ (headerKept_counted (limit_ge _ _)) counted

/-- A table file that counts its rows again, and is no longer than it was allowed to be. -/
theorem TableInv.recount (inv : TableInv regime tableName w rows kept)
    (sameJournal : Kept (w.entries (journalPath tableName)) (v.entries (journalPath tableName)))
    (sameEarlier : (v.entries (tablePath tableName)).before =
      (w.entries (tablePath tableName)).before)
    (there : (v.file (tablePath tableName)).isSome = true)
    (counted : ∀ n, rows.length ≤ n →
      Throughout regime.crashes (boundShape (regime.limit n)).Fits w (tablePath tableName) →
      Throughout regime.crashes (countedShape (regime.limit n) rows).Fits v (tablePath tableName)) :
    TableInv regime tableName v rows kept := by
  refine inv.changed_table sameJournal sameEarlier there ?_ (fun n least bound => ?_)
    fun before => ?_
  · refine ⟨_, .before, (counted _ (Nat.le_succ _) inv.bound).mono fun bytes fits => ?_⟩
    exact fits.weaken (Nat.le_refl _) fun i b fixed => fixed.imp id And.right
  · exact (counted _ least bound).mono fun bytes fits => fits_bound fits (Nat.le_refl _)
  · refine counted _ (Nat.le_refl _) (before.mono fun bytes fits => ?_)
    exact fits_bound fits (Nat.le_refl _)

/-- The journal of the next insertion is put in place. -/
theorem TableInv.journaled (inv : TableInv regime tableName w rows kept)
    (sameTable : Kept (w.entries (tablePath tableName)) (v.entries (tablePath tableName)))
    (now : v.file (journalPath tableName) = some journal)
    (before : (v.entries (journalPath tableName)).before =
      w.file (journalPath tableName) :: (w.entries (journalPath tableName)).before)
    (synced : journal.older = []) (valid : IsJournal tableName rows.length journal.bytes) :
    TableInv regime tableName v rows kept := by
  have earlier : ∀ meaning, Journal regime.crashes tableName v meaning →
      meaning = some journal ∨ Journal regime.crashes tableName w meaning := by
    rintro meaning (same | among)
    · exact .inl (same.trans now)
    · unfold Entry.earlier at among
      rw [before] at among
      cases crashing : regime.crashes with
      | false =>
        rw [crashing] at among
        cases among
      | true =>
        rw [crashing] at among
        rcases List.mem_cons.mp among with same | among
        · exact .inr (.inl same)
        · exact .inr (.inr among)
  refine { small := inv.small, fine := inv.fine, acked := inv.acked, phase := ?_, missing := ?_,
           earlier := ?_, journals := ?_, present := ?_, counts := ?_ }
  · obtain ⟨shape, phase, fits⟩ := inv.phase
    exact ⟨shape, phase, fits.congr sameTable.same_file⟩
  · exact fun absent => inv.missing (sameTable.same_file ▸ absent)
  · exact fun meaning among => inv.earlier meaning (sameTable.subset among)
  · intro other there
    rcases earlier _ there with same | old
    · cases same
      exact ⟨synced, rows.length, Nat.le_refl _, Nat.le_succ _, inv.acked, valid,
        inv.bound.congr sameTable.same_file⟩
    · obtain ⟨synced, count, most, least, behind, valid, bound⟩ := inv.journals other old
      exact ⟨synced, count, most, least, behind, valid, bound.congr sameTable.same_file⟩
  · intro other there
    rw [now] at there
    cases there
    exact valid
  · intro gone
    rcases earlier _ gone with same | old
    · cases same
    · exact (inv.counts old).congr sameTable.same_file

/-- An armed journal stays armed when it is replaced by one for the same insertion. -/
theorem Armed.journaled {crashes : Bool} (armed : Armed crashes tableName w n)
    (now : v.file (journalPath tableName) = some journal)
    (before : (v.entries (journalPath tableName)).before =
      w.file (journalPath tableName) :: (w.entries (journalPath tableName)).before)
    (synced : journal.older = []) (valid : IsJournal tableName n journal.bytes) :
    Armed crashes tableName v n := by
  rintro meaning (same | among)
  · exact ⟨journal, same.trans now, synced, valid⟩
  · unfold Entry.earlier at among
    rw [before] at among
    cases crashes with
    | false => cases among
    | true =>
      rcases List.mem_cons.mp among with same | among
      · exact armed _ (.inl same)
      · exact armed _ (.inr among)

/-- A journal goes away: what it undid stands, if the header counts it. -/
theorem Journal.unlinked {crashes : Bool} {meaning : Option File}
    (now : v.file (journalPath tableName) = none)
    (before : (v.entries (journalPath tableName)).before =
      w.file (journalPath tableName) :: (w.entries (journalPath tableName)).before)
    (journal : Journal crashes tableName v meaning) :
    meaning = none ∨ Journal crashes tableName w meaning := by
  rcases journal with same | among
  · exact .inl (same.trans now)
  · unfold Entry.earlier at among
    rw [before] at among
    cases crashes with
    | false => cases among
    | true =>
      rcases List.mem_cons.mp among with same | among
      · exact .inr (.inl same)
      · exact .inr (.inr among)

/-- An insertion takes effect when its journal is removed. -/
theorem TableInv.commit (inv : TableInv regime tableName w rows kept)
    (armed : Armed regime.crashes tableName w rows.length)
    (settled : (w.entries (tablePath tableName)).earlier regime.crashes = [])
    (there : (w.file (tablePath tableName)).isSome = true) (fine : regime.fine (rows ++ [row]))
    (small : (rows ++ [row]).length < 2 ^ 64)
    (fits : Throughout regime.crashes
      (countedShape (regime.limit (rows ++ [row]).length) (rows ++ [row])).Fits w
      (tablePath tableName))
    (sameTable : Kept (w.entries (tablePath tableName)) (v.entries (tablePath tableName)))
    (now : v.file (journalPath tableName) = none)
    (before : (v.entries (journalPath tableName)).before =
      w.file (journalPath tableName) :: (w.entries (journalPath tableName)).before) :
    TableInv regime tableName v (rows ++ [row]) kept := by
  have length : (rows ++ [row]).length = rows.length + 1 := List.length_append
  have counted := fits.congr sameTable.same_file
  refine { small, fine, acked := ?_, phase := ?_, missing := ?_, earlier := ?_, journals := ?_,
           present := ?_, counts := fun _ => counted }
  · have acked := inv.acked
    omega
  · refine ⟨_, .before, counted.mono fun bytes fits => ?_⟩
    exact fits.weaken (limit_mono (Nat.le_succ _)) fun i b fixed => fixed.imp id And.right
  · intro absent
    rw [sameTable.same_file.symm.trans absent] at there
    cases there
  · intro meaning among
    have old := sameTable.subset among
    rw [settled] at old
    cases old
  · intro journal journaled
    obtain ⟨_, same, synced, valid⟩ := armed _ ((journaled.unlinked now before).resolve_left nofun)
    cases same
    refine ⟨synced, rows.length, by omega, by omega, inv.acked, valid,
      counted.mono fun bytes fits => ?_⟩
    exact fits_bound fits (by rw [length]; exact Nat.le_refl _)
  · intro journal there
    rw [now] at there
    cases there

/-- Recovery ends when the journal is removed. -/
theorem TableInv.recovered (inv : TableInv regime tableName w rows kept)
    (fits : Throughout regime.crashes (countedShape (regime.limit rows.length) rows).Fits w
      (tablePath tableName))
    (sameTable : Kept (w.entries (tablePath tableName)) (v.entries (tablePath tableName)))
    (now : v.file (journalPath tableName) = none)
    (before : (v.entries (journalPath tableName)).before =
      w.file (journalPath tableName) :: (w.entries (journalPath tableName)).before) :
    TableInv regime tableName v rows kept := by
  refine { small := inv.small, fine := inv.fine, acked := inv.acked, phase := ?_, missing := ?_,
           earlier := ?_, journals := ?_, present := ?_, counts := fun _ => fits.congr sameTable.same_file }
  · obtain ⟨shape, phase, fits⟩ := inv.phase
    exact ⟨shape, phase, fits.congr sameTable.same_file⟩
  · exact fun absent => inv.missing (sameTable.same_file ▸ absent)
  · exact fun meaning among => inv.earlier meaning (sameTable.subset among)
  · intro journal journaled
    obtain ⟨synced, count, most, least, behind, valid, bound⟩ :=
      inv.journals journal ((journaled.unlinked now before).resolve_left nofun)
    exact ⟨synced, count, most, least, behind, valid, bound.congr sameTable.same_file⟩
  · intro journal there
    rw [now] at there
    cases there

/-- Without a journal that could come back, every row is kept. -/
theorem TableInv.settled (inv : TableInv regime tableName w rows kept)
    (none_left : ∀ journal, ¬ Journal regime.crashes tableName w (some journal)) :
    TableInv regime tableName w rows rows.length :=
  { inv with
    acked := Nat.le_refl _
    journals := fun journal there => absurd there (none_left journal) }

/-! ## Creation -/

private theorem counted_weaken {limit : Nat} (room : 64 ≤ limit) {bytes : Bytes}
    (fits : (countedShape 64 []).Fits bytes) : (countedShape limit []).Fits bytes :=
  fits.weaken room fun _ _ fixed => fixed

/-- A name that stood for no table stands for a file without rows. -/
theorem TableInv.blank (inv : TableInv regime tableName w [] kept)
    (fits : Throughout regime.crashes (countedShape 64 []).Fits v (tablePath tableName))
    (earlier : ∀ meaning ∈ (v.entries (tablePath tableName)).before,
      (∀ file, meaning = some file →
        ∀ content ∈ file.contents regime.crashes, (countedShape 64 []).Fits content) ∨
        meaning ∈ (w.entries (tablePath tableName)).before)
    (sameJournal : Kept (w.entries (journalPath tableName)) (v.entries (journalPath tableName))) :
    TableInv regime tableName v [] kept := by
  have bounds : ∀ n, Throughout regime.crashes (boundShape (regime.limit n)).Fits v
      (tablePath tableName) :=
    fun n => fits.mono fun bytes fits => fits_bound fits (limit_ge _ _)
  refine { small := inv.small, fine := inv.fine, acked := inv.acked, phase := ?_,
           missing := fun _ => rfl, earlier := ?_, journals := ?_, present := ?_, counts := ?_ }
  · refine ⟨_, .before, fits.mono fun bytes fits => ?_⟩
    exact fits.weaken (limit_ge _ _) fun i b fixed => fixed.imp id And.right
  · intro meaning among
    cases crashing : regime.crashes with
    | false =>
      rw [crashing] at among
      cases among
    | true =>
      rw [crashing] at among
      rcases earlier meaning among with blank | old
      · rw [← crashing]
        exact ⟨rfl, blank⟩
      · have before := inv.earlier meaning
        rw [crashing] at before
        exact before old
  · intro journal there
    obtain ⟨synced, count, most, least, behind, valid, _⟩ :=
      inv.journals journal (there.of_kept sameJournal)
    exact ⟨synced, count, most, least, behind, valid, bounds _⟩
  · exact fun journal there => inv.present journal (sameJournal.same_file ▸ there)
  · exact fun _ => fits.mono fun bytes fits => counted_weaken (limit_ge _ _) fits

/-- No table and no journal, nor any that could come back. -/
theorem tableInv_absent (fine : regime.fine []) (noTable : w.file (tablePath tableName) = none)
    (noJournal : w.file (journalPath tableName) = none)
    (settled : (w.entries (tablePath tableName)).earlier regime.crashes = [])
    (settled' : (w.entries (journalPath tableName)).earlier regime.crashes = []) :
    TableInv regime tableName w [] 0 := by
  have nothing : ∀ P, Throughout regime.crashes P w (tablePath tableName) := by
    intro P file found
    rw [noTable] at found
    cases found
  have none_left : ∀ journal, ¬ Journal regime.crashes tableName w (some journal) := by
    rintro journal (now | earlier)
    · rw [noJournal] at now
      cases now
    · rw [settled'] at earlier
      cases earlier
  refine { small := by decide, fine, acked := Nat.le_refl _, phase := ⟨_, .before, nothing _⟩,
           missing := fun _ => rfl, earlier := fun meaning among => ?_,
           journals := fun journal there => absurd there (none_left journal),
           present := fun journal there => absurd (.inl there.symm) (none_left journal),
           counts := fun _ => nothing _ }
  rw [settled] at among
  cases among

/-! ## Crashes -/

private theorem crash_file (inv : TableInv regime tableName w rows kept)
    (crashing : regime.crashes = true) (crash : Crash w v)
    (left : v.file (tablePath tableName) = some file) :
    (∀ shape : Shape, Throughout regime.crashes shape.Fits w (tablePath tableName) →
        Throughout regime.crashes shape.Fits v (tablePath tableName)) ∨
      rows = [] ∧ Throughout regime.crashes (countedShape 64 []).Fits v (tablePath tableName) := by
  -- What a crash leaves of a table file has every shape it had, or never had a row.
  obtain ⟨_, ⟨gone, _⟩ | ⟨origin, torn_file, possible, there, synced, torn⟩⟩ :=
    crash.entry (tablePath tableName)
  · rw [left] at gone
    cases gone
  · rw [left, Option.some.injEq] at there
    subst there
    have contents : origin.contents regime.crashes = origin.bytes :: origin.older := by
      simp [File.contents, crashing]
    rcases List.mem_cons.mp possible with now | before
    · refine .inl fun shape fits => throughout_synced left synced ?_
      exact Shape.Fits.torn
        (fun content among => fits origin now.symm content (contents ▸ among)) torn
    · obtain ⟨empty, blank⟩ :=
        inv.earlier (some origin) (by simpa [Entry.earlier, crashing] using before)
      refine .inr ⟨empty, throughout_synced left synced ?_⟩
      exact Shape.Fits.torn (fun content among => blank origin rfl content (contents ▸ among)) torn

private theorem crash_absent (inv : TableInv regime tableName w rows kept)
    (crashing : regime.crashes = true) (crash : Crash w v)
    (gone : v.file (tablePath tableName) = none) :
    rows = [] := by
  obtain ⟨_, ⟨_, possible⟩ | ⟨_, left, _, there, _⟩⟩ := crash.entry (tablePath tableName)
  · rcases List.mem_cons.mp possible with now | before
    · exact inv.missing now.symm
    · exact (inv.earlier none (by simpa [Entry.earlier, crashing] using before)).1
  · rw [gone] at there
    cases there

private theorem none_earlier {entry : Entry} (settled : entry.before = []) (crashes : Bool)
    (meaning : Option File) :
    ¬ meaning ∈ entry.earlier crashes := by
  unfold Entry.earlier
  rw [settled]
  split <;> exact List.not_mem_nil

/-- After a crash the table holds the rows it held, or those in front of a journal that
came back: never fewer than were kept. -/
theorem TableInv.crashed (inv : TableInv regime tableName w rows kept)
    (crashing : regime.crashes = true)
    (finer : ∀ rows n, regime.fine rows → regime.fine (rows.take n)) (crash : Crash w v) :
    ∃ n, kept ≤ n ∧ n ≤ rows.length ∧ TableInv regime tableName v (rows.take n) kept := by
  have settled := (crash.entry (tablePath tableName)).1
  obtain ⟨settled', journal⟩ := crash.entry (journalPath tableName)
  have possible : ∀ meaning, meaning ∈ w.file (journalPath tableName) ::
    (w.entries (journalPath tableName)).before →
      Journal regime.crashes tableName w meaning := by
    intro meaning among
    rcases List.mem_cons.mp among with now | before
    · exact .inl now
    · exact .inr (by simpa [Entry.earlier, crashing] using before)
  -- whatever is left of the file, it fits every shape that the file had and that a blank file has
  have survives : ∀ shape :
      Shape, (rows = [] → ∀ bytes, (countedShape 64 []).Fits bytes → shape.Fits bytes) →
      Throughout regime.crashes shape.Fits w (tablePath tableName) →
      Throughout regime.crashes shape.Fits v (tablePath tableName) := by
    intro shape blank fits
    cases left : v.file (tablePath tableName) with
    | none =>
      intro file found
      rw [left] at found
      cases found
    | some file =>
      rcases crash_file inv crashing crash left with same | ⟨empty, was⟩
      · exact same shape fits
      · exact was.mono (blank empty)
  have bound : ∀ n, Throughout regime.crashes (boundShape (regime.limit n)).Fits w
      (tablePath tableName) →
      Throughout regime.crashes (boundShape (regime.limit n)).Fits v (tablePath tableName) :=
    fun n => survives _ fun _ bytes fits => fits_bound fits (limit_ge _ _)
  rcases journal with ⟨gone, among⟩ | ⟨origin, left, among, there, synced, torn⟩
  · -- without a journal the rows stand
    refine ⟨rows.length, inv.acked, Nat.le_refl _, ?_⟩
    rw [List.take_length]
    have counts := survives (countedShape (regime.limit rows.length) rows)
      (fun empty bytes fits => by
        subst empty
        exact counted_weaken (limit_ge _ _) fits) (inv.counts (possible _ among))
    refine { small := inv.small, fine := inv.fine, acked := inv.acked, phase := ?_, missing := ?_,
             earlier := ?_, journals := ?_, present := ?_, counts := fun _ => counts }
    · refine ⟨_, .before, counts.mono fun bytes fits => ?_⟩
      exact fits.weaken (limit_mono (Nat.le_succ _)) fun i b fixed => fixed.imp id And.right
    · exact crash_absent inv crashing crash
    · exact fun meaning among => absurd among (none_earlier settled _ _)
    · rintro journal (now | earlier)
      · rw [gone] at now
        cases now
      · exact absurd earlier (none_earlier settled' _ _)
    · intro journal there
      rw [gone] at there
      cases there
  · -- a journal rolls the table back to its count
    obtain ⟨synced', count, most, least, behind, valid, within⟩ :=
      inv.journals origin (possible _ among)
    have same : left.bytes = origin.bytes := torn.synced synced'
    have length : (rows.take count).length = count := by
      rw [List.length_take]
      omega
    refine ⟨count, behind, most, ?_⟩
    refine { small := ?_, fine := finer _ _ inv.fine, acked := by omega, phase := ?_, missing := ?_,
             earlier := ?_, journals := ?_, present := ?_, counts := ?_ }
    · have small := inv.small
      omega
    · by_cases all : count = rows.length
      · subst all
        rw [List.take_length]
        obtain ⟨shape, phase, fits⟩ := inv.phase
        cases left : v.file (tablePath tableName) with
        | none =>
          refine ⟨_, .before, fun file found => ?_⟩
          rw [left] at found
          cases found
        | some file =>
          rcases crash_file inv crashing crash left with same | ⟨empty, was⟩
          · exact ⟨shape, phase, same shape fits⟩
          · subst empty
            refine ⟨_, .before, was.mono fun bytes fits => ?_⟩
            exact fits.weaken (limit_ge _ _) fun i b fixed => fixed.imp id And.right
      · -- the last row is the one whose insertion is undone
        have last : count + 1 = rows.length := by omega
        have inside : count < rows.length := by omega
        have again : rows.take count ++ [rows.get ⟨count, inside⟩] = rows := by
          rw [List.get_eq_getElem, List.take_append_getElem, last, List.take_length]
        refine ⟨regime.after (rows.take count) (rows.get ⟨count, inside⟩),
          .after (by rw [again]; exact inv.fine), ?_⟩
        have bounded := bound _ within
        have holds := survives (rowsShape (regime.limit (rows.length + 1)) rows)
          (fun empty => by
            subst empty
            cases inside) inv.holds
        intro file found content among
        refine ⟨?_, ?_⟩
        · have length' := (bounded file found content among).length
          rwa [Regime.after, again, rowsShape, length]
        · rw [Regime.after, again]
          exact (holds file found content among).byte
    · intro gone
      rw [crash_absent inv crashing crash gone, List.take_nil]
    · exact fun meaning among => absurd among (none_earlier settled _ _)
    · rintro journal (now | earlier)
      · rw [there, Option.some.injEq] at now
        subst now
        refine ⟨synced, count, by omega, by omega, behind, ?_, bound _ within⟩
        rwa [same]
      · exact absurd earlier (none_earlier settled' _ _)
    · intro journal now
      rw [there, Option.some.injEq] at now
      subst now
      rwa [same, length]
    · rintro (now | earlier)
      · rw [there] at now
        cases now
      · exact absurd earlier (none_earlier settled' _ _)

end SqlEngine
