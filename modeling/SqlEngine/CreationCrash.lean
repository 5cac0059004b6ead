import SqlEngine.Library.Replay
import SqlEngine.TableRecovery

/-! A crash while a table is created. The header is written under the final name, so what
is left of the name is usable exactly if the crash leaves no file, or its whole header. -/
namespace SqlEngine

open Library Program World Posix

variable {faults : Faults} {tableName : Bytes} {w u v x : World} {file : File} {bytes : Bytes}

/-- A start after a crash finds an empty table under a name, or none, and then the name can
be used. -/
structure NameUsable (tableName : Bytes) (w : World) : Prop where
  opens : ∃ result v, Returns (Steps .none) (storageOpenTable tableName) w result v
  usable : ∀ result v, Returns (Steps .none) (storageOpenTable tableName) w result v →
    (∃ table, result = .ok table ∧ table.rowCount = 0) ∨
      result = .error .notFound ∧ ∃ x, Returns (Steps .none) (storageCreateTable tableName) v .ok x

/-! ## The header that is left -/

private theorem word_same {other : Bytes} {k : Nat}
    (same : getU32Le (slice bytes k 4) = getU32Le (slice other k 4)) {i : Nat} (inside : i < 4) :
    bytes.getD (k + i) 0 = other.getD (k + i) 0 := by
  have part : ∀ content : Bytes, (slice content k 4).getD i 0 = content.getD (k + i) 0 :=
    fun content => by
    simp only [slice, List.getD_eq_getElem?_getD, List.getElem?_take_of_lt inside,
      List.getElem?_drop]
  have equal := getU32Le_inj same i inside
  rwa [part, part] at equal

private theorem headerBytes_of_accepted {count : UInt64} (blank : blankShape.Fits bytes)
    (accepted : acceptedCount bytes = .ok count) : bytes = headerBytes 0 := by
  obtain ⟨long, current, _⟩ := acceptedCount_iff.mp accepted
  obtain ⟨current', _⟩ := headerOf_headerBytes 0 []
  rw [List.append_nil] at current'
  have length : bytes.length = (headerBytes 0).length := by
    have short := blank.length
    rw [length_headerBytes]
    exact Nat.le_antisymm short long
  have zero : ∀ i < 64, 20 ≤ i → (headerBytes 0).getD i 0 = 0 := by decide
  have same : ∀ i < 64, bytes.getD i 0 = (headerBytes 0).getD i 0 := by
    intro i inside
    by_cases behind : 20 ≤ i
    · rw [zero i inside behind]
      exact blank.byte i 0 ⟨behind, rfl⟩
    · obtain ⟨k, j, rfl, within, rfl | rfl | rfl | rfl | rfl⟩ :
          ∃ k j, i = k + j ∧ j < 4 ∧ (k = 0 ∨ k = 4 ∨ k = 8 ∨ k = 12 ∨ k = 16) :=
        ⟨4 * (i / 4), i % 4, by omega, by omega, by omega⟩
      · exact word_same (current.magic.trans current'.magic.symm) within
      · exact word_same (current.version.trans current'.version.symm) within
      · exact word_same (current.headerSize.trans current'.headerSize.symm) within
      · exact word_same (current.pageSize.trans current'.pageSize.symm) within
      · exact word_same (current.rowSize.trans current'.rowSize.symm) within
  apply List.ext_getElem length
  intro i left right
  have equal := same i (by rwa [length_headerBytes] at right)
  rwa [List.getD_eq_getElem _ _ left, List.getD_eq_getElem _ _ right] at equal

private theorem refusal_known {status : TableStatus}
    (refused : acceptedCount bytes = .error status) :
    status ≠ .notFound := by
  rintro rfl
  unfold acceptedCount validateHeader at refused
  repeat' split at refused
  all_goals cases refused

/-! ## Behind the crash -/

/-- Rows are never shown here. -/
private def emptyRegime : Regime :=
  { crashes := true, overlook := false, tail := 0, fine := fun _ => True }

private theorem creation_crashed (valid : storageValidTableName tableName = true)
    (noTable : w.entries (tablePath tableName) = { now := none, before := [] })
    (noJournal : w.entries (journalPath tableName) = { now := none, before := [] })
    (stopped : Stops (Steps .any) (storageCreateTable tableName) w v) (crash : Crash v u) :
    TableInv emptyRegime tableName u [] 0 ∧ u.file (journalPath tableName) = none ∧
      ∀ file, u.file (tablePath tableName) = some file → blankShape.Fits file.bytes := by
  -- What a crash leaves of a name that was not in use: no journal, and no file or one that
  -- never held a row.
  have absent : TableInv emptyRegime tableName w [] 0 :=
    tableInv_absent trivial (congrArg Entry.now noTable) (congrArg Entry.now noJournal)
      (congrArg Entry.before noTable)
      (congrArg Entry.before noJournal)
  have stop := wp_stops (storageCreateTable_makes valid) stopped
  obtain ⟨n, _, _, inv⟩ := (stop.within absent).inv.crashed rfl (fun _ _ _ => trivial) crash
  rw [List.take_nil] at inv
  have free : w.file (tablePath tableName) = none := congrArg Entry.now noTable
  have making : Blank (v.file (tablePath tableName)) ∧
      (∀ meaning ∈ (v.entries (tablePath tableName)).before, Blank meaning) ∧
      Kept (w.entries (journalPath tableName)) (v.entries (journalPath tableName)) := by
    rcases stop with rfl | ⟨_, making⟩
    · refine ⟨by rw [free]; nofun, ?_, .refl _⟩
      rw [noTable]
      nofun
    · refine ⟨making.now, fun meaning among => (making.before meaning among).resolve_right ?_,
        making.others _ (journalPath_ne_tablePath tableName)⟩
      rw [noTable]
      exact List.not_mem_nil
  obtain ⟨now, before, kept⟩ := making
  refine ⟨inv, ?_, fun file found => ?_⟩
  · rcases (crash.entry (journalPath tableName)).2 with ⟨gone, _⟩ | ⟨origin, _, among, _⟩
    · exact gone
    · rw [kept.same_file, World.file, noJournal] at among
      rcases List.mem_cons.mp among with same | old
      · cases same
      · have was := kept.earlier _ old
        rw [noJournal] at was
        cases was
  · rcases (crash.entry (tablePath tableName)).2 with
        ⟨gone, _⟩ | ⟨origin, left, among, there, _, torn⟩
    · rw [gone] at found
      cases found
    · rw [found, Option.some.injEq] at there
      subst there
      have blank : Blank (some origin) := by
        rcases List.mem_cons.mp among with same | old
        · exact same ▸ now
        · exact before _ old
      exact Shape.Fits.torn (blank origin rfl) torn

private theorem storageCreateTable_free (valid : storageValidTableName tableName = true)
    (gone : w.file (tablePath tableName) = none) (settled : w.file (journalPath tableName) = none) :
    ∃ x, Returns (Steps .none) (storageCreateTable tableName) w .ok x := by
  have creates : wp (Steps .none) _ (storageCreateTable tableName) _ w :=
    storageCreateTable_makes valid
  obtain ⟨status, x, ran⟩ := wp_progress creates
  obtain ⟨_, ends⟩ := wp_returns creates ran
  have failed : ¬ (x = w ∧ (w.file (tablePath tableName)).isSome = true ∨ Faults.none.calls = true ∨
      (w.file (journalPath tableName)).isSome = true) := by
    rw [gone, settled]
    rintro (⟨_, there⟩ | calls | there)
    · cases there
    · cases calls
    · cases there
  cases status with
  | ok => exact ⟨x, ran⟩
  | _ => exact absurd ends failed

private theorem usable_of_whole (valid : storageValidTableName tableName = true)
    (inv : TableInv emptyRegime tableName u [] 0) (settled : u.file (journalPath tableName) = none)
    (whole : ∀ file, u.file (tablePath tableName) = some file → file.bytes = headerBytes 0) :
    NameUsable tableName u := by
  have opens : wp (Steps .none) _ (storageOpenTable tableName) _ u :=
    storageOpenTable_spec valid inv
  refine ⟨wp_progress opens, fun result x ran => ?_⟩
  cases left : u.file (tablePath tableName) with
  | none =>
    obtain ⟨_, rfl, ⟨calls, _⟩ | rfl⟩ := wp_returns (storageOpenTable_absent valid left) ran
    · cases calls
    · exact .inr ⟨rfl, storageCreateTable_free valid left settled⟩
  | some file =>
    obtain ⟨_, _, opened⟩ := wp_returns opens ran
    cases result with
    | ok table => exact .inl ⟨table, rfl, UInt64.toNat_inj.mp opened.2.1⟩
    | error status =>
      rcases opened with calls | ⟨_, gone⟩ | ⟨same, other, there, refused⟩
      · cases calls
      · rw [left] at gone
        cases gone
      · rw [file_congr (same settled), left, Option.some.injEq] at there
        subst there
        rw [whole file left, acceptedCount_blank] at refused
        cases refused

/-- After a crash anywhere in a creation, the name is usable if and only if the crash left
no file under it, or one with all bytes of its header. -/
theorem creation_crash_iff (valid : storageValidTableName tableName = true)
    (noTable : w.entries (tablePath tableName) = { now := none, before := [] })
    (noJournal : w.entries (journalPath tableName) = { now := none, before := [] })
    (stopped : Stops (Steps .any) (storageCreateTable tableName) w v) (crash : Crash v u) :
    NameUsable tableName u ↔ ∀ file, u.file (tablePath tableName) = some file →
      file.bytes = headerBytes 0 := by
  obtain ⟨inv, settled, blank⟩ := creation_crashed valid noTable noJournal stopped crash
  have opens : wp (Steps .none) _ (storageOpenTable tableName) _ u :=
    storageOpenTable_spec valid inv
  constructor
  · intro usable file found
    obtain ⟨result, x, ran⟩ := usable.opens
    obtain ⟨_, _, opened⟩ := wp_returns opens ran
    rcases usable.usable result x ran with ⟨table, rfl, empty⟩ | ⟨rfl, _⟩
    · obtain ⟨_, _, _, _, same, ⟨other, there, accepted⟩, _⟩ := opened
      rw [file_congr (same settled), found, Option.some.injEq] at there
      subst there
      exact headerBytes_of_accepted (blank file found) accepted
    · rcases opened with calls | ⟨_, gone⟩ | ⟨_, other, _, refused⟩
      · cases calls
      · rw [found] at gone
        cases gone
      · exact absurd rfl (refusal_known refused)
  · exact usable_of_whole valid inv settled

/-- The name is usable behind every crash before the table's file is opened, and behind
every one after its header has been synced. -/
theorem creation_crash_usable (valid : storageValidTableName tableName = true)
    (noTable : w.entries (tablePath tableName) = { now := none, before := [] })
    (noJournal : w.entries (journalPath tableName) = { now := none, before := [] })
    (stopped : Stops (Steps .any) (storageCreateTable tableName) w v) (crash : Crash v u)
    (synced : ∀ file, some file ∈ (v.entries (tablePath tableName)).now ::
      (v.entries (tablePath tableName)).before →
      file.bytes = headerBytes 0 ∧ file.older = []) : NameUsable tableName u := by
  obtain ⟨inv, settled, _⟩ := creation_crashed valid noTable noJournal stopped crash
  refine usable_of_whole valid inv settled fun file found => ?_
  rcases (crash.entry (tablePath tableName)).2 with
      ⟨gone, _⟩ | ⟨origin, left, among, there, _, torn⟩
  · rw [gone] at found
    cases found
  · rw [found, Option.some.injEq] at there
    subst there
    obtain ⟨whole, settled⟩ := synced origin among
    exact (torn.synced settled).trans whole

/-- Creation is stopped behind its first call. -/
private def nameTaken : World := stoppedAt .any (storageCreateTable (str "t")) [{}] World.empty

/-- The name is lost with the file. -/
private def nameLost : World :=
  revert (fun path => if path = tablePath (str "t") then 1 else 0) nameTaken

/-- The empty file survives. -/
private def nameKept : World := revert (fun _ => 0) nameTaken

private def nameRefused : World := replayed .none (storageOpenTable (str "t")) [] nameKept

/-- A name that is lost in a crash can be created again. -/
theorem creation_crash_lost : NameUsable (str "t") nameLost := by
  have gone : nameLost.file (tablePath (str "t")) = none := by decide +kernel
  have none_left : ∀ file, nameLost.file (tablePath (str "t")) = some file →
      file.bytes = headerBytes 0 := by
    rw [gone]
    nofun
  exact (creation_crash_iff (by decide) rfl rfl stoppedAt_stops (crash_revert _ _)).mpr none_left

/-- A name whose empty file survives a crash: opening says that the file is incompatible,
and creation that the table exists. -/
theorem creation_crash_headerless :
    ∃ v u x y, Stops (Steps .any) (storageCreateTable (str "t")) World.empty v ∧ Crash v u ∧
      Returns (Steps .none) (storageOpenTable (str "t")) u (.error .incompatible) x ∧
      Returns (Steps .none) (storageCreateTable (str "t")) x .alreadyExists y ∧
        ¬ NameUsable (str "t") u := by
  have opened : Returns (Steps .none) (storageOpenTable (str "t")) nameKept
      (.error .incompatible) nameRefused :=
    replayed_returns (by decide +kernel)
  have again : Returns (Steps .none) (storageCreateTable (str "t")) nameRefused .alreadyExists
      (replayed .none (storageCreateTable (str "t")) [] nameRefused) :=
        replayed_returns (by decide +kernel)
  refine ⟨nameTaken, nameKept, nameRefused, _, stoppedAt_stops, crash_revert _ _, opened, again,
    fun usable => ?_⟩
  rcases usable.usable _ _ opened with ⟨_, wrong, _⟩ | ⟨wrong, _⟩
  · cases wrong
  · cases wrong

end SqlEngine
