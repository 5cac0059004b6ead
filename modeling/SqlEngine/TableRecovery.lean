import SqlEngine.TableCreation
import SqlEngine.TableWrites

/-! Recovery, opening for writing, creation and closing keep the invariant of a table,
wherever they are stopped. -/
namespace SqlEngine

open Library Program World Posix

variable {faults : Faults} {regime : Regime} {rows : List Row} {kept : Nat} {w u v x : World}
    {table : Table}
  {tableName : Bytes} {h : Nat} {file : File}

/-! ## Recovery -/

/-- What recovery keeps, and what it leaves alone. -/
structure Recovering (regime : Regime) (tableName : Bytes) (rows : List Row) (kept h : Nat)
    (w v : World) : Prop where
  frame : KeptBut (tablePath tableName) w v
  inv : TableInv regime tableName v rows kept
  output : v.output = w.output
  next : w.next ≤ v.next
  streams : ∀ g < w.next, g ≠ h → v.streams g = w.streams g
  there : (v.file (tablePath tableName)).isSome = true
  fresh : ∀ path, path ≠ tablePath tableName → w.file path = none → v.file path = none

/-- The handle on the table file buffers nothing but a header with the right count. -/
def HeaderHeld (tableName : Bytes) (count h : Nat) (v : World) : Prop :=
  ∃ position pending, v.streams h = some { path := tablePath tableName, position, pending } ∧
    ∀ shape, HeaderKept count shape → shape.Agrees position pending

/-- What recovery comes to. -/
def Recovered (faults : Faults) (regime : Regime) (tableName : Bytes) (rows : List Row)
    (kept h : Nat) (w : World)
    (result : Except TableStatus Unit) (v : World) : Prop :=
  Recovering regime tableName rows kept h w v ∧ match result with
    | .ok () => v.file (journalPath tableName) = none ∧
        (w.file (journalPath tableName) = none → v = w) ∧
        ∃ position, v.streams h = some { path := tablePath tableName, position, pending := [] }
    | .error _ => faults.calls = true ∧ HeaderHeld tableName rows.length h v

private theorem Recovering.writes (recovering : Recovering regime tableName rows kept h w u)
    (writes : Writes regime.crashes (HeaderKept rows.length) (tablePath tableName) h u x) :
    Recovering regime tableName rows kept h w x ∧ HeaderHeld tableName rows.length h x := by
  refine ⟨⟨?_, ?_, writes.output.trans recovering.output, writes.next ▸ recovering.next, ?_,
    writes.there, ?_⟩,
    writes.stream⟩
  · exact recovering.frame.trans fun path outside => writes.kept fun eq =>
      outside (eq ▸ List.prefix_refl _)
  · exact recovering.inv.rewrite
      (writes.kept (journalPath_ne_tablePath _)) writes.before writes.there writes.fits
  · exact fun g below ne => (writes.streams g ne).trans (recovering.streams g below ne)
  · intro path ne gone
    rw [World.file, writes.entries path ne]
    exact recovering.fresh path ne gone

private theorem recover_unlink {position : Nat} (parts : NameParts tableName)
    (recovering : Recovering regime tableName rows kept h w x)
    (there : (x.file (journalPath tableName)).isSome = true)
    (was : (w.file (journalPath tableName)).isSome = true)
    (stream : x.streams h = some
      { path := tablePath tableName, position := position, pending := [] })
    (fits : Throughout regime.crashes (countedShape (regime.limit rows.length) rows).Fits x
      (tablePath tableName)) :
    wp (Steps faults) (Recovering regime tableName rows kept h w) (do
      match ← unlink (journalPath tableName) with
      | .error _ => return .error .durabilityError
      | .ok () =>
        if !(← utilSyncParentDirectory (journalPath tableName)) then return .error .durabilityError
        return .ok ())
      (Recovered faults regime tableName rows kept h w) x := by
  -- The journal is removed once the table is as long as its count says.
  have apart := journalPath_ne_tablePath tableName
  have behind := tablePath_prefix_journalPath tableName
  have sameTable : (x.rebind (journalPath tableName) none).entries (tablePath tableName) =
      x.entries (tablePath tableName) := entries_rebind_ne (Ne.symm apart) _
  have now : (x.rebind (journalPath tableName) none).file (journalPath tableName) = none :=
    file_rebind ..
  have held : ∀ y, y.streams = x.streams → HeaderHeld tableName rows.length h y := fun y same =>
    ⟨position, [], by rw [same, stream], fun _ _ => Shape.agrees_nil⟩
  have settled : ∀ {P : Prop}, w.file (journalPath tableName) = none → P := by
    intro P gone
    rw [gone] at was
    cases was
  have removed : Recovering regime tableName rows kept h w
      (x.rebind (journalPath tableName) none) := by
    refine ⟨?_, recovering.inv.recovered fits (Kept.of_eq sameTable) now
      (congrArg Entry.before (entries_rebind ..)),
      recovering.output, recovering.next, recovering.streams, ?_, ?_⟩
    · exact recovering.frame.trans fun path outside =>
        Kept.of_eq (entries_rebind_ne (fun eq => outside (by rwa [eq])) _)
    · rw [World.file, sameTable]
      exact recovering.there
    · intro path ne gone
      by_cases journal : path = journalPath tableName
      · rw [journal, now]
      · rw [World.file, entries_rebind_ne journal]
        exact recovering.fresh path ne gone
  have synced : Recovering regime tableName rows kept h w
      (x.rebind (journalPath tableName) none).syncDirectory :=
    ⟨removed.frame.trans fun path _ => syncDirectory_kept _ path,
      removed.inv.of_kept (syncDirectory_kept _ _) (syncDirectory_kept _ _), removed.output,
        removed.next,
      removed.streams, removed.there, removed.fresh⟩
  refine wp_unlink recovering (fun _ => ?_) (fun gone => ?_) fun calls _ => ?_
  · dsimp only
    refine wp_utilSyncParentDirectory (journalPath_noSlash parts) removed ?_ (fun _ _ => ?_)
      (fun calls => ?_)
      fun calls => ?_
    · exact ⟨synced, synced, now, settled, position, stream⟩
    · exact ⟨removed, removed, now, settled, position, stream⟩
    · exact ⟨removed, removed, calls, held _ rfl⟩
    · exact ⟨synced, synced, calls, held _ rfl⟩
  · rw [gone] at there
    cases there
  · exact ⟨recovering, recovering, calls, held _ rfl⟩

private theorem counted_resize {limit narrow : Nat} {bytes : Bytes}
    (holds : (rowsShape limit rows).Fits bytes)
    (counts : ∀ i b, countByte rows.length i b → bytes.getD i 0 = b)
    (bound : rowsEnd rows.length ≤ narrow) :
    (countedShape narrow rows).Fits (resize bytes (rowsEnd rows.length)) := by
  have least : 64 ≤ rowsEnd rows.length := rowsEnd_mono (Nat.zero_le _)
  have fits : (countedShape limit rows).Fits bytes := by
    refine ⟨holds.length, ?_⟩
    rintro i b (fixed | fixed)
    · exact holds.byte i b fixed
    · exact counts i b fixed
  refine fits.resize bound fun i b fixed => ⟨?_, fixed⟩
  rcases fixed with fixed | fixed
  · exact rowsByte_lt fixed
  · have within := countByte_bounds fixed
    omega

private theorem recover_truncated {after : File}
    (recovering : Recovering regime tableName rows kept h w x)
    (found : x.file (tablePath tableName) = some after) (synced : after.older = [])
    (counts : ∀ i b, countByte rows.length i b → after.bytes.getD i 0 = b)
    (size : rowsEnd rows.length ≤ maxFileSize) :
    Recovering regime tableName rows kept h w
      (x.setFile (tablePath tableName) (resizedFile after (rowsEnd rows.length) size)) := by
  have apart := journalPath_ne_tablePath tableName
  have here : (x.setFile (tablePath tableName) (resizedFile after (rowsEnd rows.length) size)).file
      (tablePath tableName) = some (resizedFile after (rowsEnd rows.length) size) :=
    congrArg Entry.now (entries_setEntry ..)
  have others : ∀ path, path ≠ tablePath tableName →
      (x.setFile (tablePath tableName)
        (resizedFile after (rowsEnd rows.length) size)).entries path =
        x.entries path := fun path ne => entries_setEntry_ne ne _
  have holds := recovering.inv.holds.bytes found
  refine ⟨?_, recovering.inv.recount (Kept.of_eq (others _ apart)) ?_ (here ▸ rfl) ?_,
    recovering.output,
    recovering.next, recovering.streams, here ▸ rfl, ?_⟩
  · exact recovering.frame.trans fun path outside =>
      Kept.of_eq (others path fun eq => outside (eq ▸ List.prefix_refl _))
  · simp only [World.setFile, entries_setEntry]
  · intro n most bound file found' content among
    have limited := (bound.bytes found).length
    have fits : (countedShape (regime.limit n) rows).Fits after.bytes := by
      refine ⟨limited, ?_⟩
      rintro i b (fixed | fixed)
      · exact holds.byte i b fixed
      · exact counts i b fixed
    rw [here, Option.some.injEq] at found'
    subst found'
    have cut : (countedShape (regime.limit n) rows).Fits
        (resize after.bytes (rowsEnd rows.length)) :=
      counted_resize holds counts (Nat.le_trans (rowsEnd_mono most) (Nat.le_max_right _ _))
    unfold File.contents at among
    split at among
    · simp only [resizedFile, synced, List.nil_append, List.mem_cons, List.not_mem_nil,
        or_false] at among
      rcases among with rfl | rfl
      · exact cut
      · exact fits
    · simp only [resizedFile, List.mem_cons, List.not_mem_nil, or_false] at among
      exact among ▸ cut
  · intro path ne gone
    rw [World.file, others path ne]
    exact recovering.fresh path ne gone

/-- Recovery restores the header and the length, then removes the journal. -/
theorem recoverInsertJournal_spec (valid : storageValidTableName tableName = true)
    (inv : TableInv regime tableName w rows kept)
    (there : (w.file (tablePath tableName)).isSome = true)
    (opened : w.streams h = some { path := tablePath tableName, position := 0, pending := [] })
    (old : h < w.next) :
    wp (Steps faults) (Recovering regime tableName rows kept h w) (recoverInsertJournal h tableName)
      (Recovered faults regime tableName rows kept h w) w := by
  have parts := storageValidTableName_parts valid
  have apart := journalPath_ne_tablePath tableName
  have quiet : ∀ v, Quiet w v → Recovering regime tableName rows kept h w v := fun v quiet =>
    ⟨.of_eq quiet.entries, inv.of_kept (Kept.of_eq (congrFun quiet.entries _))
      (Kept.of_eq (congrFun quiet.entries _)),
      quiet.output, quiet.next, fun g below _ => quiet.streams g below,
      (file_congr quiet.entries _).symm ▸ there, fun path _ gone =>
        (file_congr quiet.entries path).trans gone⟩
  have still : ∀ v, Quiet w v → HeaderHeld tableName rows.length h v := fun v quiet =>
    ⟨0, [], (quiet.streams h old).trans opened, fun _ _ => Shape.agrees_nil⟩
  have failing : ∀ status v, faults.calls = true → Quiet w v →
      wp (Steps faults) (Recovering regime tableName rows kept h w)
        (Pure.pure (Except.error status))
        (Recovered faults regime tableName rows kept h w) v :=
    fun status v calls same => ⟨quiet v same, quiet v same, calls, still v same⟩
  unfold recoverInsertJournal
  rw [storageJournalPath_valid valid]
  refine wp_openFile (quiet w (.refl w)) (fun present => ?_) (fun gone => ?_)
    fun calls error known => ?_
  · obtain ⟨journal, found⟩ := Option.isSome_iff_exists.mp present
    have valid_journal := inv.present journal found
    obtain ⟨previousCount, counted, accepted⟩ := valid_journal.valid
    have fresh : ∀ stream, Quiet w ({ w with next := w.next + 1 }.setStream w.next stream) :=
      Quiet.newHandle w
    rw [opened_eq]
    dsimp only
    refine wp_seq (readJournal_exact (w := { w with next := w.next + 1 }) found)
      (fun v same => ?_) ?_
    · obtain ⟨p, rfl⟩ := same
      exact quiet _ (fresh _)
    · rintro result _ ⟨p, rfl⟩ (whole | ⟨calls, rfl⟩)
      · rw [if_pos valid_journal.length] at whole
        subst whole
        refine wp_close (quiet _ (fresh _)) ?_ fun calls error => ?_
        · rw [World.cursor, setStream_setStream]
          generalize named : ({ w with next := w.next + 1 }.setStream w.next none) = u
          have base : Quiet w u := named ▸ fresh none
          have recovering := quiet u base
          have stream :
              u.streams h = some { path := tablePath tableName, position := 0, pending := [] } :=
            (base.streams h old).trans opened
          obtain ⟨file, foundT⟩ := Option.isSome_iff_exists.mp recovering.there
          have begun : Writes regime.crashes (HeaderKept rows.length) (tablePath tableName) h u u :=
            .start recovering.there stream fun _ _ => Shape.agrees_nil
          have stop : ∀ x, faults.calls = true →
              Writes regime.crashes (HeaderKept rows.length) (tablePath tableName) h u x →
              wp (Steps faults) (Recovering regime tableName rows kept h w)
                (Pure.pure (Except.error TableStatus.durabilityError))
                (Recovered faults regime tableName rows kept h w) x := fun x calls writes =>
            have later := recovering.writes writes
            ⟨later.1, later.1, calls, later.2⟩
          dsimp only
          rw [accepted]
          dsimp only
          refine Writes.wp_header begun stream foundT (fun shape same => (counted ▸ same).agrees)
            (fun x writes => (recovering.writes writes).1)
              (fun x headed writes moved foundX content => ?_)
            fun calls x writes => stop x calls writes
          refine Writes.wp_flushAndSync writes moved foundX
            (fun x writes => (recovering.writes writes).1)
            (fun x after writes moved foundX synced same => ?_)
            fun why x writes => stop x (why.resolve_right (not_not_intro (.inl rfl))) writes
          have later := (recovering.writes writes).1
          rw [patch_nil, content] at same
          have counts : ∀ i b, countByte rows.length i b → after.bytes.getD i 0 = b := by
            intro i b fixed
            have within := countByte_bounds fixed
            rw [same, getD_patch, if_pos (by rw [length_headerBytes]; omega), Nat.sub_zero]
            exact getD_headerBytes (counted ▸ fixed)
          have cut := recover_truncated later foundX synced counts valid_journal.size
          have journalX : x.entries (journalPath tableName) = w.entries (journalPath tableName) :=
            (writes.entries _ apart).trans (congrFun base.entries _)
          simp only [Bool.not_true, Bool.false_eq_true, ↓reduceIte]
          refine wp_ftruncate moved foundX valid_journal.size later ?_ fun calls _ =>
            stop x calls writes
          dsimp only
          generalize shortened : x.setFile (tablePath tableName)
            (resizedFile after (rowsEnd rows.length) valid_journal.size) = y at cut ⊢
          have foundY : y.file (tablePath tableName) =
              some (resizedFile after (rowsEnd rows.length) valid_journal.size) := by
            rw [← shortened]
            exact congrArg Entry.now (entries_setEntry ..)
          have journalY : y.file (journalPath tableName) = some journal := by
            rw [← shortened, World.file, World.setFile, entries_setEntry_ne apart, journalX]
            exact found
          have streamY : y.streams h = some
              { path := tablePath tableName, position := 64, pending := [] } := by
            rw [← shortened]
            exact moved
          have again : Writes regime.crashes (HeaderKept rows.length) (tablePath tableName) h y y :=
            .start cut.there streamY fun _ _ => Shape.agrees_nil
          have stop : ∀ x, faults.calls = true →
              Writes regime.crashes (HeaderKept rows.length) (tablePath tableName) h y x →
              wp (Steps faults) (Recovering regime tableName rows kept h w)
                (Pure.pure (Except.error TableStatus.durabilityError))
                (Recovered faults regime tableName rows kept h w) x := fun x calls writes =>
            have later := cut.writes writes
            ⟨later.1, later.1, calls, later.2⟩
          refine Writes.wp_flushAndSync again streamY foundY (fun x writes => (cut.writes writes).1)
            (fun z final writes moved foundZ synced same => ?_)
            fun why z writes => stop z (why.resolve_right (not_not_intro (.inl rfl))) writes
          have journalZ : z.file (journalPath tableName) = some journal := by
            rw [World.file, writes.entries _ apart]
            exact journalY
          have cut_fits := counted_resize (later.inv.holds.bytes foundX) counts
            (show rowsEnd rows.length ≤ regime.limit rows.length from Nat.le_max_right _ _)
          simp only [Bool.not_true, Bool.false_eq_true, ↓reduceIte]
          refine recover_unlink parts (cut.writes writes).1 (journalZ ▸ rfl) present moved
            (throughout_synced foundZ synced ?_)
          rw [same, patch_nil]
          exact cut_fits
        · rw [World.cursor, setStream_setStream]
          exact failing _ _ calls (fresh none)
      · refine wp_close (quiet _ (fresh _)) ?_ fun _ _ => ?_
        · rw [World.cursor, setStream_setStream]
          exact failing _ _ calls (fresh none)
        · rw [World.cursor, setStream_setStream]
          exact failing _ _ calls (fresh none)
  · exact ⟨quiet w (.refl w), quiet w (.refl w), gone, fun _ => rfl, 0, opened⟩
  · dsimp only
    rw [if_neg known]
    exact failing _ w calls (.refl w)

/-! ## Accepted files -/

section Accepted

variable {n : Nat} {row : Row} {newCount count : UInt64} {content : Bytes}

/-- A header that was written is one of this version. -/
theorem headerOf_headerBytes (rowCount : UInt64) (more : Bytes) :
    (headerOf (headerBytes rowCount ++ more)).Current ∧
      (headerOf (headerBytes rowCount ++ more)).count = rowCount :=
  ⟨⟨getU32Le_put _, getU32Le_put _, getU32Le_put _, getU32Le_put _, getU32Le_put _, getU32Le_put _⟩,
    getU64Le_put _⟩

/-- A header without rows is an empty table. -/
theorem acceptedCount_blank : acceptedCount (headerBytes 0) = .ok 0 := by decide +kernel

/-- A file is accepted once a row behind its others and the header were written. -/
theorem acceptedCount_inserted (image : file.bytes = insertedBytes content n row newCount)
    (counted : newCount.toNat = n + 1) : acceptedCount file.bytes = .ok newCount := by
  have fits := file.fits
  have some_header : headerBytes newCount ≠ [] :=
    List.ne_nil_of_length_pos (by rw [length_headerBytes]; decide)
  have some_row : storageSerializeRow row ≠ [] :=
    List.ne_nil_of_length_pos (by rw [length_storageSerializeRow]; decide)
  have length : file.bytes.length = max (max content.length (rowOffset n + 36)) 64 := by
    rw [image, insertedBytes, length_patch some_header, length_patch some_row, length_headerBytes,
      length_storageSerializeRow, Nat.zero_add]
  have front : ∃ more, file.bytes = headerBytes newCount ++ more := by
    rw [image, insertedBytes, patch, if_neg some_header, List.take_zero, List.nil_append]
    exact ⟨_, rfl⟩
  obtain ⟨more, front⟩ := front
  obtain ⟨current, count⟩ := headerOf_headerBytes newCount more
  unfold maxFileSize at fits
  refine acceptedCount_iff.mpr ⟨by omega, front ▸ current, front ▸ count.symm, ?_, ?_⟩
  · rw [counted, rowsEnd_succ]
    omega
  · rw [counted, rowsEnd_succ]
    omega

/-- Rows whose bytes are those in the slots of a file. -/
theorem storedRows_exist {bytes : Bytes} {count : Nat} (whole : rowsEnd count ≤ bytes.length) :
    ∃ rows : List Row, rows.length = count ∧
      ∀ r (inside : r < rows.length),
        storageSerializeRow (rows.get ⟨r, inside⟩) = slice bytes (rowOffset r) 36 := by
  have size : ∀ r : Fin count, (slice bytes (rowOffset r) 36).length = 36 := by
    intro r
    have last := rowOffset_lt_rowsEnd r.isLt
    rw [length_slice]
    omega
  refine ⟨List.ofFn fun r => storedRow (slice bytes (rowOffset r) 36) (size r), List.length_ofFn,
    fun r inside => ?_⟩
  rw [List.get_eq_getElem, List.getElem_ofFn]
  exact storageSerializeRow_stored _ _

/-- Every table that is accepted, and has no journal, has the rows in its slots. -/
theorem tableInv_accepted (safe : regime.crashes = false) (tail : file.bytes.length ≤ regime.tail)
    (settled : w.file (journalPath tableName) = none)
    (found : w.file (tablePath tableName) = some file)
    (accepted : acceptedCount file.bytes = .ok count)
    (fine : ∀ rows, rows.map visibleRow = tableRows file.bytes count.toNat → regime.fine rows) :
    ∃ rows, TableInv regime tableName w rows rows.length ∧
      rows.map visibleRow = tableRows file.bytes count.toNat := by
  obtain ⟨full, _, counted, _, whole⟩ := acceptedCount_iff.mp accepted
  obtain ⟨rows, length, stored⟩ := storedRows_exist whole
  have inSlots : ∀ i b, rowsByte rows i b → file.bytes.getD i 0 = b := by
    rintro i b ⟨r, j, inside, inSlot, rfl, rfl⟩
    rw [stored r inside]
    simp only [slice, List.getD_eq_getElem?_getD, List.getElem?_take_of_lt inSlot,
      List.getElem?_drop]
  have inHeader : ∀ i b, countByte rows.length i b → file.bytes.getD i 0 = b := by
    rintro i b ⟨j, inside, rfl, rfl⟩
    have word := leBytes_leNat ((List.range 8).map fun i => (slice file.bytes 24 8).getD i 0)
    rw [← getU64Le_toNat, List.length_map, List.length_range] at word
    rw [length, counted, headerOf, word]
    simp [slice, List.getD_eq_getElem?_getD, inside]
  have fits : ∀ n, Throughout regime.crashes (countedShape (regime.limit n) rows).Fits w
      (tablePath tableName) := by
    intro n other there content among
    rw [found, Option.some.injEq] at there
    subst there
    rw [safe] at among
    obtain rfl := List.mem_singleton.mp among
    refine ⟨Nat.le_trans tail (Nat.le_max_left _ _), fun i b fixed => ?_⟩
    rcases fixed with fixed | fixed
    · exact inSlots i b fixed
    · exact inHeader i b fixed
  have shown : rows.map visibleRow = tableRows file.bytes count.toNat := by
    have fits : (rowsShape (regime.limit 0) rows).Fits file.bytes :=
      ⟨Nat.le_trans tail (Nat.le_max_left _ _), inSlots⟩
    have shows := tableRows_of_fits fits (Nat.le_refl rows.length)
    rw [List.take_length, length] at shows
    exact shows.symm
  have none_left : ∀ journal, ¬ Journal regime.crashes tableName w (some journal) := by
    rintro journal (now | earlier)
    · rw [settled] at now
      cases now
    · rw [safe] at earlier
      cases earlier
  refine ⟨rows, { small := length ▸ count.toNat_lt, fine := fine rows shown, acked := Nat.le_refl _,
                  phase := ?_, missing := fun absent => ?_, earlier := fun meaning among => ?_,
                  journals := fun journal there => absurd there (none_left journal),
                  present := fun journal there => absurd (.inl there.symm) (none_left journal),
                  counts := fun _ => fits _ }, shown⟩
  · refine ⟨_, .before, (fits (rows.length + 1)).mono fun bytes fits => ?_⟩
    exact fits.weaken (Nat.le_refl _) fun i b fixed => fixed.imp id And.right
  · rw [found] at absent
    cases absent
  · rw [safe] at among
    cases among

end Accepted

/-! ## Opening and closing -/

/-- Without a journal an accepted table file has exactly the rows. -/
theorem TableInv.accepted {count : UInt64} (inv : TableInv regime tableName w rows kept)
    (settled : w.file (journalPath tableName) = none)
    (found : w.file (tablePath tableName) = some file)
    (accepted : acceptedCount file.bytes = .ok count) :
    count.toNat = rows.length ∧ tableRows file.bytes count.toNat = rows.map visibleRow := by
  have fits := (inv.counts (.inl settled.symm)).bytes found
  obtain ⟨_, _, counted, _, whole⟩ := acceptedCount_iff.mp accepted
  have same : count.toNat = rows.length := by
    rw [counted]
    exact count_of_fits (fun i b fixed => fits.byte i b (.inr fixed)) inv.small
  refine ⟨same, ?_⟩
  rw [same] at whole ⊢
  have shown := tableRows_of_fits (inv.holds.bytes found) (Nat.le_refl _)
  rwa [List.take_length] at shown

/-- A handle on a table without a journal, which buffers nothing. -/
theorem TableInv.held {position : Nat} (inv : TableInv regime tableName w rows kept)
    (settled : w.file (journalPath tableName) = none)
    (there : (w.file (tablePath tableName)).isSome = true)
    (stream : w.streams h = some { path := tablePath tableName, position, pending := [] }) :
    Held regime.crashes tableName (regime.before rows) rows.length h w := by
  refine ⟨there, (inv.counts (.inl settled.symm)).mono fun bytes fits => ?_, position, [], stream,
    Shape.agrees_nil,
    fun buffered => absurd rfl buffered⟩
  exact fits.weaken (limit_mono (Nat.le_succ _)) fun i b fixed => fixed.imp id And.right

/-- An operation on a table has kept its rows and everything around it. -/
structure Within (regime : Regime) (tableName : Bytes) (rows : List Row) (kept : Nat)
    (w v : World) : Prop where
  frame : KeptBut (tablePath tableName) w v
  inv : TableInv regime tableName v rows kept
  output : v.output = w.output
  next : w.next ≤ v.next
  streams : ∀ g < w.next, v.streams g = w.streams g
  fresh : ∀ path, path ≠ tablePath tableName → w.file path = none → v.file path = none

theorem Within.stopped (within : Within regime tableName rows kept w v) :
    TableKept regime tableName rows kept w v :=
  ⟨within.frame, within.inv⟩

theorem TableInv.within (inv : TableInv regime tableName w rows kept) (quiet : Quiet w v) :
    Within regime tableName rows kept w v :=
  ⟨.of_eq quiet.entries, inv.of_kept (Kept.of_eq (congrFun quiet.entries _))
    (Kept.of_eq (congrFun quiet.entries _)),
    quiet.output, quiet.next, quiet.streams, fun path _ gone =>
      (file_congr quiet.entries path).trans gone⟩

/-- What opening for writing comes to: every row is there, and no journal is left. -/
def OpenedWritable (faults : Faults) (regime : Regime) (tableName : Bytes) (rows : List Row)
    (kept : Nat) (w : World)
    (result : Except TableStatus Table) (v : World) : Prop :=
  Within regime tableName rows kept w v ∧ match result with
    | .ok table =>
      table = { name := tableName, file := w.next, rowCount := table.rowCount, writable := true } ∧
        table.rowCount.toNat = rows.length ∧ w.next < v.next ∧
          v.file (journalPath tableName) = none ∧
        (w.file (journalPath tableName) = none → v.entries = w.entries) ∧
        (∃ file, v.file (tablePath tableName) = some file ∧
          acceptedCount file.bytes = .ok table.rowCount) ∧
        ∃ position, v.streams w.next = some { path := tablePath tableName, position, pending := [] }
    | .error status => faults.calls = true ∨
        status = .notFound ∧ w.file (tablePath tableName) = none ∨
        (w.file (journalPath tableName) = none → v.entries = w.entries) ∧
          ∃ file, v.file (tablePath tableName) = some file ∧
            acceptedCount file.bytes = .error status

theorem Within.setStream (within : Within regime tableName rows kept w v) (new : w.next ≤ h)
    (stream : Option Stream) :
    Within regime tableName rows kept w (v.setStream h stream) :=
  ⟨within.frame, within.inv.of_kept (Kept.refl _) (Kept.refl _), within.output, within.next,
    fun g below => (streams_setStream_ne (by omega) _).trans (within.streams g below), within.fresh⟩

private theorem Recovering.within (recovering : Recovering regime tableName rows kept h u x)
    (quiet : Quiet w u) (new : w.next ≤ h) :
    Within regime tableName rows kept w x :=
  ⟨(KeptBut.of_eq quiet.entries).trans recovering.frame, recovering.inv,
    recovering.output.trans quiet.output,
    Nat.le_trans quiet.next recovering.next, fun g below =>
      (recovering.streams g (Nat.lt_of_lt_of_le below quiet.next) (by omega)).trans
        (quiet.streams g below),
    fun path ne gone => recovering.fresh path ne ((file_congr quiet.entries path).trans gone)⟩

private theorem wp_closeRecovered {post : α → World → Prop} {next : Except Errno Unit → Prog α}
    (recovering : Recovering regime tableName rows kept h u x) (quiet : Quiet w u)
    (new : w.next ≤ h)
    (held : HeaderHeld tableName rows.length h x)
    (closed : ∀ answer y, Within regime tableName rows kept w y →
      wp (Steps faults) (TableKept regime tableName rows kept w) (next answer) post y) :
    wp (Steps faults) (TableKept regime tableName rows kept w) (fclose h >>= next) post x := by
  obtain ⟨position, pending, stream, agrees⟩ := held
  have begun : Writes regime.crashes (HeaderKept rows.length) (tablePath tableName) h x x :=
    .start recovering.there stream agrees
  have passed : ∀ written kept', Within regime tableName rows kept w
      ((x.passOn h ⟨tablePath tableName, position, pending⟩ pending written kept').setStream h none)
        :=
    fun written kept' => Within.setStream
      ((recovering.writes (begun.passOn ⟨_, position,
        pending⟩ rfl agrees written kept')).1.within quiet new) new none
  exact wp_fclose stream (recovering.within quiet new).stopped (fun _ => closed _ _ (passed _ _))
    fun _ _ _ _ => closed _ _ (passed _ _)

/-- Opening for writing: recovery, then the check of the header. -/
theorem storageOpenTable_spec (valid : storageValidTableName tableName = true)
    (inv : TableInv regime tableName w rows kept) :
    wp (Steps faults) (TableKept regime tableName rows kept w) (storageOpenTable tableName)
      (OpenedWritable faults regime tableName rows kept w) w := by
  have failing : ∀ status v, faults.calls = true → Quiet w v →
      wp (Steps faults) (TableKept regime tableName rows kept w) (Pure.pure (Except.error status))
        (OpenedWritable faults regime tableName rows kept w) v :=
    fun status v calls quiet => ⟨(inv.within quiet).stopped, inv.within quiet, .inl calls⟩
  have here := (inv.within (.refl w)).stopped
  unfold storageOpenTable storageOpenTableMode
  rw [valid, utilCopyChecked_valid valid, storageTablePath_valid valid,
    storageJournalPath_valid valid]
  refine wp_allocate here ?_ fun calls => failing _ w calls (.refl w)
  refine wp_openFile here (fun present => ?_) (fun absent => ?_) fun calls error known => ?_
  · have fresh := Quiet.newHandle w
    rw [opened_eq]
    refine wp_fdopen (inv.within (fresh _)).stopped ?_ fun calls error =>
      wp_close (inv.within (fresh _)).stopped ?_ fun _ _ => ?_
    · simp only [↓reduceIte]
      generalize named : { w with next := w.next + 1 }.cursor w.next (tablePath tableName) 0 = u
      have quiet : Quiet w u := named ▸ fresh _
      have new : u.next = w.next + 1 := named ▸ rfl
      have stream : u.streams w.next =
          some { path := tablePath tableName, position := 0, pending := [] } :=
        named ▸ streams_cursor ..
      have sameTable : Kept (w.entries (tablePath tableName)) (u.entries (tablePath tableName)) :=
        Kept.of_eq (congrFun quiet.entries _)
      have invU := inv.of_kept sameTable (Kept.of_eq (congrFun quiet.entries _))
      refine wp_seq
        (recoverInsertJournal_spec valid invU (sameTable.same_file ▸ present) stream (by omega))
        (fun v recovering => (recovering.within quiet (Nat.le_refl _)).stopped) ?_
      rintro (status | _) v _ ⟨recovering, outcome⟩
      · obtain ⟨calls, held⟩ := outcome
        refine wp_closeRecovered recovering quiet (Nat.le_refl _) held fun _ y within => ?_
        exact ⟨within.stopped, within, .inl calls⟩
      · obtain ⟨settled, same, position, opened⟩ := outcome
        have within := recovering.within quiet (Nat.le_refl _)
        obtain ⟨file, found⟩ := Option.isSome_iff_exists.mp recovering.there
        rw [← setStream_self opened]
        refine wp_mono (finishOpen_spec found tableName true) (fun x still => ?_) ?_
        · exact ⟨within.frame.trans (.of_eq still),
            within.inv.of_kept (Kept.of_eq (congrFun still _))
            (Kept.of_eq (congrFun still _))⟩
        · rintro (status | table) x _ finished
          · obtain ⟨refusal | calls, rfl⟩ := finished
            · refine ⟨within.setStream (Nat.le_refl _) _,
                .inr (.inr ⟨fun gone => ?_, file, found, refusal⟩)⟩
              rw [entries_setStream, same ((file_congr quiet.entries _).trans gone), quiet.entries]
            · exact ⟨within.setStream (Nat.le_refl _) _, .inl calls⟩
          · obtain ⟨accepted, shape, p, rfl⟩ := finished
            refine ⟨within.setStream (Nat.le_refl _) _, shape, ?_, ?_, settled, ?_,
              ⟨file, found, accepted⟩, p,
              streams_cursor ..⟩
            · exact (within.inv.accepted settled found accepted).1
            · have later := recovering.next
              rw [next_cursor]
              omega
            · intro gone
              rw [entries_cursor, same ((file_congr quiet.entries _).trans gone), quiet.entries]
    · rw [World.cursor, setStream_setStream]
      exact failing _ _ calls (fresh _)
    · rw [World.cursor, setStream_setStream]
      exact failing _ _ calls (fresh _)
  · exact ⟨here, inv.within (.refl w), .inr (.inl ⟨rfl, absent⟩)⟩
  · dsimp only
    rw [if_neg known]
    split <;> exact failing _ w calls (.refl w)

/-- A name without a table is not found, and nothing is changed. -/
theorem storageOpenTable_absent (valid : storageValidTableName tableName = true)
    (gone : w.file (tablePath tableName) = none) :
    wp (Steps faults) (Still w) (storageOpenTable tableName)
      (fun result v => v = w ∧ (faults.calls = true ∧ (∃ status, result = .error status) ∨
        result = .error .notFound)) w := by
  unfold storageOpenTable storageOpenTableMode
  rw [valid, utilCopyChecked_valid valid, storageTablePath_valid valid,
    storageJournalPath_valid valid]
  refine wp_allocate rfl ?_ fun calls => ⟨rfl, rfl, .inl ⟨calls, _, rfl⟩⟩
  refine wp_openFile rfl (fun present => ?_) (fun _ => ⟨rfl, rfl, .inr rfl⟩)
    fun calls error known => ?_
  · rw [gone] at present
    cases present
  · dsimp only
    rw [if_neg known]
    split <;> exact ⟨rfl, rfl, .inl ⟨calls, _, rfl⟩⟩

/-- Closing a table passes on what its handle still buffers. -/
theorem storageCloseTable_spec {shape : Shape} (inv : TableInv regime table.name w rows kept)
    (phase : regime.Phase rows shape)
    (held : Held regime.crashes table.name shape rows.length table.file w) :
    wp (Steps faults) (TableKept regime table.name rows kept w) (storageCloseTable table)
      (fun _ v => v.output = w.output ∧ v.next = w.next ∧
        (∀ path, path ≠ tablePath table.name → v.file path = w.file path) ∧
        ∀ position, w.streams table.file =
          some { path := tablePath table.name, position, pending := [] } →
          v = w.setStream table.file none) w := by
  obtain ⟨there, fits, position, pending, stream, agrees, armed⟩ := held
  have begun : Writes regime.crashes (· = shape) (tablePath table.name) table.file w w :=
    .start there stream fun shape same => same ▸ agrees
  have closed : ∀ answer written kept', wp (Steps faults) (TableKept regime table.name rows kept w)
      (Pure.pure answer >>= fun _ : Except Errno Unit => Pure.pure ())
      (fun _ v => v.output = w.output ∧ v.next = w.next ∧
        (∀ path, path ≠ tablePath table.name → v.file path = w.file path) ∧
        ∀ position, w.streams table.file =
          some { path := tablePath table.name, position, pending := [] } →
          v = w.setStream table.file none)
      ((w.passOn table.file
        ⟨tablePath table.name, position, pending⟩ pending written kept').setStream
        table.file none) := by
    intro answer written kept'
    have writes :=
      begun.passOn ⟨tablePath table.name, position, pending⟩ rfl (fun shape same => same ▸ agrees)
      written kept'
    have apart := journalPath_ne_tablePath table.name
    refine ⟨⟨fun path outside => writes.kept fun eq => outside (eq ▸ List.prefix_refl _), ?_⟩,
      writes.output,
      writes.next, fun path ne => congrArg Entry.now (writes.entries path ne),
        fun position unbuffered => ?_⟩
    · by_cases empty : pending = []
      · subst empty
        rw [passOn_nil, setStream_setStream]
        exact inv.of_kept (Kept.refl _) (Kept.refl _)
      · exact (inv.write (armed empty) (writes.kept apart) writes.before writes.there phase
          (writes.fits shape rfl fits)).of_kept (Kept.refl _) (Kept.refl _)
    · rw [stream] at unbuffered
      cases unbuffered
      rw [passOn_nil, setStream_setStream]
  unfold storageCloseTable
  exact wp_fclose stream ⟨.refl _ w, inv⟩ (fun _ => closed (.ok ()) _ _) fun _ error _ _ =>
    closed (.error error) _ _

/-! ## Creation -/

/-- What creation comes to. -/
def Created (faults : Faults) (regime : Regime) (tableName : Bytes) (rows : List Row)
    (kept : Nat) (w : World)
    (result : TableCreateStatus) (v : World) : Prop :=
  Within regime tableName rows kept w v ∧ match result with
    | .ok => rows = [] ∧ w.file (tablePath tableName) = none ∧
        (∀ path, path ≠ tablePath tableName → v.file path = w.file path) ∧
        ∃ file, v.file (tablePath tableName) = some file ∧ file.bytes = headerBytes 0
    | _ => v = w ∧ (w.file (tablePath tableName)).isSome = true ∨ faults.calls = true ∨
        (w.file (journalPath tableName)).isSome = true

private theorem Blank.counted {meaning : Option File} (blank : Blank meaning) (crashes : Bool) :
    ∀ file, meaning = some file →
      ∀ content ∈ file.contents crashes, (countedShape 64 []).Fits content := by
  intro file found content among
  have within : content ∈ file.contents true := by
    cases crashes with
    | false => exact List.mem_singleton.mp among ▸ file.bytes_mem_contents true
    | true => exact among
  refine (blank file found content within).weaken (Nat.le_refl _) ?_
  rintro i b (⟨r, _, inside, _⟩ | ⟨j, inside, rfl, rfl⟩)
  · cases inside
  · have zero : ∀ j < 8, (leBytes 8 0).getD j 0 = 0 := by decide
    exact ⟨by omega, zero j inside⟩

/-- Nothing of the invariant is lost where a table is being made. -/
theorem Making.within (making : Making (tablePath tableName) w v)
    (inv : TableInv regime tableName w [] kept) :
    Within regime tableName [] kept w v where
  frame path outside := making.others path fun eq => outside (eq ▸ List.prefix_refl _)
  inv := inv.blank (making.now.counted regime.crashes)
    (fun meaning among => (making.before meaning among).imp_left fun blank =>
      blank.counted regime.crashes)
    (making.others _ (journalPath_ne_tablePath _))
  output := making.output
  next := making.next
  streams := making.streams
  fresh path ne gone := (making.others path ne).same_file.trans gone

theorem CreateStop.within (stop : CreateStop (tablePath tableName) w v)
    (inv : TableInv regime tableName w rows kept) :
    Within regime tableName rows kept w v := by
  rcases stop with rfl | ⟨free, making⟩
  · exact inv.within (.refl v)
  · obtain rfl := inv.missing free
    exact making.within inv

/-- Creation leaves a table without rows, or none. -/
theorem storageCreateTable_spec (valid : storageValidTableName tableName = true)
    (inv : TableInv regime tableName w rows kept) :
    wp (Steps faults) (TableKept regime tableName rows kept w) (storageCreateTable tableName)
      (Created faults regime tableName rows kept w) w := by
  refine wp_mono (storageCreateTable_makes valid)
    (fun v stop => (stop.within inv).stopped) fun status v stop ends => ?_
  refine ⟨stop.within inv, ?_⟩
  cases status with
  | ok =>
    obtain ⟨free, file, found, image⟩ := ends
    refine ⟨inv.missing free, free, fun path ne => ?_, file, found, image⟩
    rcases stop with rfl | ⟨_, making⟩
    · rfl
    · exact (making.others path ne).same_file
  | _ => exact ends

/-- Only a valid name is created. -/
theorem created_valid (ran : Returns (Steps faults) (storageCreateTable tableName) w .ok v) :
    storageValidTableName tableName = true := by
  unfold storageCreateTable at ran
  split at ran
  · cases ran
  split at ran
  · cases ran
  · rename_i valid
    simpa using valid

end SqlEngine
