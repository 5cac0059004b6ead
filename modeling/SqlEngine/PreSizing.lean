import Mathlib.Order.Bounds.Basic
import SqlEngine.HashIndexProofs

/-! The size a fresh index is given: the doubling loop in 64-bit arithmetic, the bucket
count it ends with, and the insertions that fit before the table has to grow. -/
namespace SqlEngine

open Library Library.Chaining

/-! ## The doubling loop -/

/-- The loop of `bucket_count_for_entries` on `size_t` values, run to its end: the bucket
counts it tests, in order, and the one it settles on. -/
inductive BucketLoop (expectedEntries : UInt64) : UInt64 → List UInt64 → Option UInt64 → Prop where
  | enough (fits : expectedEntries ≤ buckets / 4 * 3) :
      BucketLoop expectedEntries buckets [buckets] (some buckets)
  | overflow (few : ¬ expectedEntries ≤ buckets / 4 * 3)
      (large : buckets > 0xFFFFFFFFFFFFFFFF / 2) :
      BucketLoop expectedEntries buckets [buckets] none
  | doubled (few : ¬ expectedEntries ≤ buckets / 4 * 3) (room : ¬ buckets > 0xFFFFFFFFFFFFFFFF / 2)
      (rest : BucketLoop expectedEntries (buckets * 2) tested found) :
      BucketLoop expectedEntries buckets (buckets :: tested) found

variable {expected buckets : UInt64} {tested : List UInt64} {found : Option UInt64}

private theorem fits_iff (expected buckets : UInt64) :
    expected ≤ buckets / 4 * 3 ↔ expected.toNat ≤ indexLoadLimit buckets.toNat := by
  have bound := buckets.toNat_lt
  have product : (buckets / 4 * 3).toNat = buckets.toNat / 4 * 3 := by
    rw [UInt64.toNat_mul, UInt64.toNat_div]
    change buckets.toNat / 4 * 3 % 2 ^ 64 = _
    exact Nat.mod_eq_of_lt (by omega)
  rw [UInt64.le_iff_toNat_le, product]
  rfl

private theorem large_iff (buckets : UInt64) :
    buckets > 0xFFFFFFFFFFFFFFFF / 2 ↔ buckets.toNat > SIZE_MAX / 2 := by
  rw [gt_iff_lt, UInt64.lt_iff_toNat_lt]
  rfl

private theorem doubled_exact (room : ¬ buckets > 0xFFFFFFFFFFFFFFFF / 2) :
    (buckets * 2).toNat = buckets.toNat * 2 := by
  rw [large_iff] at room
  rw [UInt64.toNat_mul]
  change buckets.toNat * 2 % 2 ^ 64 = _
  unfold SIZE_MAX at room
  exact Nat.mod_eq_of_lt (by omega)

private theorem tested_exact (loop : BucketLoop expected buckets tested found) :
    tested.map UInt64.toNat = (List.range tested.length).map fun i => buckets.toNat * 2 ^ i := by
  -- No doubling wraps: the loop tests the powers of two from its start on.
  induction loop with
  | enough => simp
  | overflow => simp
  | @doubled buckets found tested few room rest ih =>
    rw [List.map_cons, ih, List.length_cons, List.range_succ_eq_map, doubled_exact room]
    simp [Nat.pow_succ, Nat.mul_assoc, Nat.mul_comm, Nat.mul_left_comm]

private theorem loop_runs (start : buckets.toNat = 2 ^ k) (enough : 64 < k + passes) :
    ∃ tested found, BucketLoop expected buckets tested found := by
  -- The loop agrees with the exact computation of as many passes as it needs.
  induction passes generalizing k buckets with
  | zero =>
    have bound := buckets.toNat_lt
    rw [start] at bound
    exact absurd ((Nat.pow_lt_pow_iff_right (by decide)).mp bound) (by omega)
  | succ passes ih =>
    by_cases fits : expected ≤ buckets / 4 * 3
    · exact ⟨_, _, .enough fits⟩
    · by_cases large : buckets > 0xFFFFFFFFFFFFFFFF / 2
      · exact ⟨_, _, .overflow fits large⟩
      · have next : (buckets * 2).toNat = 2 ^ (k + 1) :=
          by rw [doubled_exact large, start, Nat.pow_succ]
        obtain ⟨tested, found, rest⟩ := ih next (by omega)
        exact ⟨_, _, .doubled fits large rest⟩

private theorem loop_found (loop : BucketLoop expected buckets tested found)
    (enough : tested.length ≤ passes) :
    found.map UInt64.toNat = bucketCountFrom expected.toNat passes buckets.toNat := by
  induction loop generalizing passes with
  | enough fits =>
    obtain ⟨passes, rfl⟩ := Nat.exists_eq_add_of_le' (show 1 ≤ passes from enough)
    rw [bucketCountFrom, if_pos ((fits_iff _ _).mp fits)]
    rfl
  | overflow few large =>
    obtain ⟨passes, rfl⟩ := Nat.exists_eq_add_of_le' (show 1 ≤ passes from enough)
    rw [bucketCountFrom, if_neg (few ∘ (fits_iff _ _).mpr), if_pos ((large_iff _).mp large)]
    rfl
  | doubled few room rest ih =>
    obtain ⟨passes, rfl⟩ := Nat.exists_eq_add_of_le' (Nat.le_trans (Nat.le_add_left 1 _) enough)
    rw [bucketCountFrom, if_neg (few ∘ (fits_iff _ _).mpr), if_neg (room ∘ (large_iff _).mpr),
      ← doubled_exact room]
    exact ih (Nat.le_of_succ_le_succ enough)

private theorem tested_few (loop : BucketLoop expected 16 tested found) : tested.length ≤ 64 := by
  refine Nat.le_of_not_lt fun many => ?_
  have exactly := congrArg (·[60]?) (tested_exact loop)
  simp only [List.getElem?_map, List.getElem?_range (show 60 < tested.length by omega),
    Option.map_some] at exactly
  obtain ⟨value, _, large⟩ := Option.map_eq_some_iff.mp exactly
  have bound := value.toNat_lt
  rw [large] at bound
  exact absurd bound (by decide)

/-- The loop ends, no doubling of it wraps, and it finds what `bucketCountForEntries` says. -/
theorem bucketLoop_exact (expected : UInt64) :
    (∃ tested found, BucketLoop expected 16 tested found) ∧
    ∀ tested found, BucketLoop expected 16 tested found →
      (tested.map UInt64.toNat = (List.range tested.length).map fun i =>
        INDEX_INITIAL_BUCKETS * 2 ^ i) ∧
      found.map UInt64.toNat = bucketCountForEntries expected.toNat :=
  ⟨loop_runs (k := 4) rfl (show 64 < 4 + 61 by decide),
    fun _ _ loop => ⟨tested_exact loop, loop_found loop (tested_few loop)⟩⟩

/-- A bucket count is found up to the bound of the loop and no further. -/
theorem bucketCountForEntries_isSome {expected : Nat} :
    (bucketCountForEntries expected).isSome ↔ expected ≤ 3 * 2 ^ 61 := by
  constructor
  · intro found
    obtain ⟨buckets, counted⟩ := Option.isSome_iff_exists.mp found
    obtain ⟨j, _, bound, power, fits, _⟩ := bucketCountFrom_spec (k := 4) counted (by decide)
    have most : 2 ^ j ≤ 2 ^ 63 := Nat.pow_le_pow_right (by decide) bound
    simp only [power, indexLoadLimit, INDEX_MAX_LOAD_DEN, INDEX_MAX_LOAD_NUM] at fits
    omega
  · intro few
    have enough : 63 < 4 + 64 := by decide
    obtain ⟨i, _, counted⟩ := bucketCountFrom_some (show 4 ≤ 63 by decide) enough (by decide) few
    exact Option.isSome_iff_exists.mpr ⟨2 ^ i, counted⟩

/-- The bucket count is the least power of two, from the initial one on, whose load limit
covers the entries. -/
theorem bucketCountForEntries_least {expected buckets : Nat}
    (counted : bucketCountForEntries expected = some buckets) :
    IsLeast {n | INDEX_INITIAL_BUCKETS ≤ n ∧ (∃ k, n = 2 ^ k) ∧
      expected ≤ indexLoadLimit n} buckets := by
  obtain ⟨j, least, _, rfl, fits, smallest⟩ := bucketCountFrom_spec (k := 4) counted (by decide)
  refine ⟨⟨Nat.pow_le_pow_right (show 0 < 2 by decide) least, ⟨j, rfl⟩, fits⟩, ?_⟩
  rintro n ⟨sixteen, ⟨i, rfl⟩, covers⟩
  have order : 4 ≤ i := (Nat.pow_le_pow_iff_right (show 1 < 2 by decide)).mp sixteen
  refine Nat.pow_le_pow_right (show 0 < 2 by decide) (Nat.le_of_not_lt fun below => ?_)
  exact smallest i order below covers

/-! ## Insertions that may resize -/

/-- Successive insertions, whatever each of them returns: their statuses and the index behind
them. -/
def insertAll (resize : Resize) (index : Index) : List Insertion →
    Allocating (List IndexStatus × Index)
  | [] => return ([], index)
  | insertion :: rest => do
    let (status, index) ← indexInsertWith resize index insertion
    let (statuses, index) ← insertAll resize index rest
    return (status :: statuses, index)

/-- A run does not call `index_resize`: it is the same for every function in its place. -/
def NeverResizes (run : Resize → Allocating α) : Prop := ∀ resize other, run resize = run other

/-- A run calls `index_resize` once, before anything else. -/
def ResizesFirst (run : Resize → Allocating α) (index : Index) (newCount : Nat) : Prop :=
  ∃ rest, ∀ resize, run resize = resize index newCount >>= rest

private theorem ResizesFirst.calls {run : Resize → Allocating α}
    (first : ResizesFirst run index newCount) :
    ¬ NeverResizes run := by
  -- A run cannot do both: what it would do behind a resize would be all of it.
  intro never
  obtain ⟨rest, starts⟩ := first
  have same := never (fun index _ => Program.perform .allocate >>= fun _ => pure (.ok, index))
    (fun index _ => pure (.ok, index))
  rw [starts, starts] at same
  exact Program.call_ne_self Memory.allocate true (rest (.ok, index)) same

/-! ## Room for the expected entries -/

variable {index after : Index} {insertion : Insertion}

/-- Below the load limit an insertion does not resize. -/
theorem insertWith_below (room : index.entryCount < indexLoadLimit index.bucketCount) :
    NeverResizes fun resize => indexInsertWith resize index insertion := by
  intro resize other
  have notFull : ¬ index.entryCount ≥ indexLoadLimit index.bucketCount := Nat.not_le.mpr room
  simp only [indexInsertWith, notFull, ↓reduceIte]

/-- Below the load limit an insertion adds at most one entry to the same buckets. -/
theorem insertWith_grows (room : index.entryCount < indexLoadLimit index.bucketCount) :
    Program.wp (Grants true) (fun _ => True) (indexInsertWith indexResize index insertion)
      (fun result _ => result.2.bucketCount = index.bucketCount ∧
        result.2.entryCount ≤ index.entryCount + 1) () := by
  have notFull : ¬ index.entryCount ≥ indexLoadLimit index.bucketCount := Nat.not_le.mpr room
  simp only [indexInsertWith, notFull, ↓reduceIte]
  split
  · exact ⟨trivial, rfl, Nat.le_succ _⟩
  · split
    · split
      · exact ⟨trivial, rfl, Nat.le_succ _⟩
      · exact ⟨trivial, rfl, Nat.le_succ _⟩
    · refine ⟨trivial, ⟨true, (), .inl rfl⟩, fun granted _ _ => ?_⟩
      cases granted with
      | false => exact ⟨trivial, rfl, Nat.le_succ _⟩
      | true => exact ⟨trivial, rfl, Nat.le_refl _⟩

/-- At the load limit an insertion of a new key resizes to twice the buckets. -/
theorem insertWith_full (valid : index.Valid) (absent : index.find insertion.key = none)
    (full : indexLoadLimit index.bucketCount ≤ index.entryCount)
    (small : index.bucketCount ≤ SIZE_MAX / 2) :
    ResizesFirst (fun resize => indexInsertWith resize index insertion) index
      (index.bucketCount * 2) := by
  have nonzero : ¬ index.bucketCount = 0 := Nat.ne_of_gt valid.positive
  have notHuge : ¬ index.bucketCount > SIZE_MAX / 2 := Nat.not_lt.mpr small
  have missing :
      ((index.buckets.getD (indexBucket index.bucketCount insertion.key) []).find? fun node =>
      node.key = insertion.key) = none := by
    have searched := absent
    simp only [Index.find, Option.map_eq_none_iff] at searched
    exact searched
  refine ⟨fun result => do
    if result.1 ≠ .ok then return (.allocError, result.2)
    if !(← malloc) then return (.allocError, result.2)
    let node : IndexEntry := { key := insertion.key, fileOffset := insertion.fileOffset }
    let buckets := push IndexEntry.key (indexBucket result.2.bucketCount) result.2.buckets node
    return (.ok, { result.2 with buckets, entryCount := result.2.entryCount + 1 }),
      fun resize => ?_⟩
  simp only [indexInsertWith, nonzero, missing, full, notHuge, Option.isSome_none, ↓reduceIte,
    Bool.false_eq_true]

private theorem insertAll_eq {insertions : List Insertion} (resize : Resize)
    (room : index.entryCount + insertions.length ≤ indexLoadLimit index.bucketCount) :
    insertAll resize index insertions = insertAll indexResize index insertions := by
  -- While the insertions fit below the load limit, none of them resizes.
  induction insertions generalizing index with
  | nil => rfl
  | cons insertion rest ih =>
    rw [List.length_cons] at room
    have below : index.entryCount < indexLoadLimit index.bucketCount := by omega
    have first : indexInsertWith resize index insertion =
        indexInsertWith indexResize index insertion :=
      insertWith_below below resize indexResize
    unfold insertAll
    rw [first]
    refine Program.bind_congr (Program.wp_mono (insertWith_grows below) (fun _ holds => holds) ?_)
      fun _ _ _ => ⟨(), .inr rfl⟩
    rintro ⟨status, grown⟩ _ _ ⟨buckets, entries⟩
    dsimp only at buckets entries ⊢
    rw [ih (by rw [buckets]; omega)]

private theorem insertAll_below {insertions : List Insertion}
    (room : index.entryCount + insertions.length ≤ indexLoadLimit index.bucketCount) :
    NeverResizes fun resize => insertAll resize index insertions :=
  fun resize other => (insertAll_eq resize room).trans (insertAll_eq other room).symm

/-- What insertions of new keys below the load limit leave. -/
structure Filled (index : Index) (insertions : List Insertion) (statuses : List IndexStatus)
    (after : Index) : Prop where
  valid : after.Valid
  buckets : after.bucketCount = index.bucketCount
  counted : (∀ status ∈ statuses, status = .ok) →
    after.entryCount = index.entryCount + insertions.length
  others : ∀ key, key ∉ insertions.map Insertion.key → after.find key = index.find key

/-- As many insertions as the index has room for are made without a resize. -/
theorem insertAll_spec {insertions : List Insertion} (valid : index.Valid)
    (absent : ∀ key ∈ insertions.map Insertion.key, index.find key = none)
    (distinct : (insertions.map Insertion.key).Nodup)
    (room : index.entryCount + insertions.length ≤ indexLoadLimit index.bucketCount) :
    Program.wp (Grants true) (fun _ => True) (insertAll indexResize index insertions)
      (fun result _ => Filled index insertions result.1 result.2) () := by
  induction insertions generalizing index with
  | nil => exact ⟨trivial, valid, rfl, fun _ => rfl, fun _ _ => rfl⟩
  | cons insertion rest ih =>
    rw [List.length_cons] at room
    have below : index.entryCount < indexLoadLimit index.bucketCount := by omega
    obtain ⟨fresh, distinct⟩ := List.nodup_cons.mp distinct
    have missing := absent insertion.key (List.mem_cons_self ..)
    have inserts : Program.wp (Grants true) (fun _ => True) _ _ () :=
      indexInsert_spec valid insertion.key insertion.fileOffset insertion.replace
    refine Program.wp_seq (Program.wp_and (insertWith_grows below) inserts) (fun _ _ => trivial) ?_
    rintro ⟨status, grown⟩ _ _ ⟨⟨buckets, entries⟩, inserted⟩
    dsimp only at buckets entries inserted ⊢
    have found : ∀ key, key ≠ insertion.key → grown.find key = index.find key := by
      intro key other
      rcases inserted.outcome with ⟨_, _, _, same⟩ | ⟨_, _, updated, _⟩ | ⟨_, _, same, _⟩
      · rw [same]
      · rw [updated, if_neg other]
      · exact same.find key
    have later : ∀ key ∈ rest.map Insertion.key, grown.find key = none := by
      intro key member
      rw [found key fun same => fresh (same ▸ member)]
      exact absent key (List.mem_cons_of_mem _ member)
    refine Program.wp_seq (ih inserted.valid later distinct (by rw [buckets]; omega))
      (fun _ _ => trivial) ?_
    rintro ⟨statuses, after⟩ _ _ filled
    refine ⟨trivial, filled.valid, filled.buckets.trans buckets, ?_, ?_⟩
    · intro every
      have one : grown.entryCount = index.entryCount + 1 := by
        have ok : status = .ok := every status (List.mem_cons_self ..)
        rcases inserted.outcome with ⟨refused, _⟩ | ⟨_, _, _, count⟩ | ⟨refused, _⟩
        · exact absurd (ok.symm.trans refused) nofun
        · rw [count, if_pos missing]
        · exact absurd (ok.symm.trans refused) nofun
      rw [filled.counted fun status member => every status (List.mem_cons_of_mem _ member), one,
        List.length_cons]
      omega
    · intro key other
      obtain ⟨different, elsewhere⟩ := not_or.mp (List.mem_cons.not.mp other)
      rw [filled.others key elsewhere, found key different]

private theorem array_small {bytes : Nat}
    (counted : bucketCountForEntries expectedEntries = some bucketCount)
    (sized : utilMulSize bucketCount POINTER_SIZE = some bytes) :
    bucketCount ≤ SIZE_MAX / 2 := by
  unfold utilMulSize POINTER_SIZE SIZE_MAX at sized
  split at sized
  · cases sized
  · rename_i fits
    have positive : bucketCount ≠ 0 := by
      obtain ⟨j, _, _, power, _⟩ := bucketCountFrom_spec (k := 4) counted (by decide)
      exact power ▸ Nat.ne_of_gt (Nat.two_pow_pos j)
    have room : 8 ≤ (2 ^ 64 - 1) / bucketCount :=
      Nat.le_of_not_gt fun large => fits ⟨positive, large⟩
    have product := (Nat.le_div_iff_mul_le (Nat.pos_of_ne_zero positive)).mp room
    unfold SIZE_MAX
    omega

/-- The bucket count of an expected number of entries is found without wrapping, exists
up to `3 * 2 ^ 61` entries and is the least one that covers them. An index of that size
takes that many new keys without a resize, and one more resizes it exactly when the
expected number was its load limit. -/
theorem presizing_exact (expected : UInt64) :
    ((∃ tested found, BucketLoop expected 16 tested found) ∧
      ∀ tested found, BucketLoop expected 16 tested found →
        (tested.map UInt64.toNat = (List.range tested.length).map fun i =>
          INDEX_INITIAL_BUCKETS * 2 ^ i) ∧
        found.map UInt64.toNat = bucketCountForEntries expected.toNat) ∧
    ((bucketCountForEntries expected.toNat).isSome ↔ expected.toNat ≤ 3 * 2 ^ 61) ∧
    (∀ buckets, bucketCountForEntries expected.toNat = some buckets →
      IsLeast {n | INDEX_INITIAL_BUCKETS ≤ n ∧ (∃ k, n = 2 ^ k) ∧
        expected.toNat ≤ indexLoadLimit n} buckets) ∧
    ∀ tableName index,
      Program.Returns (Grants true) (indexCreateSized tableName expected.toNat) () (some index) () →
      bucketCountForEntries expected.toNat = some index.bucketCount ∧
      ∀ insertions : List Insertion, (insertions.map Insertion.key).Nodup →
        insertions.length = expected.toNat →
        (NeverResizes fun resize => insertAll resize index insertions) ∧
        ∀ statuses after,
          Program.Returns (Grants true) (insertAll indexResize index insertions) ()
            (statuses, after) () →
          (∀ status ∈ statuses, status = .ok) →
          ∀ insertion, insertion.key ∉ insertions.map Insertion.key →
            (expected.toNat = indexLoadLimit index.bucketCount →
              ResizesFirst (fun resize => indexInsertWith resize after insertion) after
                (index.bucketCount * 2)) ∧
            (¬ (NeverResizes fun resize => indexInsertWith resize after insertion) ↔
              expected.toNat = indexLoadLimit index.bucketCount) := by
  refine ⟨bucketLoop_exact expected, bucketCountForEntries_isSome,
    fun _ => bucketCountForEntries_least, ?_⟩
  intro tableName index made
  obtain ⟨_, created⟩ := Program.wp_returns (indexCreateSized_spec tableName expected.toNat) made
  obtain ⟨_, shape⟩ := Program.wp_returns (indexCreateSized_made tableName expected.toNat) made
  obtain ⟨valid, empty, _, none_yet⟩ := created index rfl
  obtain ⟨bucketCount, bytes, counted, sized, made_of⟩ := shape index rfl
  have buckets : bucketCount = index.bucketCount := made_of ▸ rfl
  have small := buckets ▸ array_small counted sized
  rw [buckets] at counted
  obtain ⟨⟨_, _, covers⟩, _⟩ := bucketCountForEntries_least counted
  refine ⟨counted, fun insertions distinct length => ?_⟩
  have room : index.entryCount + insertions.length ≤ indexLoadLimit index.bucketCount := by
    rw [none_yet, length]
    omega
  refine ⟨insertAll_below room, fun statuses after ran every insertion new => ?_⟩
  obtain ⟨_, filled⟩ :=
    Program.wp_returns (insertAll_spec valid (fun key _ => empty key) distinct room) ran
  have entries : after.entryCount = expected.toNat := by
    rw [filled.counted every, none_yet, length, Nat.zero_add]
  have resizes : expected.toNat = indexLoadLimit index.bucketCount →
      ResizesFirst (fun resize => indexInsertWith resize after insertion) after
        (index.bucketCount * 2) := by
    intro full
    have absent : after.find insertion.key = none := by rw [filled.others _ new, empty]
    rw [← filled.buckets]
    refine insertWith_full filled.valid absent ?_ (filled.buckets ▸ small)
    rw [filled.buckets, entries, full]
  refine ⟨resizes, fun calls => ?_, fun full => (resizes full).calls⟩
  by_contra different
  refine calls (insertWith_below ?_)
  rw [filled.buckets, entries]
  omega

end SqlEngine
