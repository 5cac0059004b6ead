import Mathlib.Logic.Function.Basic
import Mathlib.Data.Nat.Bitwise
import SqlEngine.HashIndex

/-! The hash index refines a finite map from keys to file offsets, for every sequence of
insertions and every refused request for memory. -/
namespace SqlEngine

open Library Library.Chaining

/-- What a request for memory may answer: it is refused only when refusals are possible. -/
def Grants (refusals : Bool) : Program.Step Memory (fun _ => Bool) Unit :=
  fun _ _ reply _ => reply = true ∨ refusals = true

/-- The structure of an index: a power of two of chains, every node in the chain of its
key, no key in two nodes, and a load of at most three quarters. -/
structure Index.Valid (index : Index) : Prop where
  sized : ∃ k, 4 ≤ k ∧ index.bucketCount = 2 ^ k
  slots : index.buckets.length = index.bucketCount
  placed : ∀ i, ∀ node ∈ index.buckets.getD i [], indexBucket index.bucketCount node.key = i
  unique : (index.buckets.flatten.map IndexEntry.key).Nodup
  counted : index.entryCount = index.buckets.flatten.length
  loaded : index.entryCount ≤ indexLoadLimit index.bucketCount

/-- The map an index holds. -/
def Index.find (index : Index) (key : Int32) : Option Int64 :=
  (search IndexEntry.key (indexBucket index.bucketCount) index.buckets key).map
    IndexEntry.fileOffset

/-- The indexes that creation with an expected size and insertions lead to, each with
the map that the successful insertions build. -/
inductive Reached (expectedEntries : Nat) : Index → (Int32 → Option Int64) → Prop where
  | created (made : Program.Returns (Grants true) (indexCreateSized tableName expectedEntries) ()
      (some index) ()) :
      Reached expectedEntries index fun _ => none
  | inserted (before : Reached expectedEntries index map)
      (ran : Program.Returns (Grants true) (indexInsert index key fileOffset replace) ()
        (status, after) ()) :
      Reached expectedEntries after
        (if status = .ok then Function.update map key (some fileOffset) else map)

variable {index after : Index} {key : Int32} {fileOffset : Int64} {replace refusals : Bool}

/-! ## Buckets -/

private theorem indexBucket_lt (positive : 0 < n) (key : Int32) : indexBucket n key < n :=
  Nat.lt_of_le_of_lt Nat.and_le_right (by omega)

theorem Index.Valid.positive (valid : index.Valid) : 0 < index.bucketCount := by
  obtain ⟨k, _, power⟩ := valid.sized
  rw [power]
  exact Nat.two_pow_pos k

theorem Index.Valid.chained (valid : index.Valid) :
    Chained IndexEntry.key (indexBucket index.bucketCount) index.buckets :=
  ⟨fun key => valid.slots ▸ indexBucket_lt valid.positive key, valid.placed, valid.unique⟩

/-- A lookup reads the map of the index. -/
theorem indexLookup_eq (valid : index.Valid) (key : Int32) :
    indexLookup index key = match index.find key with
      | some fileOffset => .ok fileOffset
      | none => .error .notFound := by
  have nonzero : index.bucketCount ≠ 0 := Nat.ne_of_gt valid.positive
  simp only [indexLookup, nonzero, ↓reduceIte, Index.find, search]
  cases (index.buckets.getD (indexBucket index.bucketCount key) []).find? fun node =>
    node.key = key <;> rfl

private theorem wp_malloc {next : Bool → Allocating α} {post : α → Unit → Prop}
    (each : ∀ granted, granted = true ∨ refusals = true →
      Program.wp (Grants refusals) (fun _ => True) (next granted) post ()) :
    Program.wp (Grants refusals) (fun _ => True) (malloc >>= next) post () :=
  ⟨trivial, ⟨true, (), .inl rfl⟩, fun granted _ answered => each granted answered⟩

/-- The loop ends with the first power of two, from its start on, that is large enough. -/
theorem bucketCountFrom_spec (found : bucketCountFrom expected passes (2 ^ k) = some buckets)
    (start : k ≤ 63) :
    ∃ j, k ≤ j ∧ j ≤ 63 ∧ buckets = 2 ^ j ∧ expected ≤ indexLoadLimit buckets ∧
      ∀ i, k ≤ i → i < j → ¬ expected ≤ indexLoadLimit (2 ^ i) := by
  induction passes generalizing k with
  | zero => cases found
  | succ passes ih =>
    simp only [bucketCountFrom] at found
    split at found
    · rename_i fits
      cases found
      exact ⟨k, Nat.le_refl k, start, rfl, fits, fun i from_start below =>
        absurd below (Nat.not_lt.mpr from_start)⟩
    · rename_i few
      split at found
      · cases found
      · rename_i room
        have below : k < 63 := by
          have power : 2 ^ k < 2 ^ 63 := by
            unfold SIZE_MAX at room
            omega
          exact (Nat.pow_lt_pow_iff_right (by decide)).mp power
        obtain ⟨j, order, bound, power, fits, least⟩ :=
          ih (k := k + 1) (by rwa [Nat.pow_succ]) below
        refine ⟨j, by omega, bound, power, fits, fun i from_start before => ?_⟩
        by_cases here : i = k
        · exact here ▸ few
        · exact least i (by omega) before

/-- What creation makes: the counted buckets, all empty, in an array whose size does not wrap. -/
theorem indexCreateSized_made (tableName : Bytes) (expected : Nat) :
    Program.wp (Grants refusals) (fun _ => True) (indexCreateSized tableName expected)
      (fun result _ => ∀ index, result = some index → ∃ bucketCount bytes,
        bucketCountForEntries expected = some bucketCount ∧
          utilMulSize bucketCount POINTER_SIZE = some bytes ∧
        index =
          { tableName, buckets := List.replicate bucketCount [], bucketCount, entryCount := 0 }) () := by
  unfold indexCreateSized
  split
  · exact ⟨trivial, nofun⟩
  · cases counted : bucketCountForEntries expected with
    | none => exact ⟨trivial, nofun⟩
    | some bucketCount =>
      cases sized : utilMulSize bucketCount POINTER_SIZE with
      | none =>
        simp only [sized]
        exact ⟨trivial, nofun⟩
      | some bytes =>
        simp only [sized]
        refine wp_malloc fun first _ => ?_
        cases first with
        | false => exact ⟨trivial, nofun⟩
        | true =>
          refine wp_malloc fun second _ => ?_
          cases second with
          | false => exact ⟨trivial, nofun⟩
          | true =>
            cases copied : utilCopyChecked SQL_TABLE_NAME_CAPACITY tableName with
            | none => exact ⟨trivial, nofun⟩
            | some name =>
              have named : name = tableName := by
                unfold utilCopyChecked at copied
                split at copied <;> cases copied
                rfl
              refine ⟨trivial, ?_⟩
              rintro index ⟨⟩
              exact ⟨bucketCount, bytes, rfl, sized, by rw [named]⟩

/-- A fresh index is empty and as large as asked for. -/
theorem indexCreateSized_spec (tableName : Bytes) (expected : Nat) :
    Program.wp (Grants refusals) (fun _ => True) (indexCreateSized tableName expected)
      (fun result _ => ∀ index, result = some index → index.Valid ∧ (∀ key, index.find key = none) ∧
        index.tableName = tableName ∧ index.entryCount = 0) () := by
  refine Program.wp_mono (indexCreateSized_made tableName expected) (fun _ holds => holds) ?_
  intro result _ _ made index found
  obtain ⟨bucketCount, _, counted, _, rfl⟩ := made index found
  obtain ⟨k, least, _, power, _⟩ := bucketCountFrom_spec (k := 4) counted (by decide)
  have empty : ∀ i, (List.replicate bucketCount ([] : List IndexEntry)).getD i [] = [] := by
    intro i
    by_cases bound : i < bucketCount <;> simp [bound]
  refine ⟨⟨⟨k, least, power⟩, by simp, ?_, by simp, by simp, Nat.zero_le _⟩, ?_, rfl, rfl⟩
  · intro i node member
    rw [empty] at member
    cases member
  · intro key
    simp only [Index.find, search, empty]
    rfl

/-- The loop stops at the first power of two that is large enough. -/
theorem bucketCountFrom_some {j : Nat} (order : k ≤ j) (enough : j < k + passes) (small : j ≤ 63)
    (fits : expected ≤ indexLoadLimit (2 ^ j)) :
    ∃ i ≤ j, bucketCountFrom expected passes (2 ^ k) = some (2 ^ i) := by
  induction passes generalizing k with
  | zero => omega
  | succ passes ih =>
    unfold bucketCountFrom
    split
    · exact ⟨k, order, rfl⟩
    · rename_i few
      have before : k ≠ j := by
        rintro rfl
        exact few fits
      have room : ¬ 2 ^ k > SIZE_MAX / 2 := by
        have power : 2 ^ k ≤ 2 ^ 62 := Nat.pow_le_pow_right (by decide) (by omega)
        unfold SIZE_MAX
        omega
      rw [if_neg room, ← Nat.pow_succ]
      exact ih (by omega) (by omega)

private theorem indexCreateSized_granted {tableName : Bytes} {expected : Nat}
    (valid : storageValidTableName tableName = true)
    (short : utilCopyChecked SQL_TABLE_NAME_CAPACITY tableName = some tableName)
    (few : expected ≤ UINT32_MAX) :
    Program.wp (Grants false) (fun _ => True) (indexCreateSized tableName expected)
      (fun result _ => result.isSome = true) () := by
  have enough : 33 < 4 + 64 := by decide
  have fits : expected ≤ indexLoadLimit (2 ^ 33) := Nat.le_trans few (by decide)
  obtain ⟨i, small, sized⟩ := bucketCountFrom_some (by decide) enough (by decide) fits
  have buckets : bucketCountForEntries expected = some (2 ^ i) := sized
  have bytes : utilMulSize (2 ^ i) POINTER_SIZE = some (2 ^ i * POINTER_SIZE) := by
    have power : 2 ^ i ≤ 2 ^ 33 := Nat.pow_le_pow_right (by decide) small
    have room : ¬ POINTER_SIZE > SIZE_MAX / 2 ^ i := by
      have quotient : SIZE_MAX / 2 ^ 33 ≤ SIZE_MAX / 2 ^ i :=
        Nat.div_le_div_left power (Nat.two_pow_pos i)
      have least : POINTER_SIZE ≤ SIZE_MAX / 2 ^ 33 := by decide
      omega
    simp [utilMulSize, room]
  have granted : ∀ {reply : Bool}, reply = true ∨ false = true → reply = true := fun reply =>
    reply.resolve_right nofun
  unfold indexCreateSized
  rw [valid, buckets]
  dsimp only
  rw [bytes, short]
  refine wp_malloc fun first granted_first => ?_
  obtain rfl := granted granted_first
  refine wp_malloc fun second granted_second => ?_
  obtain rfl := granted granted_second
  exact ⟨trivial, rfl⟩

/-- Creation makes an empty index, or was refused memory. -/
theorem indexCreateSized_exact {tableName : Bytes} (valid : storageValidTableName tableName = true)
    (short : utilCopyChecked SQL_TABLE_NAME_CAPACITY tableName = some tableName) (expected : Nat) :
    Program.wp (Grants refusals) (fun _ => True) (indexCreateSized tableName expected)
      (fun result _ => (∀ index, result = some index →
        index.Valid ∧ (∀ key, index.find key = none) ∧
        index.tableName = tableName ∧ index.entryCount = 0) ∧
        (result = none → refusals = true ∨ UINT32_MAX < expected)) () := by
  have made : Program.wp (Grants refusals) _ _ _ () := indexCreateSized_spec tableName expected
  by_cases known : refusals = true ∨ UINT32_MAX < expected
  · exact Program.wp_mono made (fun _ holds => holds) fun _ _ _ created => ⟨created, fun _ => known⟩
  · obtain ⟨granted, few⟩ := not_or.mp known
    obtain rfl : refusals = false := by simpa using granted
    have there := indexCreateSized_granted valid short (Nat.le_of_not_lt few)
    refine Program.wp_mono (Program.wp_and made there) (fun _ holds => holds) ?_
    rintro result _ _ ⟨created, there⟩
    refine ⟨created, ?_⟩
    rintro rfl
    cases there

/-! ## Insertion -/

/-- Two indexes hold the same map, with the same number of entries. -/
structure SameMap (index after : Index) : Prop where
  valid : after.Valid
  find : ∀ key, after.find key = index.find key
  count : after.entryCount = index.entryCount
  named : after.tableName = index.tableName

private theorem SameMap.refl (valid : index.Valid) :
    SameMap index index := ⟨valid, fun _ => rfl, rfl, rfl⟩

private theorem power_of_two (k : Nat) : (2 ^ k &&& (2 ^ k - 1)) = 0 := by
  rw [Nat.and_two_pow_sub_one_eq_mod, Nat.mod_self]

private theorem indexResize_spec (valid : index.Valid) :
    Program.wp (Grants refusals) (fun _ => True) (indexResize index (index.bucketCount * 2))
      (fun result _ => SameMap index result.2 ∧
        (result.1 = .ok ∧ result.2.bucketCount = index.bucketCount * 2 ∨
          result.1 ≠ .ok ∧ (refusals = true ∨ 2 ^ 60 ≤ index.bucketCount))) () := by
  -- Resizing keeps the map. Without a refused request it fails only for a table that is too
  -- large for any memory.
  obtain ⟨k, least, power⟩ := valid.sized
  have positive := valid.positive
  have doubled : index.bucketCount * 2 = 2 ^ (k + 1) := by rw [power, Nat.pow_succ]
  have proper : ¬ (index.bucketCount * 2 ≤ index.bucketCount ∨
      (index.bucketCount * 2 &&& (index.bucketCount * 2 - 1)) ≠ 0) := by
    rw [doubled, power_of_two, ← doubled]
    omega
  unfold indexResize
  rw [if_neg proper]
  cases sized : utilMulSize (index.bucketCount * 2) POINTER_SIZE with
  | none =>
    dsimp only
    have large : 2 ^ 60 ≤ index.bucketCount := by
      unfold utilMulSize POINTER_SIZE SIZE_MAX at sized
      split at sized
      · rename_i overflow
        have division := Nat.div_add_mod (2 ^ 64 - 1) (index.bucketCount * 2)
        have below := Nat.mod_lt (2 ^ 64 - 1) (show 0 < index.bucketCount * 2 by omega)
        have quotient : (2 ^ 64 - 1) / (index.bucketCount * 2) ≤ 7 := by omega
        have bound := Nat.mul_le_mul_left (index.bucketCount * 2) quotient
        omega
      · cases sized
    exact ⟨trivial, SameMap.refl valid, .inr ⟨nofun, .inr large⟩⟩
  | some bytes =>
    dsimp only
    refine wp_malloc fun granted answered => ?_
    cases granted with
    | false => exact ⟨trivial, SameMap.refl valid, .inr ⟨nofun, .inl (by simpa using answered)⟩⟩
    | true =>
      have inside := indexBucket_lt (show 0 < index.bucketCount * 2 by omega)
      obtain ⟨chained, contents, length⟩ :=
        relink_chained (index.bucketCount * 2) valid.unique inside
      refine ⟨trivial,
        ⟨⟨⟨k + 1, by omega, doubled⟩, length, chained.placed, chained.unique, ?_, ?_⟩,
          ?_, rfl, rfl⟩,
        .inl ⟨rfl, rfl⟩⟩
      · exact valid.counted.trans contents.length_eq.symm
      · have loaded := valid.loaded
        simp only [indexLoadLimit, INDEX_MAX_LOAD_DEN, INDEX_MAX_LOAD_NUM] at loaded ⊢
        omega
      · intro key
        have same := search_congr (k := key) valid.chained chained fun entry => contents.mem_iff
        simp only [Index.find, same]

/-- What an insertion does. -/
structure Inserted (index : Index) (key : Int32) (fileOffset : Int64) (replace refusals : Bool)
    (status : IndexStatus) (after : Index) : Prop where
  valid : after.Valid
  named : after.tableName = index.tableName
  outcome :
    (status = .duplicateKey ∧ replace = false ∧ index.find key ≠ none ∧ after = index) ∨
    (status = .ok ∧ (replace = true ∨ index.find key = none) ∧
      (∀ k, after.find k = if k = key then some fileOffset else index.find k) ∧
      after.entryCount = index.entryCount + if index.find key = none then 1 else 0) ∨
    (status = .allocError ∧ index.find key = none ∧ SameMap index after ∧
      (refusals = true ∨ 2 ^ 59 ≤ index.entryCount))

private theorem insert_found (valid : index.Valid)
    (found : search IndexEntry.key (indexBucket index.bucketCount) index.buckets key = some node) :
    Inserted index key fileOffset true refusals .ok
      { index with
        buckets := index.buckets.set (indexBucket index.bucketCount key)
          (updateFirst (fun node => node.key = key) (fun node => { node with fileOffset })
            (index.buckets.getD (indexBucket index.bucketCount key) [])) } := by
  have keeps : ∀ node : IndexEntry, ({ node with fileOffset } : IndexEntry).key = node.key :=
    fun _ => rfl
  have bound := valid.chained.inside key
  have chained := replace_chained keeps valid.chained (fun node => node.key = key) bound
  have keys := replace_keys keeps (fun node => node.key = key) bound
  have present : index.find key ≠ none := by simp [Index.find, found]
  have searched := fun l => search_replace keeps valid.chained key l
  refine ⟨⟨valid.sized, by simpa using valid.slots, chained.placed, chained.unique, ?_,
    valid.loaded⟩, rfl,
    .inr (.inl ⟨rfl, .inl rfl, ?_, by simp [present]⟩)⟩
  · have length := keys.length_eq
    rw [List.length_map, List.length_map] at length
    exact valid.counted.trans length.symm
  · intro l
    simp only [Index.find, searched]
    split
    · simp [found]
    · rfl

private theorem insert_pushed {grown : Index} (same : SameMap index grown)
    (absent : index.find key = none) (room : grown.entryCount < indexLoadLimit grown.bucketCount) :
    Inserted index key fileOffset replace refusals .ok
      { grown with
        buckets :=
          push IndexEntry.key (indexBucket grown.bucketCount) grown.buckets { key, fileOffset }
        entryCount := grown.entryCount + 1 } := by
  have valid := same.valid
  have bound := valid.chained.inside key
  have fresh : search IndexEntry.key (indexBucket grown.bucketCount) grown.buckets key = none := by
    have none_found := (same.find key).trans absent
    simpa [Index.find] using none_found
  let node : IndexEntry := { key, fileOffset }
  have keyed : node.key = key := rfl
  have chained := push_chained valid.chained (keyed ▸ fresh)
  have searched := fun k => search_push (k := k) valid.chained (keyed ▸ fresh)
  have contents := push_perm (keyed ▸ bound)
  refine ⟨⟨valid.sized, by simpa using valid.slots, chained.placed, chained.unique, ?_, room⟩,
    same.named,
    .inr (.inl ⟨rfl, .inr absent, ?_, by simp [absent, same.count]⟩)⟩
  · rw [contents.length_eq, List.length_cons, valid.counted]
  · intro k
    rw [← same.find k]
    change (search _ _ (push _ _ grown.buckets node) k).map _ = _
    rw [searched k]
    by_cases eq : k = key
    · simp [eq, node]
    · simp [eq, node, Index.find]

/-- The step lemma: one insertion into a well-formed index. -/
theorem indexInsert_spec (valid : index.Valid) (key : Int32) (fileOffset : Int64) (replace : Bool) :
    Program.wp (Grants refusals) (fun _ => True) (indexInsert index key fileOffset replace)
      (fun result _ => Inserted index key fileOffset replace refusals result.1 result.2) () := by
  have nonzero : ¬ index.bucketCount = 0 := Nat.ne_of_gt valid.positive
  unfold indexInsert indexInsertWith
  dsimp only
  rw [if_neg nonzero]
  have searching : ((index.buckets.getD (indexBucket index.bucketCount key) []).find? fun node =>
      node.key = key) = search IndexEntry.key (indexBucket index.bucketCount) index.buckets key :=
        rfl
  rw [searching]
  cases found : search IndexEntry.key (indexBucket index.bucketCount) index.buckets key with
  | some node =>
    cases replace with
    | false =>
      have present : index.find key ≠ none := by simp [Index.find, found]
      exact ⟨trivial, valid, rfl, .inl ⟨rfl, rfl, present, rfl⟩⟩
    | true => exact ⟨trivial, insert_found valid found⟩
  | none =>
    have absent : index.find key = none := by simp [Index.find, found]
    -- The rest is the same with and without a resize in front of it.
    have finish : ∀ grown : Index, SameMap index grown →
        grown.entryCount < indexLoadLimit grown.bucketCount →
        Program.wp (Grants refusals) (fun _ => True) (do
          if !(← malloc) then return (.allocError, grown)
          let buckets :=
            push IndexEntry.key (indexBucket grown.bucketCount) grown.buckets { key, fileOffset }
          return (IndexStatus.ok, { grown with buckets, entryCount := grown.entryCount + 1 }))
        (fun result _ => Inserted index key fileOffset replace refusals result.1 result.2) () := by
      intro grown same room
      refine wp_malloc fun granted answered => ?_
      cases granted with
      | false =>
        exact ⟨trivial, same.valid, same.named,
          .inr (.inr ⟨rfl, absent, same, .inl (by simpa using answered)⟩)⟩
      | true => exact ⟨trivial, insert_pushed same absent room⟩
    have large : 2 ^ 60 ≤ index.bucketCount → index.entryCount ≥ indexLoadLimit index.bucketCount →
        2 ^ 59 ≤ index.entryCount := by
      intro many full
      simp only [indexLoadLimit, INDEX_MAX_LOAD_DEN, INDEX_MAX_LOAD_NUM] at full
      omega
    by_cases full : index.entryCount ≥ indexLoadLimit index.bucketCount
    · by_cases huge : index.bucketCount > SIZE_MAX / 2
      · simp only [full, huge, ↓reduceIte]
        refine ⟨trivial, valid, rfl, .inr (.inr ⟨rfl, absent, .refl valid, .inr (large ?_ full)⟩)⟩
        unfold SIZE_MAX at huge
        omega
      · simp only [full, huge, ↓reduceIte]
        refine Program.wp_seq (indexResize_spec valid) (fun _ _ => trivial) ?_
        rintro ⟨status, grown⟩ _ _ ⟨same, ⟨grew, doubled⟩ | ⟨failed, why⟩⟩
        · obtain rfl : status = .ok := grew
          have room : grown.entryCount < indexLoadLimit grown.bucketCount := by
            have loaded := valid.loaded
            obtain ⟨k, least, power⟩ := valid.sized
            have sixteen : 2 ^ 4 ≤ 2 ^ k := Nat.pow_le_pow_right (by decide) least
            have size : grown.bucketCount = index.bucketCount * 2 := doubled
            have count : grown.entryCount = index.entryCount := same.count
            rw [count, size]
            simp only [indexLoadLimit, INDEX_MAX_LOAD_DEN, INDEX_MAX_LOAD_NUM] at loaded ⊢
            omega
          exact finish grown same room
        · simp only [ne_eq, failed, not_false_eq_true, ↓reduceIte]
          refine ⟨trivial, same.valid, same.named, .inr (.inr ⟨rfl, absent, same, ?_⟩)⟩
          exact why.imp id fun many => large many full
    · simp only [full, ↓reduceIte]
      exact finish index (.refl valid) (by omega)

/-! ## Runs -/

/-- The run lemma: every reachable index is well formed and holds the map of its
successful insertions. -/
theorem reached_valid (reached : Reached expectedEntries index map) :
    index.Valid ∧ ∀ key, index.find key = map key := by
  induction reached with
  | @created tableName index made =>
    obtain ⟨_, created⟩ := Program.wp_returns (indexCreateSized_spec tableName expectedEntries) made
    obtain ⟨valid, empty, _⟩ := created _ rfl
    exact ⟨valid, empty⟩
  | @inserted index map key fileOffset replace status after before ran ih =>
    obtain ⟨valid, holds⟩ := ih
    obtain ⟨_, inserted⟩ := Program.wp_returns (indexInsert_spec valid key fileOffset replace) ran
    refine ⟨inserted.valid, fun k => ?_⟩
    rcases inserted.outcome with ⟨rfl, _, _, rfl⟩ | ⟨rfl, _, updated, _⟩ | ⟨rfl, _, same, _⟩
    · exact holds k
    · rw [updated k, if_pos rfl]
      simp only [Function.update_apply, holds]
    · rw [same.find k]
      exact holds k

/-- Every index that creation and insertions reach is a well-formed table that answers
lookups as its map does. An insertion reports a duplicate exactly when it may not
replace a present key, and then changes nothing; when it succeeds the map changes at
that key only; when memory is refused the map is unchanged, resized or not. -/
theorem index_refines_map (reached : Reached expectedEntries index map) :
    index.Valid ∧
    (∀ key, indexLookup index key = match map key with
      | some fileOffset => .ok fileOffset
      | none => .error .notFound) ∧
    ∀ key fileOffset replace status after,
      Program.Returns (Grants true) (indexInsert index key fileOffset replace) ()
        (status, after) () →
      (status = .ok ∨ status = .duplicateKey ∨ status = .allocError) ∧
      (status = .duplicateKey ↔ replace = false ∧ map key ≠ none) ∧
      (status = .duplicateKey → after = index) ∧
      (status = .ok → ∀ k, indexLookup after k =
        if k = key then .ok fileOffset else indexLookup index k) ∧
      (status = .allocError → ∀ k, indexLookup after k = indexLookup index k) := by
  obtain ⟨valid, holds⟩ := reached_valid reached
  refine ⟨valid, fun key => ?_, fun key fileOffset replace status after ran => ?_⟩
  · rw [indexLookup_eq valid, holds]
  · obtain ⟨_, inserted⟩ := Program.wp_returns (indexInsert_spec valid key fileOffset replace) ran
    have found := indexLookup_eq inserted.valid
    have before := indexLookup_eq valid
    rw [← holds key]
    rcases inserted.outcome with
        ⟨rfl, fixed, present, same⟩ | ⟨rfl, free, updated, _⟩ | ⟨rfl, absent, same, _⟩
    · exact ⟨.inr (.inl rfl), ⟨fun _ => ⟨fixed, present⟩, fun _ => rfl⟩, fun _ => same,
        nofun, nofun⟩
    · refine ⟨.inl rfl, ⟨nofun, ?_⟩, nofun, fun _ k => ?_, nofun⟩
      · rintro ⟨rfl, present⟩
        exact absurd (free.resolve_left nofun) present
      · rw [found k, before k, updated k]
        by_cases same : k = key <;> simp [same]
    · refine ⟨.inr (.inr rfl), ⟨nofun, fun held => absurd absent held.2⟩, nofun, nofun,
        fun _ k => ?_⟩
      rw [found k, before k, same.find k]

/-- The index behind new keys with their offsets, each given all the memory it asks for. -/
def insertEach (index : Index) (entries : List (Int32 × Int64)) : Index :=
  entries.foldl (fun index entry =>
    (Program.answered (fun _ => true) (indexInsert index entry.1 entry.2 false)).2) index

/-- Inserting entry after entry leads to another reachable index. -/
theorem reached_insertEach (reached : Reached expectedEntries index map)
    (entries : List (Int32 × Int64)) :
    ∃ map, Reached expectedEntries (insertEach index entries) map := by
  induction entries generalizing index map with
  | nil => exact ⟨map, reached⟩
  | cons entry rest ih => exact ih (.inserted reached (Program.returns_answered fun _ => .inl rfl))

private def emptyIndex : Index :=
  { tableName := str "t", buckets := List.replicate 16 [], bucketCount := 16, entryCount := 0 }

private def grownIndex : Index :=
  insertEach emptyIndex
    [(7, 64), (14, 100), (7, 136), (0, 172), (1, 208), (2, 244), (3, 280), (4, 316),
      (5, 352), (6, 388),
      (8, 424), (9, 460), (10, 496), (11, 532), (12, 568)]

/-- Fourteen keys, two of them in one chain and one of them refused a second time, make
the index grow once; a third insertion of that key is refused too. -/
theorem index_refines_map_grown :
    grownIndex.Valid ∧ grownIndex.bucketCount = 32 ∧ grownIndex.entryCount = 14 ∧
    indexBucket 32 7 = indexBucket 32 14 ∧
    (∃ map : Int32 → Option Int64, map 7 = some 64 ∧ map 14 = some 100 ∧
      ∀ key, indexLookup grownIndex key = match map key with
        | some fileOffset => .ok fileOffset
        | none => .error .notFound) ∧
    ∀ status after, Program.Returns (Grants true) (indexInsert grownIndex 7 136 false) ()
      (status, after) () →
      status = .duplicateKey ∧ after = grownIndex := by
  have granted : Grants true .allocate () true () := .inl rfl
  have made : Program.Returns (Grants true) (indexCreateSized (str "t") 0) ()
      (some emptyIndex) () :=
    .call granted (.call granted .pure)
  have first : indexLookup grownIndex 7 = .ok 64 := by decide +kernel
  have second : indexLookup grownIndex 14 = .ok 100 := by decide +kernel
  obtain ⟨map, reached⟩ : ∃ map, Reached 0 grownIndex map := reached_insertEach (.created made) _
  obtain ⟨valid, finds, inserts⟩ := index_refines_map reached
  have held : map 7 = some 64 ∧ map 14 = some 100 := by
    rw [finds] at first second
    cases seven : map 7 <;> cases fourteen : map 14 <;> simp_all
  refine ⟨valid, by decide +kernel, by decide +kernel, by decide +kernel,
    ⟨map, held.1, held.2, finds⟩, fun status after ran => ?_⟩
  obtain ⟨_, twice, unchanged, _⟩ := inserts 7 136 false status after ran
  have refused := twice.mpr ⟨rfl, by simp [held.1]⟩
  exact ⟨refused, unchanged refused⟩

end SqlEngine
