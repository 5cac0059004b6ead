import SqlEngine.Library.Mixing
import SqlEngine.HashIndexProofs

/-! How `index_hash` spreads the keys over the buckets of an index. Each of its five
steps loses nothing, so that the low bits it is cut down to are met equally often. -/
namespace SqlEngine

open Library Library.Chaining Library.Mixing

variable {index : Index} {k bucket : Nat}

/-! ## The mixer -/

private theorem indexHash_steps :
    indexHash = UInt32.ofBitVec ∘ xorShift 16 ∘ (· * 0x846CA68B) ∘ xorShift 15 ∘ (· * 0x7FEB352D) ∘
      xorShift 16 ∘ Int32.toBitVec :=
  rfl

private theorem key_bits : Function.Bijective Int32.toBitVec :=
  ⟨fun _ _ => Int32.toBitVec_inj.mp, fun bits => ⟨.ofBitVec bits, rfl⟩⟩

private theorem hash_bits : Function.Bijective UInt32.ofBitVec :=
  ⟨fun _ _ same => congrArg UInt32.toBitVec same, fun hash => ⟨hash.toBitVec, rfl⟩⟩

private theorem bits_of_hash : Function.Bijective UInt32.toBitVec :=
  ⟨fun _ _ => UInt32.toBitVec_inj.mp, fun bits => ⟨.ofBitVec bits, rfl⟩⟩

/-- Every 32-bit value is the hash of exactly one key. -/
theorem indexHash_bijective : Function.Bijective indexHash := by
  have first : Function.Bijective fun bits : BitVec 32 => bits * 0x7FEB352D :=
    mul_bijective (by decide)
  have second : Function.Bijective fun bits : BitVec 32 => bits * 0x846CA68B :=
    mul_bijective (by decide)
  rw [indexHash_steps]
  exact hash_bits.comp <| (xorShift_bijective (by decide)).comp <| second.comp <|
    (xorShift_bijective (by decide)).comp <| first.comp <|
      (xorShift_bijective (by decide)).comp key_bits

/-! ## The buckets -/

private theorem indexBucket_iff (inside : bucket < 2 ^ k) (key : Int32) :
    indexBucket (2 ^ k) key = bucket ↔
      (indexHash key).toBitVec.setWidth k = BitVec.ofNat k bucket := by
  rw [indexBucket, Nat.and_two_pow_sub_one_eq_mod, ← BitVec.toNat_inj, BitVec.toNat_setWidth,
    BitVec.toNat_ofNat, Nat.mod_eq_of_lt inside, UInt32.toNat_toBitVec]

/-- Every bucket of `2 ^ k` is the bucket of one key for each way to choose the other bits
of a hash. -/
theorem indexBucket_spreads (order : k ≤ 32) (inside : bucket < 2 ^ k) :
    {key | indexBucket (2 ^ k) key = bucket}.ncard = 2 ^ (32 - k) := by
  have spreads := (setWidth_spreads order).comp (bits_of_hash.comp indexHash_bijective)
  simp only [indexBucket_iff inside]
  exact spreads (BitVec.ofNat k bucket)

private theorem indexBucket_injective (order : 32 ≤ k) :
    Function.Injective (indexBucket (2 ^ k)) := by
  intro key other same
  have wide : ∀ key, indexBucket (2 ^ k) key = (indexHash key).toNat := fun key => by
    have bound : 2 ^ 32 ≤ 2 ^ k := Nat.pow_le_pow_right (by decide) order
    rw [indexBucket, Nat.and_two_pow_sub_one_eq_mod,
      Nat.mod_eq_of_lt (Nat.lt_of_lt_of_le (indexHash key).toNat_lt bound)]
  rw [wide, wide] at same
  exact indexHash_bijective.injective (UInt32.toNat_inj.mp same)

/-- However the keys of an index are chosen, its chains are no longer than the spread of the
hash allows. -/
theorem Index.Valid.chain_length_le (valid : index.Valid) (sized : index.bucketCount = 2 ^ k)
    (i : Nat) :
    (index.buckets.getD i []).length ≤ 2 ^ (32 - k) := by
  have keys := valid.chained.length_le i
  rw [sized] at keys
  by_cases order : k ≤ 32
  · by_cases inside : i < 2 ^ k
    · exact indexBucket_spreads order inside ▸ keys
    · have outside : index.buckets.length ≤ i := by
        rw [valid.slots, sized]
        exact Nat.le_of_not_lt inside
      simp [outside]
  · refine Nat.le_trans keys ?_
    rw [Nat.sub_eq_zero_of_le (Nat.le_of_not_le order), Nat.pow_zero]
    refine (Set.ncard_le_one_iff (Set.toFinite _)).mpr fun {key other} here there => ?_
    exact indexBucket_injective (Nat.le_of_not_le order) (here.trans there.symm)

/-- `index_hash` is a bijection from the keys to the 32-bit values. Of the keys, every
bucket of a table with `2 ^ k` buckets gets exactly `2 ^ (32 - k)`, and no two distinct
keys share their hash. -/
theorem index_hash_spreads :
    Function.Bijective indexHash ∧
      (∀ k, 4 ≤ k → k ≤ 32 → ∀ bucket < 2 ^ k,
        {key : Int32 | indexBucket (2 ^ k) key = bucket}.ncard = 2 ^ (32 - k)) ∧
      ∀ key other, key ≠ other → indexHash key ≠ indexHash other := by
  refine ⟨indexHash_bijective, fun k _ order bucket inside => indexBucket_spreads order inside, ?_⟩
  intro key other different same
  exact different (indexHash_bijective.injective same)

/-- The last bucket of a fresh table gets one key in sixteen. -/
theorem index_hash_spreads_initial :
    {key : Int32 | indexBucket INDEX_INITIAL_BUCKETS key = 15}.ncard = 2 ^ 28 :=
  index_hash_spreads.2.1 4 (by decide) (by decide) 15 (by decide)

end SqlEngine
