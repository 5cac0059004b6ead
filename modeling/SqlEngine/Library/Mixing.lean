import Mathlib.Algebra.Ring.Parity
import Mathlib.Data.FinEnum
import Mathlib.Data.Set.Card
import Mathlib.Data.Nat.ModEq
import Mathlib.Data.Nat.Prime.Basic

/-! Mixing of fixed-width words, and functions that spread their arguments evenly.

A mixer is a chain of steps that lose nothing: xor with a right shift of the word itself,
and multiplication by an odd constant. Whatever spreads evenly still does so behind a
mixer. -/
namespace SqlEngine.Library.Mixing

variable {α β γ : Type} {f : α → β} {g : β → γ} {width shift low count : Nat}

/-! ## Steps of a mixer -/

/-- Xor a word with its own right shift. -/
def xorShift (shift : Nat) (word : BitVec width) : BitVec width := word ^^^ (word >>> shift)

/-- Xor-shifts are linear over exclusive or. -/
theorem xorShift_xor (left right : BitVec width) :
    xorShift shift (left ^^^ right) = xorShift shift left ^^^ xorShift shift right := by
  simp only [xorShift, BitVec.ushiftRight_xor_distrib]
  ac_rfl

private theorem xorShift_zero {word : BitVec width} (positive : 0 < shift)
    (cancels : xorShift shift word = 0) : word = 0 := by
  have unmoved : word = word >>> shift := BitVec.xor_eq_zero_iff.mp cancels
  have quotient : word.toNat = word.toNat / 2 ^ shift := by
    rw [← Nat.shiftRight_eq_div_pow, ← BitVec.toNat_ushiftRight, ← unmoved]
  apply BitVec.eq_of_toNat_eq
  by_contra nonzero
  have smaller := Nat.div_lt_self (Nat.pos_of_ne_zero (by simpa using nonzero))
    (Nat.one_lt_two_pow (Nat.ne_of_gt positive))
  omega

theorem xorShift_injective (positive : 0 < shift) :
    Function.Injective (xorShift shift : BitVec width → BitVec width) := by
  intro left right same
  have cancels : xorShift shift (left ^^^ right) = 0 := by
    rw [xorShift_xor, same]
    exact BitVec.xor_self
  exact BitVec.xor_eq_zero_iff.mp (xorShift_zero positive cancels)

theorem xorShift_bijective (positive : 0 < shift) :
    Function.Bijective (xorShift shift : BitVec width → BitVec width) :=
  Finite.injective_iff_bijective.mp (xorShift_injective positive)

theorem mul_injective {factor : BitVec width} (odd : Odd factor.toNat) :
    Function.Injective (· * factor) := by
  intro left right same
  have coprime : Nat.gcd (2 ^ width) factor.toNat = 1 :=
    Nat.Coprime.pow_left width (Nat.coprime_two_left.mpr odd)
  have products : left.toNat * factor.toNat ≡ right.toNat * factor.toNat [MOD 2 ^ width] := by
    have equal : (left * factor).toNat = (right * factor).toNat := congrArg BitVec.toNat same
    rwa [BitVec.toNat_mul, BitVec.toNat_mul] at equal
  have residues := Nat.ModEq.cancel_right_of_coprime coprime products
  exact BitVec.eq_of_toNat_eq (residues.eq_of_lt_of_lt left.isLt right.isLt)

/-- Multiplication by an odd factor loses no word. -/
theorem mul_bijective {factor : BitVec width} (odd : Odd factor.toNat) :
    Function.Bijective (· * factor) :=
  Finite.injective_iff_bijective.mp (mul_injective odd)

/-! ## Even spreading -/

/-- Every value is taken at exactly `count` arguments. -/
def Spreads (f : α → β) (count : Nat) : Prop :=
  ∀ value, {argument | f argument = value}.ncard = count

theorem Spreads.comp (spreads : Spreads g count) (bijective : Function.Bijective f) :
    Spreads (g ∘ f) count := by
  intro value
  have preimage :=
    Set.ncard_preimage_of_injective_subset_range (s := {argument | g argument = value})
    bijective.injective (by simp [bijective.surjective.range_eq])
  exact preimage.trans (spreads value)

/-- The low bits of a word leave its high bits free. -/
theorem setWidth_spreads (order : low ≤ width) :
    Spreads (BitVec.setWidth low : BitVec width → BitVec low) (2 ^ (width - low)) := by
  obtain ⟨high, rfl⟩ := Nat.exists_eq_add_of_le' order
  intro value
  have words : {word : BitVec (high + low) | word.setWidth low = value} =
      Set.range fun front : BitVec high => front ++ value := by
    ext word
    constructor
    · rintro rfl
      refine ⟨word.extractLsb' low high, ?_⟩
      dsimp only
      rw [BitVec.setWidth_eq_extractLsb' order]
      exact BitVec.extractLsb'_append_extractLsb'
    · rintro ⟨front, rfl⟩
      exact BitVec.setWidth_append_eq_right
  have injective : Function.Injective fun front : BitVec high => front ++ value :=
    fun left right same => (BitVec.append_left_inj value).mp same
  rw [words, Set.ncard_range_of_injective injective, Nat.add_sub_cancel,
    Nat.card_congr FinEnum.equiv,
    Nat.card_fin, FinEnum.card_bitVec]

end SqlEngine.Library.Mixing
