import Mathlib

/-!
# Int arithmetic of the runtime

The C functions of `INTEGER_ADD_RUNTIME` and `INTEGER_ARITHMETIC_RUNTIME` in
`emit/emit.brp`.  Unsigned arithmetic wraps; a signed operation has a result only where C
defines one, and `none` stands for what C leaves undefined, such as the trap of a division.

None of the functions gets there: each computes the wrapped result of its operation
(blorpIntAdd_eq and the lemmas after it), a division by zero 0.
-/

namespace Blorp.Runtime

/-- The value is an `int64_t`. -/
def Representable (value : Int) : Prop := -2 ^ 63 ≤ value ∧ value < 2 ^ 63

instance (value : Int) : Decidable (Representable value) :=
  inferInstanceAs (Decidable (_ ∧ _))

/-- A signed result, or a cast to `int64_t`. -/
def signed (value : Int) : Option Int64 :=
  if Representable value then some (Int64.ofInt value) else none

/-- The sum of wrapped unsigned bits, using only representable signed casts. -/
def blorpIntSigned (value : UInt64) : Option Int64 :=
  if value.toNat < 2 ^ 63 then signed value.toNat
  else do
    let above ← signed (18446744073709551615 - value).toNat
    signed (-1 - above.toInt)

section

variable (first second : Int64)

def blorpIntAdd : Option Int64 :=
  blorpIntSigned (first.toUInt64 + second.toUInt64)

def blorpIntSubtract : Option Int64 :=
  blorpIntSigned (first.toUInt64 - second.toUInt64)

def blorpIntMultiply : Option Int64 :=
  blorpIntSigned (first.toUInt64 * second.toUInt64)

/-- `first / second` in C. -/
def signedQuotient : Option Int64 :=
  if second = 0 then none else signed (first.toInt.tdiv second.toInt)

/-- `first % second` in C, which is defined where the quotient is. -/
def signedRemainder : Option Int64 := do
  let _ ← signedQuotient first second
  signed (first.toInt.tmod second.toInt)

def blorpIntDivide : Option Int64 :=
  if second = 0 then some 0
  else if first = Int64.minValue ∧ second = -1 then some Int64.minValue
  else signedQuotient first second

def blorpIntRemainder : Option Int64 :=
  if second = 0 ∨ (first = Int64.minValue ∧ second = -1) then some 0
  else signedRemainder first second

end

/-! ## What they compute -/

theorem representable_toInt (value : Int64) : Representable value.toInt :=
  ⟨value.le_toInt, value.toInt_lt⟩

theorem toInt_ofInt_of_representable {value : Int} (h : Representable value) :
    (Int64.ofInt value).toInt = value := by
  obtain ⟨hlow, hhigh⟩ := h
  rw [Int64.toInt_ofInt]
  exact Int.bmod_eq_of_le (by simp [Int64.size]; omega) (by simp [Int64.size]; omega)

theorem signed_eq_some {value : Int} (h : Representable value) :
    signed value = some (Int64.ofInt value) :=
  if_pos h

theorem blorpIntSigned_eq (value : UInt64) : blorpIntSigned value = some value.toInt64 := by
  have hvalue : value.toInt64.toInt = (value.toNat : Int).bmod (2 ^ 64) := by
    rw [← Int64.toInt_toBitVec, UInt64.toBitVec_toInt64, BitVec.toInt_eq_toNat_bmod]
    rfl
  have hbound : value.toNat < 2 ^ 64 := value.toNat_lt
  unfold blorpIntSigned
  by_cases hlow : value.toNat < 2 ^ 63
  · rw [if_pos hlow, signed_eq_some ⟨by omega, by omega⟩]
    refine congrArg some (Int64.toInt_inj.mp ?_)
    rw [toInt_ofInt_of_representable ⟨by omega, by omega⟩, hvalue,
      Int.bmod_eq_of_le (by omega) (by omega)]
  · have habove : (18446744073709551615 - value).toNat = 2 ^ 64 - 1 - value.toNat := by
      have hle : value ≤ 18446744073709551615 := by
        rw [UInt64.le_iff_toNat_le]
        show value.toNat ≤ 18446744073709551615
        omega
      rw [UInt64.toNat_sub_of_le _ _ hle]
      rfl
    rw [if_neg hlow, habove]
    have hfirst : Representable ((2 ^ 64 - 1 - value.toNat : Nat) : Int) := ⟨by omega, by omega⟩
    have hsecond : Representable (-1 - ((2 ^ 64 - 1 - value.toNat : Nat) : Int)) :=
      ⟨by omega, by omega⟩
    rw [signed_eq_some hfirst, Option.bind_eq_bind, Option.bind_some,
      toInt_ofInt_of_representable hfirst, signed_eq_some hsecond]
    refine congrArg some (Int64.toInt_inj.mp ?_)
    rw [toInt_ofInt_of_representable hsecond, hvalue, Int.bmod_def]
    have hmod : (value.toNat : Int) % ((2 ^ 64 : Nat) : Int) = value.toNat :=
      Int.emod_eq_of_lt (by omega) (by omega)
    rw [hmod, if_neg (by omega)]
    omega

theorem blorpIntAdd_eq (first second : Int64) : blorpIntAdd first second = some (first + second) := by
  rw [blorpIntAdd, blorpIntSigned_eq, ← Int64.toUInt64_add, Int64.toInt64_toUInt64]

theorem blorpIntSubtract_eq (first second : Int64) :
    blorpIntSubtract first second = some (first - second) := by
  rw [blorpIntSubtract, blorpIntSigned_eq, ← Int64.toUInt64_sub, Int64.toInt64_toUInt64]

theorem blorpIntMultiply_eq (first second : Int64) :
    blorpIntMultiply first second = some (first * second) := by
  rw [blorpIntMultiply, blorpIntSigned_eq, ← Int64.toUInt64_mul, Int64.toInt64_toUInt64]

theorem toInt_eq_zero {value : Int64} : value.toInt = 0 ↔ value = 0 := by
  rw [← Int64.toInt_inj]
  rfl

variable {first second : Int64}

/-- The one quotient that is no `int64_t`. -/
theorem representable_tdiv (h : ¬ (first = Int64.minValue ∧ second = -1)) :
    Representable (first.toInt.tdiv second.toInt) := by
  obtain ⟨hlow, hhigh⟩ := representable_toInt first
  have habs : (first.toInt.tdiv second.toInt).natAbs = first.toInt.natAbs / second.toInt.natAbs :=
    Int.natAbs_tdiv _ _
  by_cases hwide : 2 ≤ second.toInt.natAbs
  · have hhalf : first.toInt.natAbs / second.toInt.natAbs ≤ first.toInt.natAbs / 2 :=
      Nat.div_le_div_left hwide (by decide)
    rw [← habs] at hhalf
    generalize first.toInt.tdiv second.toInt = quotient at hhalf ⊢
    constructor <;> omega
  · have hne : ¬ (first.toInt = -2 ^ 63 ∧ second.toInt = -1) := by
      rintro ⟨hfirst, hsecond⟩
      refine h ⟨Int64.toInt_inj.mp ?_, Int64.toInt_inj.mp hsecond⟩
      rw [hfirst, Int64.toInt_minValue]
    rcases (by omega : second.toInt = 0 ∨ second.toInt = 1 ∨ second.toInt = -1) with
      hsecond | hsecond | hsecond
    · rw [hsecond, Int.tdiv_zero]
      decide
    · rw [hsecond, Int.tdiv_one]
      exact ⟨hlow, hhigh⟩
    · rw [hsecond, Int.tdiv_neg, Int.tdiv_one]
      constructor <;> omega

theorem signedQuotient_eq (hzero : second ≠ 0) (h : ¬ (first = Int64.minValue ∧ second = -1)) :
    signedQuotient first second = some (first / second) := by
  have hfits := representable_tdiv h
  rw [signedQuotient, if_neg hzero, signed_eq_some hfits]
  refine congrArg some (Int64.toInt_inj.mp ?_)
  rw [toInt_ofInt_of_representable hfits, Int64.toInt_div]
  exact (Int.bmod_eq_of_le (by have := hfits.1; omega) (by have := hfits.2; omega)).symm

theorem blorpIntDivide_eq (hzero : second ≠ 0) :
    blorpIntDivide first second = some (first / second) := by
  rw [blorpIntDivide, if_neg hzero]
  split_ifs with h
  · rw [h.1, h.2]
    decide
  · exact signedQuotient_eq hzero h

theorem blorpIntRemainder_eq (hzero : second ≠ 0) :
    blorpIntRemainder first second = some (first % second) := by
  rw [blorpIntRemainder]
  split_ifs with h
  · obtain ⟨rfl, rfl⟩ := h.resolve_left hzero
    decide
  · have hother := fun hpair => h (.inr hpair)
    rw [signedRemainder, signedQuotient_eq hzero hother, Option.bind_eq_bind, Option.bind_some,
      ← Int64.toInt_mod, signed_eq_some (representable_toInt _), Int64.ofInt_toInt]

end Blorp.Runtime
