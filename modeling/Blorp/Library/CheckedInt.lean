import Blorp.Runtime.Arithmetic

/-!
# Checked Int arithmetic

The checked operations of `standard_library/int.brp`, over the C functions that the Int
operators run.  A computation keeps its result, unless C leaves an operation on the way
undefined, and whether an operation on the way wrapped.
-/

namespace Blorp.Library

open Blorp.Runtime

inductive MathError where
  | divisionByZero
  | overflow
  deriving DecidableEq

/-- The result of a computation, `none` once C leaves an operation undefined, and whether an
operation wrapped. -/
structure Computed (α : Type) where
  result : Option α
  wrapped : Bool
  deriving DecidableEq

namespace Computed

variable {α β : Type}

def bind (first : Computed α) (next : α → Computed β) : Computed β :=
  match first.result with
  | none => ⟨none, first.wrapped⟩
  | some value => ⟨(next value).result, first.wrapped || (next value).wrapped⟩

instance : Monad Computed where
  pure value := ⟨some value, false⟩
  bind := bind

@[simp] theorem pure_eq (value : α) : (pure value : Computed α) = ⟨some value, false⟩ := rfl

@[simp] theorem some_bind (value : α) (wrapped : Bool) (next : α → Computed β) :
    ((⟨some value, wrapped⟩ : Computed α) >>= next) =
      ⟨(next value).result, wrapped || (next value).wrapped⟩ := rfl

def operation (result : Option Int64) (exact : Int) : Computed Int64 :=
  ⟨result, decide (¬ Representable exact)⟩

theorem operation_exact {result : Int64} {exact : Int} (h : result.toInt = exact) :
    operation (some result) exact = ⟨some result, false⟩ := by
  subst h
  simp [operation, representable_toInt]

end Computed

open Computed

/-! ## Operators -/

def intMin : Int64 := Int64.minValue

def intMax : Int64 := Int64.maxValue

def add (left right : Int64) : Computed Int64 :=
  operation (blorpIntAdd left right) (left.toInt + right.toInt)

def subtract (left right : Int64) : Computed Int64 :=
  operation (blorpIntSubtract left right) (left.toInt - right.toInt)

def multiply (left right : Int64) : Computed Int64 :=
  operation (blorpIntMultiply left right) (left.toInt * right.toInt)

def divide (left right : Int64) : Computed Int64 :=
  operation (blorpIntDivide left right) (left.toInt.tdiv right.toInt)

def remainder (left right : Int64) : Computed Int64 :=
  operation (blorpIntRemainder left right) (left.toInt.tmod right.toInt)

/-- Subtraction wraps, so the negation of the least Int is itself. -/
def negate (value : Int64) : Computed Int64 := subtract 0 value

/-! ## Checked operations -/

abbrev Checked := Computed (Except MathError Int64)

def fails (error : MathError) : Checked := pure (.error error)

def succeeds (value : Computed Int64) : Checked := do
  let result ← value
  pure (.ok result)

def addChecked (left right : Int64) : Checked := do
  if right > 0 then
    let bound ← subtract intMax right
    if left > bound then fails .overflow else succeeds (add left right)
  else
    let bound ← subtract intMin right
    if left < bound then fails .overflow else succeeds (add left right)

def subtractChecked (left right : Int64) : Checked := do
  if right < 0 then
    let bound ← add intMax right
    if left > bound then fails .overflow else succeeds (subtract left right)
  else
    let bound ← add intMin right
    if left < bound then fails .overflow else succeeds (subtract left right)

def negateChecked (value : Int64) : Checked :=
  if value = intMin then fails .overflow else succeeds (negate value)

/-- For `left` other than 0 and -1, a wrapped product never divides back to `right`. -/
def multiplyChecked (left right : Int64) : Checked :=
  if left = 0 then pure (.ok 0)
  else if left = -1 then negateChecked right
  else do
    let product ← multiply left right
    let quotient ← divide product left
    if quotient = right then pure (.ok product) else fails .overflow

def divideChecked (left right : Int64) : Checked :=
  if right = 0 then fails .divisionByZero
  else if right = -1 then negateChecked left
  else succeeds (divide left right)

/-- The least Int has remainder 0 by -1, so only a zero divisor fails. -/
def remainderChecked (left right : Int64) : Checked :=
  if right = 0 then fails .divisionByZero else succeeds (remainder left right)

/-! ## Exactness -/

def narrowed (exact : Int) : Except MathError Int64 :=
  if Representable exact then .ok (Int64.ofInt exact) else .error .overflow

/-- A result by a divisor, which must not be 0. -/
def narrowedBy (divisor : Int64) (exact : Int) : Except MathError Int64 :=
  if divisor = 0 then .error .divisionByZero else narrowed exact

variable {exact : Int} {value : Int64} {computed : Computed Int64}

theorem narrowed_eq_ok : narrowed exact = .ok value ↔ value.toInt = exact := by
  unfold narrowed
  split_ifs with h
  · rw [Except.ok.injEq, ← Int64.toInt_inj, toInt_ofInt_of_representable h]
    exact eq_comm
  · constructor
    · intro hok
      cases hok
    · rintro rfl
      exact absurd (representable_toInt value) h

theorem narrowed_eq_error {error : MathError} :
    narrowed exact = .error error ↔ ¬ Representable exact ∧ error = .overflow := by
  unfold narrowed
  split_ifs with h
  · simp [h]
  · simp [h, eq_comm]

theorem succeeds_eq (hcomputed : computed = ⟨some value, false⟩) (hexact : value.toInt = exact) :
    succeeds computed = ⟨some (narrowed exact), false⟩ := by
  rw [narrowed_eq_ok.mpr hexact, hcomputed]
  rfl

theorem bounded_bind {bound : Int64} {next : Int64 → Checked}
    {result : Option (Except MathError Int64)} (hbound : computed = ⟨some bound, false⟩)
    (hnext : next bound = ⟨result, false⟩) : (computed >>= next) = ⟨result, false⟩ := by
  rw [hbound, some_bind, hnext, Bool.false_or]

theorem guarded_eq {p : Prop} [Decidable p] (hp : p ↔ ¬ Representable exact)
    (hcomputed : Representable exact → computed = ⟨some value, false⟩)
    (hvalue : Representable exact → value.toInt = exact) :
    (if p then fails .overflow else succeeds computed) = ⟨some (narrowed exact), false⟩ := by
  by_cases h : p
  · rw [if_pos h, narrowed_eq_error.mpr ⟨hp.mp h, rfl⟩]
    rfl
  · have hfits : Representable exact := by
      rw [hp, not_not] at h
      exact h
    rw [if_neg h, succeeds_eq (hcomputed hfits) (hvalue hfits)]

section

variable {left right : Int64}

theorem toInt_add_of_representable (h : Representable (left.toInt + right.toInt)) :
    (left + right).toInt = left.toInt + right.toInt := by
  rw [Int64.toInt_add]
  exact Int.bmod_eq_of_le (by have := h.1; omega) (by have := h.2; omega)

theorem toInt_sub_of_representable (h : Representable (left.toInt - right.toInt)) :
    (left - right).toInt = left.toInt - right.toInt := by
  rw [Int64.toInt_sub]
  exact Int.bmod_eq_of_le (by have := h.1; omega) (by have := h.2; omega)

theorem toInt_mul_of_representable (h : Representable (left.toInt * right.toInt)) :
    (left * right).toInt = left.toInt * right.toInt := by
  rw [Int64.toInt_mul]
  exact Int.bmod_eq_of_le (by have := h.1; omega) (by have := h.2; omega)

theorem add_eq (h : Representable (left.toInt + right.toInt)) :
    add left right = ⟨some (left + right), false⟩ := by
  rw [add, blorpIntAdd_eq, operation_exact (toInt_add_of_representable h)]

theorem subtract_eq (h : Representable (left.toInt - right.toInt)) :
    subtract left right = ⟨some (left - right), false⟩ := by
  rw [subtract, blorpIntSubtract_eq, operation_exact (toInt_sub_of_representable h)]

theorem toInt_div_of_ne (h : ¬ (left = Int64.minValue ∧ right = -1)) :
    (left / right).toInt = left.toInt.tdiv right.toInt := by
  have hfits := representable_tdiv h
  rw [Int64.toInt_div]
  exact Int.bmod_eq_of_le (by have := hfits.1; omega) (by have := hfits.2; omega)

theorem divide_eq (hzero : right ≠ 0) (h : ¬ (left = Int64.minValue ∧ right = -1)) :
    divide left right = ⟨some (left / right), false⟩ := by
  rw [divide, blorpIntDivide_eq hzero, operation_exact (toInt_div_of_ne h)]

theorem toInt_intMax : intMax.toInt = 2 ^ 63 - 1 := by decide

theorem toInt_intMin : intMin.toInt = -2 ^ 63 := by decide

/-! ### The bounds of a sum and of a difference -/

theorem representable_max_sub (h : 0 < right.toInt) :
    Representable (intMax.toInt - right.toInt) := by
  obtain ⟨-, hhigh⟩ := representable_toInt right
  rw [toInt_intMax]
  exact ⟨by omega, by omega⟩

theorem representable_min_sub (h : ¬ 0 < right.toInt) :
    Representable (intMin.toInt - right.toInt) := by
  obtain ⟨hlow, -⟩ := representable_toInt right
  rw [toInt_intMin]
  exact ⟨by omega, by omega⟩

theorem representable_max_add (h : right.toInt < 0) :
    Representable (intMax.toInt + right.toInt) := by
  obtain ⟨hlow, -⟩ := representable_toInt right
  rw [toInt_intMax]
  exact ⟨by omega, by omega⟩

theorem representable_min_add (h : ¬ right.toInt < 0) :
    Representable (intMin.toInt + right.toInt) := by
  obtain ⟨-, hhigh⟩ := representable_toInt right
  rw [toInt_intMin]
  exact ⟨by omega, by omega⟩

theorem above_max_sub (h : 0 < right.toInt) :
    left > intMax - right ↔ ¬ Representable (left.toInt + right.toInt) := by
  obtain ⟨hlow, -⟩ := representable_toInt left
  rw [gt_iff_lt, Int64.lt_iff_toInt_lt, toInt_sub_of_representable (representable_max_sub h),
    toInt_intMax, Representable]
  omega

theorem below_min_sub (h : ¬ 0 < right.toInt) :
    left < intMin - right ↔ ¬ Representable (left.toInt + right.toInt) := by
  obtain ⟨-, hhigh⟩ := representable_toInt left
  rw [Int64.lt_iff_toInt_lt, toInt_sub_of_representable (representable_min_sub h),
    toInt_intMin, Representable]
  omega

theorem above_max_add (h : right.toInt < 0) :
    left > intMax + right ↔ ¬ Representable (left.toInt - right.toInt) := by
  obtain ⟨hlow, -⟩ := representable_toInt left
  rw [gt_iff_lt, Int64.lt_iff_toInt_lt, toInt_add_of_representable (representable_max_add h),
    toInt_intMax, Representable]
  omega

theorem below_min_add (h : ¬ right.toInt < 0) :
    left < intMin + right ↔ ¬ Representable (left.toInt - right.toInt) := by
  obtain ⟨-, hhigh⟩ := representable_toInt left
  rw [Int64.lt_iff_toInt_lt, toInt_add_of_representable (representable_min_add h),
    toInt_intMin, Representable]
  omega

variable (left right)

theorem addChecked_eq :
    addChecked left right = ⟨some (narrowed (left.toInt + right.toInt)), false⟩ := by
  unfold addChecked
  by_cases hpos : right > 0
  · rw [if_pos hpos]
    rw [gt_iff_lt, Int64.lt_iff_toInt_lt, Int64.toInt_zero] at hpos
    exact bounded_bind (subtract_eq (representable_max_sub hpos))
      (guarded_eq (above_max_sub hpos) add_eq toInt_add_of_representable)
  · rw [if_neg hpos]
    rw [gt_iff_lt, Int64.lt_iff_toInt_lt, Int64.toInt_zero] at hpos
    exact bounded_bind (subtract_eq (representable_min_sub hpos))
      (guarded_eq (below_min_sub hpos) add_eq toInt_add_of_representable)

theorem subtractChecked_eq :
    subtractChecked left right = ⟨some (narrowed (left.toInt - right.toInt)), false⟩ := by
  unfold subtractChecked
  by_cases hneg : right < 0
  · rw [if_pos hneg]
    rw [Int64.lt_iff_toInt_lt, Int64.toInt_zero] at hneg
    exact bounded_bind (add_eq (representable_max_add hneg))
      (guarded_eq (above_max_add hneg) subtract_eq toInt_sub_of_representable)
  · rw [if_neg hneg]
    rw [Int64.lt_iff_toInt_lt, Int64.toInt_zero] at hneg
    exact bounded_bind (add_eq (representable_min_add hneg))
      (guarded_eq (below_min_add hneg) subtract_eq toInt_sub_of_representable)

theorem negateChecked_eq : negateChecked left = ⟨some (narrowed (-left.toInt)), false⟩ := by
  obtain ⟨hlow, hhigh⟩ := representable_toInt left
  have hzero : (0 : Int64).toInt - left.toInt = -left.toInt := by
    rw [Int64.toInt_zero]
    omega
  have htest : left = intMin ↔ ¬ Representable (-left.toInt) := by
    rw [← Int64.toInt_inj, toInt_intMin, Representable]
    omega
  have hnegate (h : Representable (-left.toInt)) : negate left = ⟨some (0 - left), false⟩ :=
    subtract_eq (hzero ▸ h)
  refine guarded_eq htest hnegate fun h => ?_
  rw [toInt_sub_of_representable (hzero ▸ h), hzero]

theorem eq_mul_of_tdiv {left right product : Int} (hbound : left.natAbs < 2 ^ 64)
    (hleft : left ≠ 0) (hwrap : (2 ^ 64 : Int) ∣ product - left * right)
    (hback : product.tdiv left = right) : product = left * right := by
  have hsplit : left * right + product.tmod left = product := by
    rw [← hback]
    exact Int.mul_tdiv_add_tmod product left
  have hrest : (product.tmod left).natAbs < left.natAbs := by
    rw [Int.natAbs_tmod]
    exact Nat.mod_lt _ (Int.natAbs_pos.mpr hleft)
  omega

/-- For `left` other than 0 and -1, whose quotients do not wrap. -/
theorem divides_back (hzero : left ≠ 0) (hone : left ≠ -1) :
    left * right / left = right ↔ Representable (left.toInt * right.toInt) := by
  have hne : left.toInt ≠ 0 := fun h => hzero (toInt_eq_zero.mp h)
  have hquotient : (left * right / left).toInt = (left * right).toInt.tdiv left.toInt :=
    toInt_div_of_ne fun h => hone h.2
  rw [← Int64.toInt_inj, hquotient]
  constructor
  · intro hback
    have hexact : (left * right).toInt = left.toInt * right.toInt := by
      refine eq_mul_of_tdiv ?_ hne ?_ hback
      · obtain ⟨hlow, hhigh⟩ := representable_toInt left
        omega
      · rw [Int64.toInt_mul]
        exact Int.dvd_bmod_sub_self
    rw [← hexact]
    exact representable_toInt _
  · intro hfits
    rw [toInt_mul_of_representable hfits]
    exact Int.mul_tdiv_cancel_left _ hne

theorem multiplyChecked_eq : ∃ wrapped, multiplyChecked left right =
        ⟨some (narrowed (left.toInt * right.toInt)), wrapped⟩ ∧
      (wrapped = true → ¬ Representable (left.toInt * right.toInt)) := by
  unfold multiplyChecked
  by_cases hzero : left = 0
  · refine ⟨false, ?_, fun h => absurd h (by decide)⟩
    rw [if_pos hzero, hzero, Int64.toInt_zero, Int.zero_mul, pure_eq]
    rfl
  by_cases hone : left = -1
  · refine ⟨false, ?_, fun h => absurd h (by decide)⟩
    rw [if_neg hzero, if_pos hone, negateChecked_eq, hone]
    have hneg : (-1 : Int64).toInt * right.toInt = -right.toInt := by
      rw [← Int.neg_one_mul]
      rfl
    rw [hneg]
  · refine ⟨decide (¬ Representable (left.toInt * right.toInt)), ?_, of_decide_eq_true⟩
    have hpair : ¬ (left * right = Int64.minValue ∧ left = -1) := fun h => hone h.2
    rw [if_neg hzero, if_neg hone, multiply, blorpIntMultiply_eq, operation, some_bind,
      divide_eq hzero hpair, some_bind]
    have hback := divides_back left right hzero hone
    by_cases hfits : Representable (left.toInt * right.toInt)
    · rw [if_pos (hback.mpr hfits), narrowed_eq_ok.mpr (toInt_mul_of_representable hfits)]
      simp
    · rw [if_neg (mt hback.mp hfits), narrowed_eq_error.mpr ⟨hfits, rfl⟩]
      simp [fails]

theorem divideChecked_eq : divideChecked left right =
      ⟨some (narrowedBy right (left.toInt.tdiv right.toInt)), false⟩ := by
  unfold divideChecked narrowedBy
  by_cases hzero : right = 0
  · rw [if_pos hzero, if_pos hzero]
    rfl
  rw [if_neg hzero, if_neg hzero]
  by_cases hone : right = -1
  · have hneg : left.toInt.tdiv (-1 : Int64).toInt = -left.toInt := by
      rw [← Int.tdiv_one left.toInt, ← Int.tdiv_neg, Int.tdiv_one]
      rfl
    rw [if_pos hone, negateChecked_eq, hone, hneg]
  · have hpair : ¬ (left = Int64.minValue ∧ right = -1) := fun h => hone h.2
    rw [if_neg hone, succeeds_eq (divide_eq hzero hpair) (toInt_div_of_ne hpair)]

theorem remainderChecked_eq : remainderChecked left right =
      ⟨some (narrowedBy right (left.toInt.tmod right.toInt)), false⟩ := by
  unfold remainderChecked narrowedBy
  by_cases hzero : right = 0
  · rw [if_pos hzero, if_pos hzero]
    rfl
  · have hexact : (left % right).toInt = left.toInt.tmod right.toInt := Int64.toInt_mod ..
    have hremainder : remainder left right = ⟨some (left % right), false⟩ := by
      rw [remainder, blorpIntRemainder_eq hzero, operation_exact hexact]
    rw [if_neg hzero, if_neg hzero, succeeds_eq hremainder hexact]

/-- Every checked operation returns the mathematical result where it is an Int and the
divisor is not 0, and the error otherwise.  No operation on the way traps; one wraps only in a
multiplication that reports an overflow. -/
theorem checked_exact :
    addChecked left right = ⟨some (narrowed (left.toInt + right.toInt)), false⟩ ∧
    subtractChecked left right = ⟨some (narrowed (left.toInt - right.toInt)), false⟩ ∧
    negateChecked left = ⟨some (narrowed (-left.toInt)), false⟩ ∧
    (∃ wrapped, multiplyChecked left right =
        ⟨some (narrowed (left.toInt * right.toInt)), wrapped⟩ ∧
      (wrapped = true → ¬ Representable (left.toInt * right.toInt))) ∧
    divideChecked left right =
      ⟨some (narrowedBy right (left.toInt.tdiv right.toInt)), false⟩ ∧
    remainderChecked left right =
      ⟨some (narrowedBy right (left.toInt.tmod right.toInt)), false⟩ :=
  ⟨addChecked_eq left right, subtractChecked_eq left right, negateChecked_eq left,
    multiplyChecked_eq left right, divideChecked_eq left right, remainderChecked_eq left right⟩

example : multiplyChecked intMin (-1) = ⟨some (.error .overflow), true⟩ ∧
    divideChecked intMin (-1) = ⟨some (.error .overflow), false⟩ ∧
    remainderChecked intMin (-1) = ⟨some (.ok 0), false⟩ := by decide

end

end Blorp.Library
