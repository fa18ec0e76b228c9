import Blorp.Runtime.Arithmetic
import Blorp.Runtime.Utf8

/-!
# Decimal texts of integers

`blorp_int64_decimal` of `runtime/string.brp` writes an integer backwards into a buffer of 20
bytes.  The magnitude is the machine's own, an unsigned 64-bit number.  The buffer is always
large enough, and what is written is the decimal form (blorpInt64Decimal_eq).
-/

namespace Blorp.Runtime

def minusByte : UInt8 := 45

/-- BLORP_INT64_DECIMAL_CAPACITY: at most one sign and 19 digits. -/
def int64DecimalCapacity : Nat := 20

/-! ## Writing -/

/-- Digits written back from `start`, the last one first; `none` is a write before the
buffer. -/
def writeDigits : Nat → UInt64 → Bytes → Option (Nat × Bytes)
  | 0, _, _ => none
  | start + 1, magnitude, written =>
      let written := (48 + magnitude % 10).toUInt8 :: written
      if magnitude / 10 ≠ 0 then writeDigits start (magnitude / 10) written
      else some (start, written)

/-- The magnitude is unsigned, because the least integer has no signed negation. -/
def int64Magnitude (value : Int64) : UInt64 :=
  if value < 0 then 0 - value.toUInt64 else value.toUInt64

def blorpInt64Decimal (value : Int64) : Option Bytes := do
  let (start, digits) ← writeDigits int64DecimalCapacity (int64Magnitude value) []
  if value < 0 then
    match start with
    | 0 => none
    | _ + 1 => some (minusByte :: digits)
  else some digits

/-! ## The decimal form -/

def digitBytes (digits : List Char) : Bytes := digits.map fun digit => digit.toNat.toUInt8

def decimalForm (value : Int) : Bytes :=
  (if value < 0 then [minusByte] else []) ++ digitBytes (Nat.toDigits 10 value.natAbs)

theorem digitByte (magnitude : UInt64) :
    (48 + magnitude % 10).toUInt8 = (Nat.digitChar (magnitude.toNat % 10)).toNat.toUInt8 := by
  have hdigit : ∀ digit : Fin 10,
      UInt8.ofNat (48 + digit) = (Nat.digitChar digit).toNat.toUInt8 := by
    decide
  have hlt : magnitude.toNat % 10 < 10 := Nat.mod_lt _ (by decide)
  refine Eq.trans ?_ (hdigit ⟨magnitude.toNat % 10, hlt⟩)
  refine UInt8.toNat_inj.mp ?_
  simp only [UInt64.toNat_toUInt8, UInt64.toNat_add, UInt64.toNat_mod, UInt64.reduceToNat,
    UInt8.toNat_ofNat']
  omega

theorem writeDigits_eq : ∀ (start : Nat) (magnitude : UInt64) (written : Bytes),
    (Nat.toDigits 10 magnitude.toNat).length ≤ start →
    writeDigits start magnitude written =
      some (start - (Nat.toDigits 10 magnitude.toNat).length,
        digitBytes (Nat.toDigits 10 magnitude.toNat) ++ written) := by
  intro start
  induction start with
  | zero =>
    intro magnitude written h
    have := Nat.length_toDigits_pos (b := 10) (n := magnitude.toNat)
    omega
  | succ start ih =>
    intro magnitude written h
    have hdiv : (magnitude / 10).toNat = magnitude.toNat / 10 := UInt64.toNat_div _ _
    unfold writeDigits
    simp only [digitByte]
    rw [Nat.toDigits_eq_if (by decide)] at h ⊢
    by_cases hlast : magnitude.toNat < 10
    · have hzero : magnitude / 10 = 0 := UInt64.toNat_inj.mp (by rw [hdiv]; simp; omega)
      simp [hlast, hzero, digitBytes, Nat.mod_eq_of_lt hlast]
    · have hmore : magnitude / 10 ≠ 0 := by
        intro heq
        have := congrArg UInt64.toNat heq
        rw [hdiv] at this
        simp at this
        omega
      simp only [hlast, ↓reduceIte, List.length_append, List.length_singleton] at h ⊢
      rw [if_pos hmore, ih _ _ (by rw [hdiv]; omega), hdiv]
      simp [digitBytes]

theorem int64Magnitude_toNat (value : Int64) :
    (int64Magnitude value).toNat = value.toInt.natAbs := by
  have hcond := BitVec.toInt_eq_toNat_cond value.toBitVec
  rw [Int64.toInt_toBitVec, Int64.toNat_toBitVec] at hcond
  have hbound := value.toUInt64.toNat_lt
  have hlow := value.le_toInt
  unfold int64Magnitude
  by_cases hnegative : value < 0
  · have hsign : value.toInt < 0 := by simpa [Int64.lt_iff_toInt_lt] using hnegative
    rw [if_pos hnegative, UInt64.toNat_sub]
    simp only [UInt64.reduceToNat]
    split at hcond <;> omega
  · have hsign : 0 ≤ value.toInt := by simpa [Int64.lt_iff_toInt_lt] using hnegative
    rw [if_neg hnegative]
    split at hcond <;> omega

/-- **Every integer has its decimal form written**, which the buffer has room for. -/
theorem blorpInt64Decimal_eq (value : Int64) :
    blorpInt64Decimal value = some (decimalForm value.toInt) ∧
      (decimalForm value.toInt).length ≤ int64DecimalCapacity := by
  have hlength : (Nat.toDigits 10 value.toInt.natAbs).length ≤ 19 := by
    rw [Nat.length_toDigits_le_iff (by decide) (by decide)]
    have hlow := value.le_toInt
    have hhigh := value.toInt_lt
    omega
  have hsign : value < 0 ↔ value.toInt < 0 := by simp [Int64.lt_iff_toInt_lt]
  unfold blorpInt64Decimal decimalForm int64DecimalCapacity
  rw [writeDigits_eq _ _ _ (by rw [int64Magnitude_toNat]; omega), int64Magnitude_toNat]
  obtain ⟨left, hleft⟩ := Nat.exists_eq_add_of_le hlength
  have hroom : 20 - (Nat.toDigits 10 value.toInt.natAbs).length = left + 1 := by omega
  constructor
  · by_cases hnegative : value.toInt < 0 <;> simp [hsign, hnegative, hroom]
  · simp only [digitBytes, List.length_append, List.length_map]
    split <;> simp <;> omega

end Blorp.Runtime
