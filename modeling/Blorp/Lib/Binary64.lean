import Mathlib

/-!
# Exact binary64 arithmetic

Lean's `Float.Model` is IEEE binary64: an operation computes the exact result and rounds it to
the nearest float.  Where the exact result is a float already, rounding changes nothing:

    Denotes x p, Denotes y q, Representable (p * q)   gives   Denotes (mul x y) (p * q)

and the same for `sub`, `div` and the comparisons.  A float other than zero has one canonical
mantissa and exponent, and its exponent is the one that rounding aims at.
-/

namespace Binary64

open Float.Model (Format totalExponent UnpackedFloat)
open Float.Model.UnpackedFloat

/-! ## Values -/

/-- The number an unpacked float denotes, zero for the ones that denote none. -/
def unpackedRational : UnpackedFloat → ℚ
  | .finite sign mantissa exponent _ => sign.apply mantissa * 2 ^ exponent
  | _ => 0

def rational (x : Float.Model) : ℚ := unpackedRational x.unpack

/-- The mantissas and exponents of the positive floats, each float once. -/
structure Canonical (mantissa : Nat) (exponent : Int) : Prop where
  positive : 0 < mantissa
  bound : mantissa < 2 ^ 53
  least : -1074 ≤ exponent
  greatest : exponent ≤ 971
  normal : 2 ^ 52 ≤ mantissa ∨ exponent = -1074

inductive Representable : ℚ → Prop where
  | zero : Representable 0
  | positive {mantissa : Nat} {exponent : Int} (canonical : Canonical mantissa exponent) :
      Representable (mantissa * 2 ^ exponent)

/-- A float without a sign, and the number it is. -/
inductive Denotes : UnpackedFloat → ℚ → Prop where
  | zero : Denotes (.zero .positive) 0
  | finite {mantissa : Nat} {exponent : Int} (canonical : Canonical mantissa exponent)
      (hpos : 0 < mantissa) :
      Denotes (.finite .positive mantissa exponent hpos) (mantissa * 2 ^ exponent)

theorem two_zpow_pos (exponent : Int) : (0 : ℚ) < 2 ^ exponent :=
  zpow_pos (by norm_num) exponent

variable {p q : ℚ} {x y : UnpackedFloat} {first second mantissa raw : Nat} {low high exponent : Int}

theorem Representable.nonneg (h : Representable p) : 0 ≤ p := by
  induction h with
  | zero => exact le_rfl
  | positive canonical => positivity

theorem Denotes.representable (h : Denotes x p) : Representable p := by
  induction h with
  | zero => exact .zero
  | finite canonical hpos => exact .positive canonical

theorem mul_zpow_add (mantissa count : Nat) (exponent : Int) :
    ((mantissa * 2 ^ count : Nat) : ℚ) * 2 ^ exponent = mantissa * 2 ^ (exponent + count) := by
  rw [zpow_add₀ (by norm_num), zpow_natCast]
  push_cast
  ring

theorem mantissa_eq (hle : low ≤ high) (h : (first : ℚ) * 2 ^ low = second * 2 ^ high) :
    first = second * 2 ^ (high - low).toNat := by
  have hhigh : high = low + (high - low).toNat := by omega
  have hsame : (first : ℚ) * 2 ^ low = ((second * 2 ^ (high - low).toNat : Nat) : ℚ) * 2 ^ low := by
    rw [mul_zpow_add, ← hhigh, h]
  have := mul_right_cancel₀ (two_zpow_pos low).ne' hsame
  exact_mod_cast this

theorem log2_mul_two_pow (hpos : 0 < mantissa) (count : Nat) :
    (mantissa * 2 ^ count).log2 = mantissa.log2 + count := by
  induction count with
  | zero => simp
  | succ count ih =>
    have hne : mantissa * 2 ^ count ≠ 0 := by positivity
    rw [Nat.pow_succ, ← Nat.mul_assoc, Nat.mul_comm _ 2, Nat.log2_two_mul hne, ih]
    rfl

/-! ## The exponent that rounding aims at -/

def targetOf (mantissa : Nat) (exponent : Int) : Int :=
  Format.binary64.targetExponent (totalExponent mantissa exponent)

theorem targetOf_eq (mantissa : Nat) (exponent : Int) :
    targetOf mantissa exponent = max ((mantissa.log2 : Int) + exponent - 52) (-1074) := by
  have : (mantissa.log2 : Int) + 1 + exponent - 53 = (mantissa.log2 : Int) + exponent - 52 := by
    omega
  simp [targetOf, Format.targetExponent, totalExponent, Format.mantissaBits, Format.minExponent,
    this]

theorem targetOf_shift (hpos : 0 < mantissa) (exponent : Int) (count : Nat) :
    targetOf (mantissa * 2 ^ count) exponent = targetOf mantissa (exponent + count) := by
  rw [targetOf_eq, targetOf_eq, log2_mul_two_pow hpos]
  omega

theorem Canonical.targetOf (h : Canonical mantissa exponent) :
    targetOf mantissa exponent = exponent := by
  have hne : mantissa ≠ 0 := Nat.pos_iff_ne_zero.mp h.positive
  have hlog : mantissa.log2 < 53 := (Nat.log2_lt hne).mpr h.bound
  have hleast := h.least
  rw [targetOf_eq]
  rcases h.normal with hnormal | hsub
  · have : 52 ≤ mantissa.log2 := (Nat.le_log2 hne).mpr hnormal
    omega
  · omega

theorem representable_of (hbound : mantissa < 2 ^ 53) (hleast : -1074 ≤ exponent)
    (hgreatest : exponent ≤ 971) : Representable (mantissa * 2 ^ exponent) := by
  by_cases hzero : mantissa = 0
  · subst hzero
    simpa using Representable.zero
  · have hlog : mantissa.log2 < 53 := (Nat.log2_lt hzero).mpr hbound
    have hself := Nat.log2_self_le hzero
    have hlt := Nat.lt_log2_self (n := mantissa)
    have htarget := targetOf_eq mantissa exponent
    obtain ⟨count, hcount⟩ : ∃ count : Nat, exponent = targetOf mantissa exponent + count :=
      ⟨(exponent - targetOf mantissa exponent).toNat, by omega⟩
    generalize targetOf mantissa exponent = target at htarget hcount
    subst hcount
    rw [← mul_zpow_add]
    refine Representable.positive ⟨by positivity, ?_, by omega, by omega, ?_⟩
    · calc mantissa * 2 ^ count < 2 ^ (mantissa.log2 + 1) * 2 ^ count :=
          Nat.mul_lt_mul_of_pos_right hlt (by positivity)
        _ = 2 ^ (mantissa.log2 + 1 + count) := (Nat.pow_add ..).symm
        _ ≤ 2 ^ 53 := Nat.pow_le_pow_right (by omega) (by omega)
    · by_cases hleft : target = -1074
      · exact .inr hleft
      · refine .inl ?_
        calc 2 ^ 52 ≤ 2 ^ (mantissa.log2 + count) := Nat.pow_le_pow_right (by omega) (by omega)
          _ = 2 ^ mantissa.log2 * 2 ^ count := Nat.pow_add ..
          _ ≤ mantissa * 2 ^ count := Nat.mul_le_mul_right _ hself

theorem Canonical.two_zpow_le (h : Canonical mantissa exponent) :
    (2 : ℚ) ^ exponent ≤ mantissa * 2 ^ exponent := by
  have : (1 : ℚ) ≤ mantissa := by exact_mod_cast h.positive
  exact le_mul_of_one_le_left (two_zpow_pos exponent).le this

theorem Canonical.lt_two_zpow (h : Canonical mantissa exponent) :
    (mantissa : ℚ) * 2 ^ exponent < 2 ^ (53 + exponent) := by
  have hbound : (mantissa : ℚ) < 2 ^ 53 := by exact_mod_cast h.bound
  rw [zpow_add₀ (by norm_num)]
  exact mul_lt_mul_of_pos_right (by exact_mod_cast hbound) (two_zpow_pos exponent)

section

variable (h : Representable p)

include h

theorem Representable.half (hle : 2 ≤ p) : Representable (p / 2) := by
  induction h with
  | zero => norm_num at hle
  | @positive mantissa exponent canonical =>
    have hgreatest := canonical.greatest
    have hexponent : (1 : Int) < 53 + exponent := by
      have hlt := lt_of_le_of_lt hle canonical.lt_two_zpow
      exact (zpow_lt_zpow_iff_right₀ (by norm_num : (1 : ℚ) < 2)).mp (by simpa using hlt)
    have hhalf : (mantissa : ℚ) * 2 ^ exponent / 2 = mantissa * 2 ^ (exponent - 1) := by
      rw [zpow_sub_one₀ (by norm_num)]
      ring
    rw [hhalf]
    exact representable_of canonical.bound (by omega) (by omega)

theorem Representable.double (hlt : p < 1) : Representable (p * 2) := by
  induction h with
  | zero =>
    rw [zero_mul]
    exact .zero
  | @positive mantissa exponent canonical =>
    have hleast := canonical.least
    have hexponent : exponent < 0 := by
      have hpow := lt_of_le_of_lt canonical.two_zpow_le hlt
      exact (zpow_lt_zpow_iff_right₀ (by norm_num : (1 : ℚ) < 2)).mp (by simpa using hpow)
    have hdouble : (mantissa : ℚ) * 2 ^ exponent * 2 = mantissa * 2 ^ (exponent + 1) := by
      rw [zpow_add_one₀ (by norm_num)]
      ring
    rw [hdouble]
    exact representable_of canonical.bound (by omega) (by omega)

theorem Representable.least_le (hpos : 0 < p) : (2 : ℚ) ^ (-1074 : Int) ≤ p := by
  induction h with
  | zero => exact absurd hpos (lt_irrefl 0)
  | positive canonical =>
    refine le_trans ?_ canonical.two_zpow_le
    exact zpow_le_zpow_right₀ (by norm_num) canonical.least

theorem Representable.lt_greatest : p < (2 : ℚ) ^ (1024 : Int) := by
  induction h with
  | zero => exact two_zpow_pos 1024
  | positive canonical =>
    have hgreatest := canonical.greatest
    refine lt_of_lt_of_le canonical.lt_two_zpow ?_
    exact zpow_le_zpow_right₀ (by norm_num) (by omega)

theorem Representable.exists_fraction (hle : 1 ≤ p) (hlt : p < 2) :
    ∃ fraction : Nat, fraction < 2 ^ 52 ∧ p = 1 + (fraction : ℚ) / 2 ^ 52 := by
  induction h with
  | zero => norm_num at hle
  | @positive mantissa exponent canonical =>
    have hlow : (0 : Int) < 53 + exponent := by
      have hpow := lt_of_le_of_lt hle canonical.lt_two_zpow
      exact (zpow_lt_zpow_iff_right₀ (by norm_num : (1 : ℚ) < 2)).mp (by simpa using hpow)
    have hnormal : 2 ^ 52 ≤ mantissa := canonical.normal.resolve_right (by omega)
    have hfull : (2 : ℚ) ^ (52 + exponent) ≤ mantissa * 2 ^ exponent := by
      rw [zpow_add₀ (by norm_num)]
      refine mul_le_mul_of_nonneg_right ?_ (two_zpow_pos exponent).le
      exact_mod_cast hnormal
    have hhigh : 52 + exponent < 1 := by
      have hpow := lt_of_le_of_lt hfull hlt
      exact (zpow_lt_zpow_iff_right₀ (by norm_num : (1 : ℚ) < 2)).mp (by simpa using hpow)
    have hexponent : exponent = -52 := by omega
    subst hexponent
    obtain ⟨fraction, rfl⟩ := Nat.exists_eq_add_of_le hnormal
    have hbound := canonical.bound
    refine ⟨fraction, by omega, ?_⟩
    push_cast
    ring

end

/-! ## Rounding what needs none -/

theorem shiftRight_exact (count : Nat) : ∀ mantissa : Nat,
    (⟨mantissa * 2 ^ count, false, false⟩ : ExtendedMantissa) >>> count =
      ⟨mantissa, false, false⟩ := by
  induction count with
  | zero =>
    intro mantissa
    simp [HShiftRight.hShiftRight, Nat.repeat]
  | succ count ih =>
    intro mantissa
    have hsplit : mantissa * 2 ^ (count + 1) = (mantissa * 2) * 2 ^ count := by ring
    show ExtendedMantissa.shiftRightOne
      ((⟨mantissa * 2 ^ (count + 1), false, false⟩ : ExtendedMantissa) >>> count) = _
    rw [hsplit, ih]
    simp [ExtendedMantissa.shiftRightOne]

section

variable (h : Canonical mantissa exponent)

include h

theorem shiftToTarget_exact (count : Nat) :
    shiftToTargetExponent Format.binary64 (mantissa * 2 ^ count) (exponent - count) .exact =
      (⟨mantissa, false, false⟩, exponent) := by
  have htarget : targetOf (mantissa * 2 ^ count) (exponent - count) = exponent := by
    rw [targetOf_shift h.positive, Int.sub_add_cancel, h.targetOf]
  have hamount : (exponent - (exponent - (count : Int))).toNat = count := by omega
  show shiftToExponent _ _ _ (targetOf (mantissa * 2 ^ count) (exponent - count)) = _
  rw [htarget]
  simp only [shiftToExponent, hamount, ExtendedMantissa.ofMantissaAndAccuracy,
    shiftRight_exact, Int.sub_add_cancel]

theorem roundWithAccuracy_exact (sign : Sign) (count : Nat) :
    roundWithAccuracy Format.binary64 sign (mantissa * 2 ^ count) (exponent - count) .exact =
      .finite sign mantissa exponent h.positive := by
  have hagain := shiftToTarget_exact h 0
  simp only [Nat.pow_zero, Nat.mul_one, Nat.cast_zero, Int.sub_zero] at hagain
  have hrounded : (⟨mantissa, false, false⟩ : ExtendedMantissa).roundedMantissa = mantissa := rfl
  simp only [roundWithAccuracy, shiftToTarget_exact h, hrounded, hagain]
  rw [dif_neg (Nat.pos_iff_ne_zero.mp h.positive)]

/-- An exact writing with an exponent no greater than the float's own rounds to the float. -/
theorem roundWithAccuracy_value (sign : Sign) (hle : low ≤ exponent)
    (hvalue : (raw : ℚ) * 2 ^ low = mantissa * 2 ^ exponent) :
    roundWithAccuracy Format.binary64 sign raw low .exact =
      .finite sign mantissa exponent h.positive := by
  have hlow : low = exponent - ((exponent - low).toNat : Int) := by omega
  rw [mantissa_eq hle hvalue]
  conv_lhs => rw [hlow]
  have hsame : exponent - (exponent - ((exponent - low).toNat : Int)) = (exponent - low).toNat := by
    omega
  rw [hsame, Int.toNat_natCast]
  exact roundWithAccuracy_exact h sign _

theorem round_value {start : Int} (sign : Sign)
    (hvalue : (raw : ℚ) * 2 ^ start = mantissa * 2 ^ exponent) :
    round Format.binary64 sign raw start = .finite sign mantissa exponent h.positive := by
  have hraw : 0 < raw := by
    refine Nat.pos_of_ne_zero fun hzero => ?_
    subst hzero
    have : (0 : ℚ) < mantissa * 2 ^ exponent :=
      mul_pos (by exact_mod_cast h.positive) (two_zpow_pos exponent)
    rw [← hvalue] at this
    simp at this
  have htarget : targetOf raw start = exponent := by
    by_cases hle : start ≤ exponent
    · have hcast : start + ((exponent - start).toNat : Int) = exponent := by omega
      rw [mantissa_eq hle hvalue, targetOf_shift h.positive, hcast, h.targetOf]
    · have hcast : exponent + ((start - exponent).toNat : Int) = start := by omega
      have hmantissa := mantissa_eq (by omega) hvalue.symm
      rw [← hcast, ← targetOf_shift hraw, ← hmantissa, h.targetOf]
  show (let (shifted, low) := decreaseExponent raw start (targetOf raw start)
    roundWithAccuracy Format.binary64 sign shifted low .exact) = _
  simp only [decreaseExponent, Nat.shiftLeft_eq]
  refine roundWithAccuracy_value h sign (by omega) ?_
  rw [mul_zpow_add, Int.sub_add_cancel, hvalue]

end

/-! ## Packing -/

@[simp] theorem unpackSign_packComponents {spec : Format} {sign : Sign} {exponent mantissa} :
    unpackSign (packComponents spec sign exponent mantissa) = sign.toBitVec := by
  ext i hi
  have : i = 0 := by omega
  subst this
  simp [unpackSign, packComponents, BitVec.getLsbD_append, BitVec.getElem_append]

@[simp] theorem ofBitVec_toBitVec (sign : Sign) : Sign.ofBitVec sign.toBitVec = sign := by
  cases sign <;> rfl

theorem pack_eq_components (h : Canonical mantissa exponent) (sign : Sign) (hpos : 0 < mantissa) :
    UnpackedFloat.pack Format.binary64 (.finite sign mantissa exponent hpos) =
      packComponents Format.binary64 sign
        (BitVec.ofNat 11 (if 2 ^ 52 ≤ mantissa then (exponent + 1075).toNat else 0))
        (BitVec.ofNat 52 mantissa) := by
  have hne : mantissa ≠ 0 := Nat.pos_iff_ne_zero.mp hpos
  have hlog : mantissa.log2 < 53 := (Nat.log2_lt hne).mpr h.bound
  have hgreatest := h.greatest
  have hbiased : (exponent + (Format.binary64.exponentBias : Int) +
      (Format.binary64.mantissaBitsWithoutImplicit : Int)).toNat = (exponent + 1075).toNat := by
    show (exponent + 1023 + 52).toNat = _
    omega
  unfold UnpackedFloat.pack
  simp only [hbiased]
  rw [if_neg (show ¬ 2 ^ 11 ≤ (exponent + 1075).toNat + 1 by omega)]
  by_cases hnormal : 2 ^ 52 ≤ mantissa
  · have hlow : 52 ≤ mantissa.log2 := (Nat.le_log2 hne).mpr hnormal
    rw [if_pos (show mantissa.log2 + 1 = Format.binary64.mantissaBits from by
      show mantissa.log2 + 1 = 53; omega), if_pos hnormal]
  · have hhigh : mantissa.log2 < 52 := (Nat.log2_lt hne).mpr (by omega)
    rw [if_neg (show ¬ mantissa.log2 + 1 = Format.binary64.mantissaBits from by
      show ¬ mantissa.log2 + 1 = 53; omega), if_neg hnormal]

theorem implicit_toNat (mantissa : BitVec 52) :
    (1#1 ++ mantissa).toNat = 2 ^ 52 + mantissa.toNat := by
  rw [BitVec.toNat_append, ← Nat.shiftLeft_add_eq_or_of_lt mantissa.isLt]
  rfl

theorem unpack_normal {stored : Nat} {biased : Nat} (sign : Sign) (hpositive : 0 < biased)
    (hfinite : biased < 2047) (hstored : stored < 2 ^ 52) :
    UnpackedFloat.unpack Format.binary64
        (packComponents Format.binary64 sign (BitVec.ofNat 11 biased) (BitVec.ofNat 52 stored)) =
      .finite sign (2 ^ 52 + stored) (biased - 1075) (by omega) := by
  have htoNat : (BitVec.ofNat 11 biased).toNat = biased := Nat.mod_eq_of_lt (by omega)
  have hinfinite : BitVec.ofNat 11 biased ≠ -1#11 := by
    intro h
    have := congrArg BitVec.toNat h
    rw [htoNat] at this
    exact absurd this (show biased ≠ 2047 by omega)
  have hzero : BitVec.ofNat 11 biased ≠ 0#11 := by
    intro h
    have := congrArg BitVec.toNat h
    rw [htoNat] at this
    exact absurd this (show biased ≠ 0 by omega)
  have hmantissa : (1#1 ++ BitVec.ofNat 52 stored).toNat = 2 ^ 52 + stored := by
    rw [implicit_toNat, BitVec.toNat_ofNat, Nat.mod_eq_of_lt hstored]
  have hexponent : ((BitVec.ofNat 11 biased).toNat : Int) -
      (Format.binary64.exponentBias + Format.binary64.mantissaBitsWithoutImplicit) =
      biased - 1075 := by
    rw [htoNat]
    rfl
  unfold UnpackedFloat.unpack
  simp only [unpackExponent_packComponents, unpackMantissa_packComponents,
    unpackSign_packComponents, ofBitVec_toBitVec]
  rw [if_neg hinfinite, if_neg hzero]
  congr 1

theorem unpack_subnormal {stored : Nat} (sign : Sign) (hpos : 0 < stored)
    (hstored : stored < 2 ^ 52) :
    UnpackedFloat.unpack Format.binary64
        (packComponents Format.binary64 sign 0#11 (BitVec.ofNat 52 stored)) =
      .finite sign stored (-1074) hpos := by
  have htoNat : (BitVec.ofNat 52 stored).toNat = stored := Nat.mod_eq_of_lt hstored
  have hzero : BitVec.ofNat 52 stored ≠ 0#52 := by
    intro h
    have := congrArg BitVec.toNat h
    rw [htoNat] at this
    exact absurd this (show stored ≠ 0 by omega)
  unfold UnpackedFloat.unpack
  simp only [unpackExponent_packComponents, unpackMantissa_packComponents,
    unpackSign_packComponents, ofBitVec_toBitVec]
  rw [if_neg (by decide), if_pos trivial, dif_neg hzero]
  congr 1

theorem unpack_pack_finite (h : Canonical mantissa exponent) (sign : Sign) (hpos : 0 < mantissa) :
    (Float.Model.pack (.finite sign mantissa exponent hpos)).unpack =
      .finite sign mantissa exponent hpos := by
  have hbound := h.bound
  have hleast := h.least
  have hgreatest := h.greatest
  show UnpackedFloat.unpack Format.binary64
    (UnpackedFloat.pack Format.binary64 (.finite sign mantissa exponent hpos)) = _
  rw [pack_eq_components h]
  by_cases hnormal : 2 ^ 52 ≤ mantissa
  · have hstored : BitVec.ofNat 52 mantissa = BitVec.ofNat 52 (mantissa - 2 ^ 52) := by
      apply BitVec.eq_of_toNat_eq
      rw [BitVec.toNat_ofNat, BitVec.toNat_ofNat]
      omega
    have hmantissa : 2 ^ 52 + (mantissa - 2 ^ 52) = mantissa := Nat.add_sub_cancel' hnormal
    have hexponent : ((exponent + 1075).toNat : Int) - 1075 = exponent := by omega
    rw [if_pos hnormal, hstored, unpack_normal sign (by omega) (by omega) (by omega)]
    simp only [hmantissa, hexponent]
  · have hexponent : exponent = -1074 := h.normal.resolve_left hnormal
    subst hexponent
    rw [if_neg hnormal]
    exact unpack_subnormal sign hpos (by omega)

theorem canonical_of_unpack {x : Float.Model} {sign : Sign} {hpos : 0 < mantissa}
    (h : x.unpack = .finite sign mantissa exponent hpos) : Canonical mantissa exponent := by
  have hbias : ((Format.binary64.exponentBias : Int) +
      Format.binary64.mantissaBitsWithoutImplicit) = 1075 := rfl
  unfold Float.Model.unpack UnpackedFloat.unpack at h
  simp only [hbias] at h
  split at h
  · split at h <;> cases h
  · rename_i hinfinite
    have hfinite : (@unpackExponent Format.binary64 x.toBits.toBitVec).toNat ≠ 2047 :=
      fun heq => hinfinite (BitVec.eq_of_toNat_eq heq)
    split at h
    · rename_i hzero
      have hzero : (@unpackExponent Format.binary64 x.toBits.toBitVec).toNat = 0 := by
        rw [hzero]
        rfl
      split at h
      · cases h
      · injection h with _ hmantissa hexponent
        exact ⟨hpos, by omega, by omega, by omega, .inr (by omega)⟩
    · rename_i hzero
      have hpositive : (@unpackExponent Format.binary64 x.toBits.toBitVec).toNat ≠ 0 :=
        fun heq => hzero (BitVec.eq_of_toNat_eq heq)
      injection h with _ hmantissa hexponent
      have himplicit := implicit_toNat (@unpackMantissa Format.binary64 x.toBits.toBitVec)
      exact ⟨hpos, by omega, by omega, by omega, .inl (by omega)⟩

theorem Denotes.pack (h : Denotes x p) : Denotes (Float.Model.pack x).unpack p := by
  induction h with
  | zero => exact Denotes.zero
  | finite canonical hpos =>
    rw [unpack_pack_finite canonical]
    exact .finite canonical hpos

/-! ## Operations -/

theorem Denotes.rational_eq (h : Denotes x p) : unpackedRational x = p := by
  induction h with
  | zero => rfl
  | finite canonical hpos => simp [unpackedRational, Sign.apply]

theorem Denotes.round {start : Int} (hpos : 0 < p) (hp : Representable p)
    (hvalue : (raw : ℚ) * 2 ^ start = p) :
    Denotes (round Format.binary64 .positive raw start) p := by
  cases hp with
  | zero => exact absurd hpos (lt_irrefl 0)
  | positive canonical =>
    rw [round_value canonical .positive hvalue]
    exact .finite canonical canonical.positive

theorem Denotes.ofNat {n : Nat} (hbound : n < 2 ^ 53) : Denotes (Float.Model.ofNat n).unpack n := by
  apply Denotes.pack
  have hvalue : (n : ℚ) * 2 ^ (0 : Int) = n := by simp
  have hrepresentable := @representable_of n 0 hbound (by omega) (by omega)
  rw [hvalue] at hrepresentable
  by_cases hzero : n = 0
  · subst hzero
    exact Denotes.zero
  · have hpos : 0 < n := Nat.pos_of_ne_zero hzero
    have hcompare : compare (n : Int) 0 = .gt := by
      rw [compare_gt_iff_gt]
      omega
    show Denotes (UnpackedFloat.normalize Format.binary64 (n : Int) 0 .positive) n
    unfold UnpackedFloat.normalize
    rw [hcompare]
    exact Denotes.round (by exact_mod_cast hpos) hrepresentable hvalue

theorem product_exponent_le (hfirst : Canonical first low) (hsecond : Canonical second high)
    (h : Canonical mantissa exponent)
    (hvalue : ((first * second : Nat) : ℚ) * 2 ^ (low + high) = mantissa * 2 ^ exponent) :
    low + high ≤ exponent := by
  by_contra hlt
  have hmantissa := mantissa_eq (by omega) hvalue.symm
  have hbound := h.bound
  have hleast := h.least
  obtain ⟨count, hcount⟩ : ∃ count, (low + high - exponent).toNat = count + 1 :=
    ⟨(low + high - exponent).toNat - 1, by omega⟩
  rw [hcount, Nat.pow_succ] at hmantissa
  have hproduct : 2 ^ 52 ≤ first * second := by
    rcases hfirst.normal with hnormal | hsub
    · calc 2 ^ 52 ≤ first := hnormal
        _ ≤ first * second := Nat.le_mul_of_pos_right _ hsecond.positive
    · rcases hsecond.normal with hnormal | hsub'
      · calc 2 ^ 52 ≤ second := hnormal
          _ ≤ first * second := Nat.le_mul_of_pos_left _ hfirst.positive
      · omega
  have : first * second * 2 ≤ mantissa := by
    rw [hmantissa]
    calc first * second * 2 = first * second * (1 * 2) := by ring
      _ ≤ first * second * (2 ^ count * 2) :=
        Nat.mul_le_mul_left _ (Nat.mul_le_mul_right _ Nat.one_le_two_pow)
  omega

theorem Denotes.mul (hx : Denotes x p) (hy : Denotes y q) (h : Representable (p * q)) :
    Denotes (mul Format.binary64 x y) (p * q) := by
  induction hx with
  | zero =>
    rw [zero_mul]
    induction hy with
    | zero => exact Denotes.zero
    | finite canonical hpos => exact Denotes.zero
  | @finite first low hfirst hpos =>
    induction hy with
    | zero =>
      rw [mul_zero]
      exact Denotes.zero
    | @finite second high hsecond hpos' =>
      have hvalue : ((first * second : Nat) : ℚ) * 2 ^ (low + high) =
          first * 2 ^ low * (second * 2 ^ high) := by
        rw [zpow_add₀ (by norm_num)]
        push_cast
        ring
      rw [← hvalue] at h ⊢
      generalize hr : ((first * second : Nat) : ℚ) * 2 ^ (low + high) = r at h ⊢
      induction h with
      | zero =>
        have : (0 : ℚ) < ((first * second : Nat) : ℚ) * 2 ^ (low + high) :=
          mul_pos (by exact_mod_cast Nat.mul_pos hpos hpos') (two_zpow_pos _)
        exact absurd hr this.ne'
      | positive canonical =>
        have hle := product_exponent_le hfirst hsecond canonical hr
        show Denotes (roundWithAccuracy Format.binary64 .positive (first * second) (low + high)
          .exact) _
        rw [roundWithAccuracy_value canonical .positive hle hr]
        exact .finite canonical canonical.positive

theorem decrease_value (hle : low ≤ exponent) :
    (((decreaseExponent raw exponent low).1 : Nat) : ℚ) * 2 ^ low = raw * 2 ^ exponent := by
  simp only [decreaseExponent, Nat.shiftLeft_eq]
  rw [mul_zpow_add]
  congr 2
  omega

theorem Denotes.sub (hx : Denotes x p) (hy : Denotes y q) (h : Representable (p - q)) :
    Denotes (sub Format.binary64 x y) (p - q) := by
  have hnonneg := h.nonneg
  induction hy with
  | zero =>
    rw [sub_zero]
    induction hx with
    | zero => exact Denotes.zero
    | finite canonical hpos => exact .finite canonical hpos
  | @finite second high hsecond hpos' =>
    have hpositive : (0 : ℚ) < second * 2 ^ high :=
      mul_pos (by exact_mod_cast hpos') (two_zpow_pos _)
    induction hx with
    | zero => exact absurd hnonneg (by linarith)
    | @finite first low hfirst hpos =>
      have hvalue : (((decreaseExponent first low (min low high)).1 : ℚ) -
          (decreaseExponent second high (min low high)).1) * 2 ^ min low high =
          first * 2 ^ low - second * 2 ^ high := by
        rw [sub_mul, decrease_value (by omega), decrease_value (by omega)]
      show Denotes (UnpackedFloat.normalize Format.binary64
        (((decreaseExponent first low (min low high)).1 : Int) -
          ((decreaseExponent second high (min low high)).1 : Int)) (min low high) .positive) _
      generalize (decreaseExponent first low (min low high)).1 = larger at hvalue ⊢
      generalize (decreaseExponent second high (min low high)).1 = smaller at hvalue ⊢
      have hle : smaller ≤ larger := by
        by_contra hlt
        have hneg : ((larger : ℚ) - smaller) < 0 := by
          have : (larger : ℚ) < smaller := by exact_mod_cast Nat.lt_of_not_le hlt
          linarith
        have := mul_neg_of_neg_of_pos hneg (two_zpow_pos (min low high))
        linarith
      obtain ⟨difference, rfl⟩ := Nat.exists_eq_add_of_le hle
      have hdifference : ((smaller + difference : Nat) : Int) - (smaller : Int) = difference := by
        push_cast
        ring
      have hraw : (difference : ℚ) * 2 ^ min low high = first * 2 ^ low - second * 2 ^ high := by
        rw [← hvalue]
        push_cast
        ring
      rw [hdifference]
      unfold UnpackedFloat.normalize
      by_cases hzero : difference = 0
      · subst hzero
        rw [← hraw]
        simpa using Denotes.zero
      · have hcompare : compare (difference : Int) 0 = .gt := by
          rw [compare_gt_iff_gt]
          omega
        rw [hcompare]
        refine Denotes.round ?_ h hraw
        rw [← hraw]
        exact mul_pos (by exact_mod_cast Nat.pos_of_ne_zero hzero) (two_zpow_pos _)

theorem target_quotient_le (hfirst : 0 < first) (hsecond : 0 < second)
    (h : Canonical mantissa exponent)
    (hvalue : (first : ℚ) * 2 ^ low = mantissa * 2 ^ exponent * (second * 2 ^ high)) :
    Format.binary64.targetExponent (totalExponent first low - totalExponent second high) ≤
      exponent := by
  have hlow : (2 : ℚ) ^ ((first.log2 : Int) + low) ≤ first * 2 ^ low := by
    rw [zpow_add₀ (by norm_num), zpow_natCast]
    refine mul_le_mul_of_nonneg_right ?_ (two_zpow_pos low).le
    exact_mod_cast Nat.log2_self_le (Nat.pos_iff_ne_zero.mp hfirst)
  have hhigh : (mantissa : ℚ) * 2 ^ exponent * (second * 2 ^ high) <
      2 ^ ((mantissa.log2 : Int) + 1 + exponent + (second.log2 + 1 + high)) := by
    have hm : (mantissa : ℚ) < 2 ^ (mantissa.log2 + 1) := by
      exact_mod_cast Nat.lt_log2_self (n := mantissa)
    have hs : (second : ℚ) < 2 ^ (second.log2 + 1) := by
      exact_mod_cast Nat.lt_log2_self (n := second)
    calc (mantissa : ℚ) * 2 ^ exponent * (second * 2 ^ high)
        < 2 ^ (mantissa.log2 + 1) * 2 ^ exponent * (2 ^ (second.log2 + 1) * 2 ^ high) := by
          gcongr
      _ = _ := by
        rw [← zpow_natCast, ← zpow_natCast, ← zpow_add₀ (by norm_num), ← zpow_add₀ (by norm_num),
          ← zpow_add₀ (by norm_num)]
        rfl
  have hexponents := (zpow_lt_zpow_iff_right₀ (by norm_num : (1 : ℚ) < 2)).mp
    ((hlow.trans_eq hvalue).trans_lt hhigh)
  have htarget := h.targetOf
  rw [targetOf_eq] at htarget
  simp only [Format.targetExponent, totalExponent, Format.mantissaBits, Format.minExponent]
  omega

theorem Denotes.div (hx : Denotes x p) (hy : Denotes y q) (hq : q ≠ 0) (h : Representable (p / q)) :
    Denotes (div Format.binary64 x y) (p / q) := by
  induction hy with
  | zero => exact absurd rfl hq
  | @finite second high hsecond hpos' =>
    induction hx with
    | zero =>
      rw [zero_div]
      exact Denotes.zero
    | @finite first low hfirst hpos =>
      generalize hr : (first : ℚ) * 2 ^ low / (second * 2 ^ high) = r at h ⊢
      rw [div_eq_iff hq] at hr
      induction h with
      | zero =>
        have : (0 : ℚ) < first * 2 ^ low := mul_pos (by exact_mod_cast hpos) (two_zpow_pos _)
        rw [hr] at this
        simp at this
      | @positive mantissa exponent canonical =>
        have htarget := target_quotient_le hpos hpos' canonical hr
        show Denotes (roundWithAccuracy Format.binary64 .positive
          (divCore Format.binary64 first low second high).1
          (divCore Format.binary64 first low second high).2.1
          (divCore Format.binary64 first low second high).2.2) _
        simp only [divCore]
        generalize htargeteq : min (low - high) (Format.binary64.targetExponent
          (totalExponent first low - totalExponent second high)) = target
        have hle : target ≤ exponent := by omega
        have hquotient : first * 2 ^ (low - high - target).toNat =
            mantissa * 2 ^ (exponent - target).toNat * second := by
          have hscaled : ((first * 2 ^ (low - high - target).toNat : Nat) : ℚ) *
                2 ^ (high + target) =
              ((mantissa * 2 ^ (exponent - target).toNat * second : Nat) : ℚ) *
                2 ^ (high + target) := by
            have hlow : high + target + ((low - high - target).toNat : Int) = low := by omega
            have hexponent : target + ((exponent - target).toNat : Int) = exponent := by omega
            have hright := mul_zpow_add mantissa (exponent - target).toNat target
            rw [hexponent] at hright
            rw [mul_zpow_add, hlow, hr, ← hright, zpow_add₀ (by norm_num)]
            push_cast
            ring
          exact_mod_cast mul_right_cancel₀ (two_zpow_pos _).ne' hscaled
        rw [Nat.shiftLeft_eq, hquotient, Nat.mul_div_cancel _ hpos', Nat.mul_mod_left]
        have hexponent : target + ((exponent - target).toNat : Int) = exponent := by omega
        show Denotes (roundWithAccuracy Format.binary64 .positive _ _ .exact) _
        rw [roundWithAccuracy_value canonical .positive hle (by rw [mul_zpow_add, hexponent])]
        exact .finite canonical canonical.positive

/-! ## Comparisons -/

theorem Canonical.lt_of_exponent_lt (hfirst : Canonical first low) (hsecond : Canonical second high)
    (hlt : low < high) : (first : ℚ) * 2 ^ low < second * 2 ^ high := by
  have hleast := hfirst.least
  have hnormal : 2 ^ 52 ≤ second := hsecond.normal.resolve_right (by omega)
  have hbound : (first : ℚ) < 2 ^ 53 := by exact_mod_cast hfirst.bound
  have hfull : (2 : ℚ) ^ 52 ≤ second := by exact_mod_cast hnormal
  calc (first : ℚ) * 2 ^ low < 2 ^ 53 * 2 ^ low := by gcongr
    _ = 2 ^ 52 * 2 ^ (low + 1) := by
      rw [zpow_add_one₀ (by norm_num)]
      ring
    _ ≤ 2 ^ 52 * 2 ^ high := by
      gcongr
      · norm_num
      · omega
    _ ≤ second * 2 ^ high := by gcongr

theorem compare_canonical (hfirst : Canonical first low) (hsecond : Canonical second high) :
    (compare low high).then (compare first second) =
      compare ((first : ℚ) * 2 ^ low) (second * 2 ^ high) := by
  rcases lt_trichotomy low high with hlt | heq | hgt
  · rw [compare_lt_iff_lt.mpr hlt,
      compare_lt_iff_lt.mpr (hfirst.lt_of_exponent_lt hsecond hlt)]
    rfl
  · subst heq
    rw [compare_eq_iff_eq.mpr rfl]
    rcases lt_trichotomy first second with hlt | heq | hgt
    · have hvalue : (first : ℚ) * 2 ^ low < second * 2 ^ low := by
        gcongr
      rw [compare_lt_iff_lt.mpr hlt, compare_lt_iff_lt.mpr hvalue]
      rfl
    · subst heq
      rw [compare_eq_iff_eq.mpr rfl, compare_eq_iff_eq.mpr rfl]
      rfl
    · have hvalue : (second : ℚ) * 2 ^ low < first * 2 ^ low := by
        gcongr
      rw [compare_gt_iff_gt.mpr hgt, compare_gt_iff_gt.mpr hvalue]
      rfl
  · rw [compare_gt_iff_gt.mpr hgt,
      compare_gt_iff_gt.mpr (hsecond.lt_of_exponent_lt hfirst hgt)]
    rfl

theorem Denotes.compare (hx : Denotes x p) (hy : Denotes y q) :
    x.compare y = some (compare p q) := by
  induction hx with
  | zero =>
    induction hy with
    | zero => simp [UnpackedFloat.compare]
    | @finite second high hsecond hpos' =>
      have hpositive : (0 : ℚ) < second * 2 ^ high :=
        mul_pos (by exact_mod_cast hpos') (two_zpow_pos _)
      rw [compare_lt_iff_lt.mpr hpositive]
      rfl
  | @finite first low hfirst hpos =>
    induction hy with
    | zero =>
      have hpositive : (0 : ℚ) < first * 2 ^ low :=
        mul_pos (by exact_mod_cast hpos) (two_zpow_pos _)
      rw [compare_gt_iff_gt.mpr hpositive]
      rfl
    | finite hsecond hpos' =>
      rw [← compare_canonical hfirst hsecond]
      rfl

theorem Denotes.lt_iff (hx : Denotes x p) (hy : Denotes y q) : x.lt y = true ↔ p < q := by
  unfold UnpackedFloat.lt
  rw [hx.compare hy, beq_iff_eq, Option.some_inj, compare_lt_iff_lt]

theorem Denotes.beq_iff (hx : Denotes x p) (hy : Denotes y q) : x.beq y = true ↔ p = q := by
  unfold UnpackedFloat.beq
  rw [hx.compare hy, beq_iff_eq, Option.some_inj, compare_eq_iff_eq]

end Binary64
