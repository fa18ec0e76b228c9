import Blorp.Lib.Binary64
import Blorp.Lib.While

/-!
# Float literals of the emitted C

`emit/float_literal.brp` writes a binary64 value as a hexadecimal C literal.  The value is
brought into [1, 2) by halving or doubling, and thirteen digits are cut from its fraction.

    1.5   ->  0x1.8000000000000p+0
    -0.1  ->  -0x1.999999999999ap-4

The run is parametric in its arithmetic: `targetArithmetic` is the one the code runs with, and
`exactArithmetic` stops at the first result that had to be rounded.  Neither stops, and the
literal reads back as the value (`cFloatLiteral_exact`).
-/

namespace Blorp.Emit

open Fuel
open Binary64
open Float.Model (UnpackedFloat)
open Float.Model.UnpackedFloat (Sign unpackSign)

/-! ## Operations of Float -/

def floatLiteral (whole : Nat) : Float.Model := Float.Model.ofNat whole

def lessThan (left right : Float.Model) : Bool := left.lt right

def floatEquals (left right : Float.Model) : Bool := left.beq right

def greaterThanOrEqual (left right : Float.Model) : Bool :=
  if lessThan right left then true else floatEquals left right

def blorpFloatDivide (first second : Float.Model) : Float.Model :=
  if floatEquals second (floatLiteral 0) then floatLiteral 0 else first.div second

def signOf (value : Float.Model) : Sign :=
  Sign.ofBitVec (@unpackSign Float.Model.Format.binary64 value.toBits.toBitVec)

def withSign (sign : Sign) : UnpackedFloat → UnpackedFloat
  | .notANumber => .notANumber
  | .infinity _ => .infinity sign
  | .zero _ => .zero sign
  | .finite _ mantissa exponent hpos => .finite sign mantissa exponent hpos

def copysign (value sign : Float.Model) : Float.Model :=
  Float.Model.pack (withSign (signOf sign) value.unpack)

def isNan (value : Float.Model) : Bool := !floatEquals value value

/-- Finite self-subtraction is zero; infinity and NaN produce NaN. -/
def isFinite (value : Float.Model) : Bool :=
  floatEquals (value.sub value) (floatLiteral 0)

def abs (value : Float.Model) : Float.Model :=
  if lessThan value (floatLiteral 0) then copysign value (floatLiteral 1) else value

structure FloatArithmetic (ε : Type) where
  divide : Float.Model → Float.Model → Outcome ε Float.Model
  multiply : Float.Model → Float.Model → Outcome ε Float.Model
  subtract : Float.Model → Float.Model → Outcome ε Float.Model

def targetArithmetic : FloatArithmetic Empty where
  divide first second := .ok (blorpFloatDivide first second)
  multiply first second := .ok (first.mul second)
  subtract first second := .ok (first.sub second)

inductive RoundedOperation where
  | divided (first second : Float.Model)
  | multiplied (first second : Float.Model)
  | subtracted (first second : Float.Model)

def exactly (result : Float.Model) (exact : ℚ) (rounded : RoundedOperation) :
    Outcome RoundedOperation Float.Model :=
  if result.isFinite = true ∧ rational result = exact then .ok result else .err rounded

def exactArithmetic : FloatArithmetic RoundedOperation where
  divide first second :=
    exactly (blorpFloatDivide first second) (rational first / rational second)
      (.divided first second)
  multiply first second :=
    exactly (first.mul second) (rational first * rational second) (.multiplied first second)
  subtract first second :=
    exactly (first.sub second) (rational first - rational second) (.subtracted first second)

/-! ## The literal -/

def hexFractionDigits : Nat := 13

def hexDigits : String := "0123456789abcdef"

/-- `HEX_DIGITS.slice(digit, digit + 1).get_or("")`. -/
def digitText (digit : Nat) : String :=
  if digit + 1 ≤ hexDigits.toList.length then
    String.ofList ((hexDigits.toList.drop digit).take 1)
  else ""

section
variable {ε : Type} (arithmetic : FloatArithmetic ε)

def halvingLoop (fuel : Nat) (start : Float.Model × Int) : Outcome ε (Float.Model × Int) :=
  repeatWhile (fun state => greaterThanOrEqual state.1 (floatLiteral 2))
    (fun state => do
      let magnitude ← arithmetic.divide state.1 (floatLiteral 2)
      .ok (magnitude, state.2 + 1)) fuel start

def doublingLoop (fuel : Nat) (start : Float.Model × Int) : Outcome ε (Float.Model × Int) :=
  repeatWhile (fun state => lessThan state.1 (floatLiteral 1))
    (fun state => do
      let magnitude ← arithmetic.multiply state.1 (floatLiteral 2)
      .ok (magnitude, state.2 - 1)) fuel start

def digitLoop (fuel : Nat) (start : Float.Model × Nat) : Outcome ε (Float.Model × Nat) :=
  repeatWhile (fun state => greaterThanOrEqual state.1 (floatLiteral 1))
    (fun state => do
      let fraction ← arithmetic.subtract state.1 (floatLiteral 1)
      .ok (fraction, state.2 + 1)) fuel start

structure FractionState where
  fraction : Float.Model
  position : Nat
  output : String

def fractionStep (fuel : Nat) (state : FractionState) : Outcome ε FractionState := do
  let fraction ← arithmetic.multiply state.fraction (floatLiteral 16)
  let (fraction, digit) ← digitLoop arithmetic fuel (fraction, 0)
  .ok ⟨fraction, state.position + 1, state.output ++ digitText digit⟩

def fractionLoop (fuel : Nat) (start : FractionState) : Outcome ε FractionState :=
  repeatWhile (fun state => state.position < hexFractionDigits)
    (fractionStep arithmetic fuel) fuel start

def finiteLiteral (fuel : Nat) (negative : Bool) (value : Float.Model) : Outcome ε String := do
  let halved ← halvingLoop arithmetic fuel (abs value, 0)
  let (magnitude, exponent) ← doublingLoop arithmetic fuel halved
  let output := if negative then "-0x1." else "0x1."
  let fraction ← arithmetic.subtract magnitude (floatLiteral 1)
  let state ← fractionLoop arithmetic fuel ⟨fraction, 0, output⟩
  let output := state.output ++ "p"
  let output := if exponent ≥ 0 then output ++ "+" else output
  .ok (output ++ toString exponent)

def literalIn (fuel : Nat) (value : Float.Model) : Outcome ε String :=
  let negative := lessThan (copysign (floatLiteral 1) value) (floatLiteral 0)
  if isNan value then .ok "NAN"
  else if !isFinite value then .ok (if negative then "(-INFINITY)" else "INFINITY")
  else if floatEquals value (floatLiteral 0) then .ok (if negative then "-0x0p+0" else "0x0p+0")
  else finiteLiteral arithmetic fuel negative value

end

def cFloatLiteral (fuel : Nat) (value : Float.Model) : Outcome Empty String :=
  literalIn targetArithmetic fuel value

/-! ## Reading a literal -/

def hexDigitValue (digit : Char) : Option Nat :=
  if digit.isDigit then some (digit.toNat - 48)
  else if 97 ≤ digit.toNat ∧ digit.toNat ≤ 102 then some (digit.toNat - 87)
  else if 65 ≤ digit.toNat ∧ digit.toNat ≤ 70 then some (digit.toNat - 55)
  else none

def isHexDigit (digit : Char) : Bool := (hexDigitValue digit).isSome

def hexNumber (digits : List Char) : Nat :=
  digits.foldl (fun number digit => number * 16 + (hexDigitValue digit).getD 0) 0

def readDecimal (digits : List Char) : Option Nat :=
  if digits ≠ [] ∧ digits.all Char.isDigit then some (Nat.ofDigitChars 10 digits 0) else none

def readExponent : List Char → Option Int
  | '+' :: digits => (readDecimal digits).map Int.ofNat
  | '-' :: digits => (readDecimal digits).map fun magnitude => -(magnitude : Int)
  | digits => (readDecimal digits).map Int.ofNat

/-- `0x` digits `.` digits `p` exponent: the digits scaled by sixteens, times the power of two. -/
def readHexMagnitude : List Char → Option ℚ
  | '0' :: 'x' :: text =>
      match text.dropWhile isHexDigit with
      | '.' :: rest =>
          match rest.dropWhile isHexDigit with
          | 'p' :: exponent =>
              let whole := text.takeWhile isHexDigit
              let fraction := rest.takeWhile isHexDigit
              if whole = [] then none
              else (readExponent exponent).map fun power =>
                (hexNumber (whole ++ fraction) : ℚ) / 16 ^ fraction.length * 2 ^ power
          | _ => none
      | _ => none
  | _ => none

def readHexFloat (text : String) : Option ℚ :=
  match text.toList with
  | '-' :: rest => (readHexMagnitude rest).map fun magnitude => -magnitude
  | rest => readHexMagnitude rest

/-! ## Operations on magnitudes -/

theorem floatLiteral_denotes {whole : Nat} (h : whole < 2 ^ 53) :
    Denotes (floatLiteral whole).unpack whole :=
  Denotes.ofNat h

variable {left right : Float.Model} {p q : ℚ}

section

variable (hleft : Denotes left.unpack p) (hright : Denotes right.unpack q)

include hleft hright

theorem lessThan_iff : lessThan left right = true ↔ p < q :=
  hleft.lt_iff hright

theorem floatEquals_iff : floatEquals left right = true ↔ p = q :=
  hleft.beq_iff hright

theorem greaterThanOrEqual_iff : greaterThanOrEqual left right = true ↔ q ≤ p := by
  unfold greaterThanOrEqual
  by_cases hlt : q < p
  · rw [if_pos ((lessThan_iff hright hleft).mpr hlt)]
    simp [hlt.le]
  · rw [if_neg (fun h => hlt ((lessThan_iff hright hleft).mp h)), floatEquals_iff hleft hright]
    constructor
    · intro h
      exact h.ge
    · intro h
      exact le_antisymm (not_lt.mp hlt) h

end

structure Computes {ε : Type} (arithmetic : FloatArithmetic ε) : Prop where
  divide : ∀ {first second : Float.Model} {p q : ℚ}, Denotes first.unpack p →
    Denotes second.unpack q → q ≠ 0 → Representable (p / q) →
    ∃ result, arithmetic.divide first second = .ok result ∧ Denotes result.unpack (p / q)
  multiply : ∀ {first second : Float.Model} {p q : ℚ}, Denotes first.unpack p →
    Denotes second.unpack q → Representable (p * q) →
    ∃ result, arithmetic.multiply first second = .ok result ∧ Denotes result.unpack (p * q)
  subtract : ∀ {first second : Float.Model} {p q : ℚ}, Denotes first.unpack p →
    Denotes second.unpack q → Representable (p - q) →
    ∃ result, arithmetic.subtract first second = .ok result ∧ Denotes result.unpack (p - q)

theorem blorpFloatDivide_denotes {first second : Float.Model} (hfirst : Denotes first.unpack p)
    (hsecond : Denotes second.unpack q) (hq : q ≠ 0) (h : Representable (p / q)) :
    Denotes (blorpFloatDivide first second).unpack (p / q) := by
  unfold blorpFloatDivide
  have hzero := floatLiteral_denotes (show 0 < 2 ^ 53 by norm_num)
  rw [if_neg (fun heq => hq (by simpa using (floatEquals_iff hsecond hzero).mp heq))]
  exact (Denotes.div hfirst hsecond hq h).pack

theorem computes_target : Computes targetArithmetic where
  divide hfirst hsecond hq h := ⟨_, rfl, blorpFloatDivide_denotes hfirst hsecond hq h⟩
  multiply hfirst hsecond h := ⟨_, rfl, (Denotes.mul hfirst hsecond h).pack⟩
  subtract hfirst hsecond h := ⟨_, rfl, (Denotes.sub hfirst hsecond h).pack⟩

theorem exactly_of_denotes {result : Float.Model} {exact : ℚ} (h : Denotes result.unpack exact)
    (rounded : RoundedOperation) : exactly result exact rounded = .ok result := by
  have hfinite : result.isFinite = true := by
    show result.unpack.isFinite = true
    generalize result.unpack = unpacked at h
    induction h with
    | zero => rfl
    | finite canonical hpos => rfl
  unfold exactly
  rw [if_pos ⟨hfinite, h.rational_eq⟩]

theorem computes_exact : Computes exactArithmetic where
  divide hfirst hsecond hq h := by
    have hresult := blorpFloatDivide_denotes hfirst hsecond hq h
    refine ⟨_, ?_, hresult⟩
    show exactly _ (rational _ / rational _) _ = _
    rw [show rational _ = _ from hfirst.rational_eq, show rational _ = _ from hsecond.rational_eq]
    exact exactly_of_denotes hresult _
  multiply hfirst hsecond h := by
    have hresult := (Denotes.mul hfirst hsecond h).pack
    refine ⟨_, ?_, hresult⟩
    show exactly _ (rational _ * rational _) _ = _
    rw [show rational _ = _ from hfirst.rational_eq, show rational _ = _ from hsecond.rational_eq]
    exact exactly_of_denotes hresult _
  subtract hfirst hsecond h := by
    have hresult := (Denotes.sub hfirst hsecond h).pack
    refine ⟨_, ?_, hresult⟩
    show exactly _ (rational _ - rational _) _ = _
    rw [show rational _ = _ from hfirst.rational_eq, show rational _ = _ from hsecond.rational_eq]
    exact exactly_of_denotes hresult _

/-! ## Normalizing -/

section
variable {ε : Type} {arithmetic : FloatArithmetic ε}

/-- What both loops keep: the magnitude times its power of two. -/
def Scaled (total : ℚ) (state : Float.Model × Int) (p : ℚ) : Prop :=
  Denotes state.1.unpack p ∧ 0 < p ∧ p * 2 ^ state.2 = total

variable {total : ℚ} {number places : Nat}

theorem halvingLoop_settles (harith : Computes arithmetic) (htotal : total < 2 ^ (1024 : Int))
    {start : Float.Model × Int} (hstart : ∃ p, Scaled total start p) :
    ∃ last p, Outcome.Settles (fun fuel => halvingLoop arithmetic fuel start) (.ok last) ∧
      Scaled total last p ∧ p < 2 := by
  have htwo := floatLiteral_denotes (show 2 < 2 ^ 53 by norm_num)
  obtain ⟨last, hsettles, ⟨p, hp⟩, htest⟩ := repeatWhile_settles
    (fun state : Float.Model × Int => greaterThanOrEqual state.1 (floatLiteral 2))
    (fun _ state => do
      let magnitude ← arithmetic.divide state.1 (floatLiteral 2)
      .ok (magnitude, state.2 + 1))
    (fun state => ∃ p, Scaled total state p) (fun state => (1024 - state.2).toNat)
    (fun state hstate htest => by
      obtain ⟨p, hdenotes, hpos, hvalue⟩ := hstate
      have hle : 2 ≤ p := (greaterThanOrEqual_iff hdenotes htwo).mp htest
      obtain ⟨half, hhalf, hdenotes'⟩ :=
        harith.divide hdenotes htwo (by norm_num) (hdenotes.representable.half hle)
      have hexponent : state.2 < 1024 := by
        have hone : (2 : ℚ) ^ state.2 ≤ p * 2 ^ state.2 :=
          le_mul_of_one_le_left (two_zpow_pos _).le (by linarith)
        rw [hvalue] at hone
        exact (zpow_lt_zpow_iff_right₀ (by norm_num : (1 : ℚ) < 2)).mp
          (lt_of_le_of_lt hone htotal)
      refine ⟨(half, state.2 + 1), ?_, ⟨p / 2, hdenotes', by positivity, ?_⟩, ?_⟩
      · simp only [hhalf, Outcome.ok_bind]
        exact Outcome.Settles.ok
      · rw [← hvalue]
        show p / 2 * 2 ^ (state.2 + 1) = _
        rw [zpow_add_one₀ (by norm_num)]
        ring
      · show (1024 - (state.2 + 1)).toNat < (1024 - state.2).toNat
        omega) start hstart
  refine ⟨last, p, hsettles, hp, ?_⟩
  by_contra hle
  rw [(greaterThanOrEqual_iff hp.1 htwo).mpr (not_lt.mp hle)] at htest
  exact absurd htest (by decide)

theorem doublingLoop_settles (harith : Computes arithmetic)
    (htotal : (2 : ℚ) ^ (-1074 : Int) ≤ total) {start : Float.Model × Int}
    (hstart : ∃ p, Scaled total start p ∧ p < 2) :
    ∃ last p, Outcome.Settles (fun fuel => doublingLoop arithmetic fuel start) (.ok last) ∧
      Scaled total last p ∧ 1 ≤ p ∧ p < 2 := by
  have hone := floatLiteral_denotes (show 1 < 2 ^ 53 by norm_num)
  have htwo := floatLiteral_denotes (show 2 < 2 ^ 53 by norm_num)
  obtain ⟨last, hsettles, ⟨p, hp, hlt⟩, htest⟩ := repeatWhile_settles
    (fun state : Float.Model × Int => lessThan state.1 (floatLiteral 1))
    (fun _ state => do
      let magnitude ← arithmetic.multiply state.1 (floatLiteral 2)
      .ok (magnitude, state.2 - 1))
    (fun state => ∃ p, Scaled total state p ∧ p < 2) (fun state => (state.2 + 1074).toNat)
    (fun state hstate htest => by
      obtain ⟨p, ⟨hdenotes, hpos, hvalue⟩, -⟩ := hstate
      have hlt : p < 1 := by simpa using (lessThan_iff hdenotes hone).mp htest
      obtain ⟨double, hdouble, hdenotes'⟩ :=
        harith.multiply hdenotes htwo (hdenotes.representable.double hlt)
      have hexponent : -1074 < state.2 := by
        have hpow : p * 2 ^ state.2 < 2 ^ state.2 :=
          mul_lt_of_lt_one_left (two_zpow_pos _) hlt
        rw [hvalue] at hpow
        exact (zpow_lt_zpow_iff_right₀ (by norm_num : (1 : ℚ) < 2)).mp
          (lt_of_le_of_lt htotal hpow)
      refine ⟨(double, state.2 - 1), ?_, ⟨p * 2, ⟨hdenotes', by positivity, ?_⟩, by linarith⟩, ?_⟩
      · simp only [hdouble, Outcome.ok_bind]
        exact Outcome.Settles.ok
      · rw [← hvalue]
        show p * 2 * 2 ^ (state.2 - 1) = _
        rw [zpow_sub_one₀ (by norm_num)]
        ring
      · show (state.2 - 1 + 1074).toNat < (state.2 + 1074).toNat
        omega) start hstart
  refine ⟨last, p, hsettles, hp, ?_, hlt⟩
  by_contra hle
  rw [(lessThan_iff hp.1 hone).mpr (by simpa using not_le.mp hle)] at htest
  exact absurd htest (by decide)

/-! ## Digits -/

/-- The digits of a fraction of so many sixteenths. -/
def fractionDigits : Nat → Nat → String
  | 0, _ => ""
  | places + 1, fraction =>
      digitText (fraction / 16 ^ places) ++ fractionDigits places (fraction % 16 ^ places)

theorem representable_sixteenths (hnumber : number < 2 ^ 53) (hplaces : places ≤ 13) :
    Representable ((number : ℚ) / 16 ^ places) := by
  have hvalue : (number : ℚ) / 16 ^ places = number * 2 ^ (-(4 * places : Int)) := by
    rw [div_eq_mul_inv, zpow_neg, zpow_mul, zpow_natCast]
    norm_num
  rw [hvalue]
  exact representable_of hnumber (by omega) (by omega)

theorem digitLoop_settles (harith : Computes arithmetic) (hnumber : number < 2 ^ 53)
    (hplaces : places ≤ 13) {start : Float.Model}
    (hstart : Denotes start.unpack ((number : ℚ) / 16 ^ places)) :
    ∃ last, Outcome.Settles (fun fuel => digitLoop arithmetic fuel (start, 0)) (.ok last) ∧
      Denotes last.1.unpack (((number % 16 ^ places : Nat) : ℚ) / 16 ^ places) ∧
      last.2 = number / 16 ^ places := by
  have hone := floatLiteral_denotes (show 1 < 2 ^ 53 by norm_num)
  have hpow : (0 : ℚ) < 16 ^ places := by positivity
  have hunit : 0 < 16 ^ places := by positivity
  obtain ⟨last, hsettles, ⟨rest, hrest, hsum⟩, htest⟩ := repeatWhile_settles
    (fun state : Float.Model × Nat => greaterThanOrEqual state.1 (floatLiteral 1))
    (fun _ state => do
      let fraction ← arithmetic.subtract state.1 (floatLiteral 1)
      .ok (fraction, state.2 + 1))
    (fun state => ∃ rest : Nat, Denotes state.1.unpack ((rest : ℚ) / 16 ^ places) ∧
      rest + state.2 * 16 ^ places = number) (fun state => number - state.2)
    (fun state hstate htest => by
      obtain ⟨rest, hdenotes, hsum⟩ := hstate
      have hle : 16 ^ places ≤ rest := by
        have := (greaterThanOrEqual_iff hdenotes hone).mp htest
        rw [Nat.cast_one, le_div_iff₀ hpow, one_mul] at this
        exact_mod_cast this
      obtain ⟨less, rfl⟩ := Nat.exists_eq_add_of_le hle
      have hdifference : ((16 ^ places + less : Nat) : ℚ) / 16 ^ places - (1 : Nat) =
          (less : ℚ) / 16 ^ places := by
        push_cast
        field_simp
        ring
      have hrepresentable := representable_sixteenths (show less < 2 ^ 53 by omega) hplaces
      rw [← hdifference] at hrepresentable
      obtain ⟨fraction, hfraction, hdenotes'⟩ := harith.subtract hdenotes hone hrepresentable
      rw [hdifference] at hdenotes'
      have hcount : state.2 ≤ state.2 * 16 ^ places := Nat.le_mul_of_pos_right _ hunit
      refine ⟨(fraction, state.2 + 1), ?_, ⟨less, hdenotes', ?_⟩, ?_⟩
      · simp only [hfraction, Outcome.ok_bind]
        exact Outcome.Settles.ok
      · rw [← hsum]
        ring
      · show number - (state.2 + 1) < number - state.2
        omega) (start, 0) ⟨number, hstart, by simp⟩
  have hlt : rest < 16 ^ places := by
    by_contra hle
    have hvalue : ((1 : Nat) : ℚ) ≤ (rest : ℚ) / 16 ^ places := by
      rw [Nat.cast_one, le_div_iff₀ hpow, one_mul]
      exact_mod_cast Nat.le_of_not_lt hle
    rw [(greaterThanOrEqual_iff hrest hone).mpr hvalue] at htest
    exact absurd htest (by decide)
  have hmod : number % 16 ^ places = rest := by
    rw [← hsum, Nat.add_mul_mod_self_right, Nat.mod_eq_of_lt hlt]
  have hdiv : number / 16 ^ places = last.2 := by
    rw [← hsum, Nat.add_mul_div_right _ _ hunit, Nat.div_eq_of_lt hlt, Nat.zero_add]
  refine ⟨last, hsettles, ?_, hdiv.symm⟩
  rw [hmod]
  exact hrest

theorem fractionStep_settles (harith : Computes arithmetic) {rest : Nat} (hplaces : places < 13)
    (hrest : rest < 16 ^ (places + 1)) {state : FractionState}
    (hstate : Denotes state.fraction.unpack ((rest : ℚ) / 16 ^ (places + 1))) :
    ∃ fraction, Outcome.Settles (fun fuel => fractionStep arithmetic fuel state)
        (.ok ⟨fraction, state.position + 1, state.output ++ digitText (rest / 16 ^ places)⟩) ∧
      Denotes fraction.unpack (((rest % 16 ^ places : Nat) : ℚ) / 16 ^ places) := by
  have hsixteen := floatLiteral_denotes (show 16 < 2 ^ 53 by norm_num)
  have hbound : rest < 2 ^ 53 := by
    have hle : 16 ^ (places + 1) ≤ 16 ^ 13 := Nat.pow_le_pow_right (by norm_num) hplaces
    omega
  have hproduct : (rest : ℚ) / 16 ^ (places + 1) * (16 : Nat) = rest / 16 ^ places := by
    rw [pow_succ]
    push_cast
    field_simp
  have hrepresentable := representable_sixteenths hbound (show places ≤ 13 by omega)
  rw [← hproduct] at hrepresentable
  obtain ⟨scaled, hscaled, hdenotes⟩ := harith.multiply hstate hsixteen hrepresentable
  rw [hproduct] at hdenotes
  obtain ⟨last, hsettles, hlast, hdigit⟩ :=
    digitLoop_settles harith hbound (show places ≤ 13 by omega) hdenotes
  refine ⟨last.1, ?_, hlast⟩
  unfold fractionStep
  simp only [hscaled, Outcome.ok_bind]
  refine Outcome.Settles.bind_ok hsettles ?_
  rw [hdigit]
  exact Outcome.Settles.ok

theorem fractionLoop_settles (harith : Computes arithmetic) (hnumber : number < 16 ^ 13)
    {fraction : Float.Model} (hfraction : Denotes fraction.unpack ((number : ℚ) / 16 ^ 13))
    (output : String) :
    ∃ last, Outcome.Settles (fun fuel => fractionLoop arithmetic fuel ⟨fraction, 0, output⟩)
        (.ok last) ∧
      last.output = output ++ fractionDigits 13 number := by
  obtain ⟨last, hsettles, ⟨places, rest, hplaces, -, -, houtput⟩, htest⟩ := repeatWhile_settles
    (fun state : FractionState => decide (state.position < hexFractionDigits))
    (fun fuel state => fractionStep arithmetic fuel state)
    -- the digits still to come complete those already written
    (fun state => ∃ places rest : Nat, places + state.position = 13 ∧ rest < 16 ^ places ∧
      Denotes state.fraction.unpack ((rest : ℚ) / 16 ^ places) ∧
      state.output ++ fractionDigits places rest = output ++ fractionDigits 13 number)
    (fun state => 13 - state.position)
    (fun state hstate htest => by
      obtain ⟨places, rest, hplaces, hrest, hdenotes, houtput⟩ := hstate
      have hposition : state.position < 13 := of_decide_eq_true htest
      obtain ⟨fewer, rfl⟩ : ∃ fewer, places = fewer + 1 := ⟨places - 1, by omega⟩
      obtain ⟨next, hnext, hdenotes'⟩ :=
        fractionStep_settles harith (show fewer < 13 by omega) hrest hdenotes
      refine ⟨_, hnext, ⟨fewer, rest % 16 ^ fewer, ?_, Nat.mod_lt _ (by positivity), hdenotes', ?_⟩,
        ?_⟩
      · show fewer + (state.position + 1) = 13
        omega
      · rw [← houtput]
        simp only [fractionDigits, String.append_assoc]
      · show 13 - (state.position + 1) < 13 - state.position
        omega)
    ⟨fraction, 0, output⟩ ⟨13, number, rfl, hnumber, hfraction, rfl⟩
  have hdone : ¬ last.position < 13 := of_decide_eq_false htest
  have hzero : places = 0 := by omega
  subst hzero
  refine ⟨last, hsettles, ?_⟩
  rw [← houtput]
  simp [fractionDigits]

/-! ## The whole literal -/

def literalText (negative : Bool) (number : Nat) (exponent : Int) : String :=
  (if negative then "-0x1." else "0x1.") ++ fractionDigits 13 number ++ "p" ++
    (if exponent ≥ 0 then "+" else "") ++ toString exponent

theorem finiteLiteral_settles (harith : Computes arithmetic) {value : Float.Model}
    (hvalue : Denotes (abs value).unpack total) (hpos : 0 < total) (negative : Bool) :
    ∃ (number : Nat) (exponent : Int), number < 2 ^ 52 ∧
      total = (1 + (number : ℚ) / 2 ^ 52) * 2 ^ exponent ∧
      Outcome.Settles (fun fuel => finiteLiteral arithmetic fuel negative value)
        (.ok (literalText negative number exponent)) := by
  have hone := floatLiteral_denotes (show 1 < 2 ^ 53 by norm_num)
  have hrepresentable := hvalue.representable
  obtain ⟨halved, p, hhalved, hscaled, hlt⟩ := halvingLoop_settles harith
    hrepresentable.lt_greatest (show ∃ p, Scaled total (abs value, 0) p from
      ⟨total, hvalue, hpos, by simp⟩)
  obtain ⟨doubled, q, hdoubled, ⟨hdenotes, -, htotal⟩, hle, hlt'⟩ := doublingLoop_settles harith
    (hrepresentable.least_le hpos) ⟨p, hscaled, hlt⟩
  obtain ⟨number, hnumber, rfl⟩ := hdenotes.representable.exists_fraction hle hlt'
  have hdifference : 1 + (number : ℚ) / 2 ^ 52 - (1 : Nat) = number / 16 ^ 13 := by norm_num
  have hfractional := representable_sixteenths (show number < 2 ^ 53 by omega) (le_refl 13)
  rw [← hdifference] at hfractional
  obtain ⟨fraction, hsubtract, hfraction⟩ := harith.subtract hdenotes hone hfractional
  rw [hdifference] at hfraction
  obtain ⟨last, hloop, houtput⟩ := fractionLoop_settles harith
    (show number < 16 ^ 13 by omega) hfraction (if negative then "-0x1." else "0x1.")
  refine ⟨number, doubled.2, hnumber, htotal.symm, ?_⟩
  refine Outcome.Settles.bind_ok hhalved ?_
  refine Outcome.Settles.bind_ok hdoubled ?_
  simp only [hsubtract, Outcome.ok_bind]
  refine Outcome.Settles.bind_ok hloop ?_
  have htext : (if doubled.2 ≥ 0 then last.output ++ "p" ++ "+" else last.output ++ "p") ++
      toString doubled.2 = literalText negative number doubled.2 := by
    rw [houtput]
    unfold literalText
    split <;> simp
  rw [htext]
  exact Outcome.Settles.ok

end

theorem normalized_unique {first second : Nat} {low high : Int} (hfirst : first < 2 ^ 52)
    (hsecond : second < 2 ^ 52)
    (h : (1 + (first : ℚ) / 2 ^ 52) * 2 ^ low = (1 + (second : ℚ) / 2 ^ 52) * 2 ^ high) :
    first = second ∧ low = high := by
  have hwhole : ((2 ^ 52 + first : Nat) : ℚ) * 2 ^ low = ((2 ^ 52 + second : Nat) : ℚ) * 2 ^ high := by
    have hsplit : ∀ (number : Nat) (exponent : Int), ((2 ^ 52 + number : Nat) : ℚ) * 2 ^ exponent =
        2 ^ 52 * ((1 + (number : ℚ) / 2 ^ 52) * 2 ^ exponent) := by
      intro number exponent
      field_simp
      norm_num
    rw [hsplit, hsplit, h]
  have hone : ∀ {mantissa other count : Nat}, mantissa < 2 ^ 53 → 2 ^ 52 ≤ other →
      mantissa = other * 2 ^ count → count = 0 := by
    intro mantissa other count hmantissa hother heq
    by_contra hcount
    obtain ⟨fewer, rfl⟩ : ∃ fewer, count = fewer + 1 := ⟨count - 1, by omega⟩
    have hle : other * 2 ≤ mantissa := by
      rw [heq, Nat.pow_succ, ← Nat.mul_assoc]
      exact Nat.mul_le_mul_right 2 (Nat.le_mul_of_pos_right other (Nat.two_pow_pos fewer))
    omega
  rcases le_total low high with hle | hle
  · have hmantissa := mantissa_eq hle hwhole
    have hcount := hone (by omega) (by omega) hmantissa
    rw [hcount] at hmantissa
    omega
  · have hmantissa := mantissa_eq hle hwhole.symm
    have hcount := hone (by omega) (by omega) hmantissa
    rw [hcount] at hmantissa
    omega

/-! ## Signs -/

theorem floatLiteral_zero : (floatLiteral 0).unpack = .zero .positive := by
  have h := floatLiteral_denotes (show 0 < 2 ^ 53 by norm_num)
  generalize (floatLiteral 0).unpack = unpacked at h
  generalize hzero : ((0 : Nat) : ℚ) = number at h
  induction h with
  | zero => rfl
  | @finite mantissa exponent canonical hpos =>
    have : (0 : ℚ) < mantissa * 2 ^ exponent :=
      mul_pos (by exact_mod_cast hpos) (two_zpow_pos exponent)
    rw [← hzero] at this
    simp at this

section
variable {value : Float.Model} {sign : Sign} {mantissa : Nat} {exponent : Int}
  {hpos : 0 < mantissa}

theorem signOf_finite (h : value.unpack = .finite sign mantissa exponent hpos) :
    signOf value = sign := by
  unfold Float.Model.unpack UnpackedFloat.unpack at h
  simp only at h
  split at h
  · split at h <;> cases h
  · split at h
    · split at h
      · cases h
      · injection h
    · injection h

theorem withSign_pack (h : Canonical mantissa exponent) (other : Sign) :
    (Float.Model.pack (withSign other (.finite sign mantissa exponent hpos))).unpack =
      .finite other mantissa exponent hpos :=
  unpack_pack_finite h other hpos

section

variable (h : value.unpack = .finite sign mantissa exponent hpos)

include h

theorem isNan_finite : isNan value = false := by
  have hequal : value.unpack.beq value.unpack = true := by
    rw [h]
    cases sign <;> simp [UnpackedFloat.beq, UnpackedFloat.compare]
  show (!value.unpack.beq value.unpack) = false
  rw [hequal]
  rfl

theorem isFinite_finite : isFinite value = true := by
  have hzero : (value.sub value).unpack = .zero .positive := by
    show (Float.Model.pack (UnpackedFloat.sub _ value.unpack value.unpack)).unpack = _
    rw [h]
    have hsub : UnpackedFloat.sub Float.Model.Format.binary64
        (.finite sign mantissa exponent hpos) (.finite sign mantissa exponent hpos) =
        .zero .positive := by
      simp [UnpackedFloat.sub, UnpackedFloat.normalize]
    rw [hsub]
    rfl
  show (value.sub value).unpack.beq (floatLiteral 0).unpack = true
  rw [hzero, floatLiteral_zero]
  rfl

theorem floatEquals_zero_finite : floatEquals value (floatLiteral 0) = false := by
  show value.unpack.beq (floatLiteral 0).unpack = false
  rw [h, floatLiteral_zero]
  cases sign <;> rfl

theorem lessThan_zero_finite : lessThan value (floatLiteral 0) = (sign == .negative) := by
  show value.unpack.lt (floatLiteral 0).unpack = _
  rw [h, floatLiteral_zero]
  cases sign <;> rfl

theorem negative_finite :
    lessThan (copysign (floatLiteral 1) value) (floatLiteral 0) = (sign == .negative) := by
  have hone := floatLiteral_denotes (show 1 < 2 ^ 53 by norm_num)
  have hcopy : ∃ mantissa exponent hpos,
      (copysign (floatLiteral 1) value).unpack = .finite sign mantissa exponent hpos := by
    unfold copysign
    rw [signOf_finite h]
    generalize (floatLiteral 1).unpack = unpacked at hone
    generalize hnumber : ((1 : Nat) : ℚ) = number at hone
    induction hone with
    | zero => norm_num at hnumber
    | finite canonical hpos' => exact ⟨_, _, hpos', withSign_pack canonical sign⟩
  obtain ⟨_, _, _, hcopy⟩ := hcopy
  exact lessThan_zero_finite hcopy

theorem abs_denotes : Denotes (abs value).unpack ((mantissa : ℚ) * 2 ^ exponent) := by
  have hcanonical := canonical_of_unpack h
  have hsign : signOf (floatLiteral 1) = .positive := rfl
  unfold abs
  rw [lessThan_zero_finite h]
  cases sign with
  | negative =>
    rw [if_pos (by decide)]
    unfold copysign
    rw [hsign, h, withSign_pack hcanonical]
    exact .finite hcanonical hpos
  | positive =>
    rw [if_neg (by decide), h]
    exact .finite hcanonical hpos

end

end

theorem exists_finite {value : Float.Model} (hfinite : value.isFinite = true)
    (hnonzero : rational value ≠ 0) :
    ∃ sign mantissa exponent hpos, value.unpack = .finite sign mantissa exponent hpos := by
  replace hfinite : value.unpack.isFinite = true := hfinite
  replace hnonzero : unpackedRational value.unpack ≠ 0 := hnonzero
  generalize value.unpack = unpacked at hfinite hnonzero
  cases unpacked with
  | infinity sign => simp [UnpackedFloat.isFinite] at hfinite
  | notANumber => simp [UnpackedFloat.isFinite] at hfinite
  | zero sign => exact absurd rfl hnonzero
  | finite sign mantissa exponent hpos => exact ⟨sign, mantissa, exponent, hpos, rfl⟩

/-! ## Reading what was written -/

theorem digitText_spec {digit : Nat} (hlt : digit < 16) :
    ∃ char, (digitText digit).toList = [char] ∧ hexDigitValue char = some digit := by
  interval_cases digit <;> exact ⟨_, rfl, rfl⟩

def hexNumberFrom (number : Nat) (digits : List Char) : Nat :=
  digits.foldl (fun number digit => number * 16 + (hexDigitValue digit).getD 0) number

theorem fractionDigits_spec (places : Nat) : ∀ number : Nat, number < 16 ^ places →
    (fractionDigits places number).toList.length = places ∧
      (∀ digit ∈ (fractionDigits places number).toList, isHexDigit digit = true) ∧
      ∀ before, hexNumberFrom before (fractionDigits places number).toList =
        before * 16 ^ places + number := by
  induction places with
  | zero =>
    intro number hlt
    have hzero : number = 0 := by simpa using hlt
    subst hzero
    simp [fractionDigits, hexNumberFrom]
  | succ places ih =>
    intro number hlt
    have hunit : 0 < 16 ^ places := by positivity
    rw [Nat.pow_succ] at hlt
    obtain ⟨char, hchar, hvalue⟩ :=
      digitText_spec ((Nat.div_lt_iff_lt_mul hunit).mpr (by rwa [Nat.mul_comm] at hlt))
    obtain ⟨hlength, hdigits, hnumber⟩ := ih (number % 16 ^ places) (Nat.mod_lt _ hunit)
    have htext : (fractionDigits (places + 1) number).toList =
        char :: (fractionDigits places (number % 16 ^ places)).toList := by
      simp [fractionDigits, String.toList_append, hchar]
    rw [htext]
    refine ⟨by simp [hlength], ?_, ?_⟩
    · intro digit hmem
      rcases List.mem_cons.mp hmem with rfl | hmem
      · simp [isHexDigit, hvalue]
      · exact hdigits digit hmem
    · intro before
      have hstep := hnumber (before * 16 + number / 16 ^ places)
      have hdivide := Nat.div_add_mod number (16 ^ places)
      unfold hexNumberFrom at hstep ⊢
      rw [List.foldl_cons, hvalue, Option.getD_some, hstep, Nat.pow_succ]
      calc (before * 16 + number / 16 ^ places) * 16 ^ places + number % 16 ^ places
          = before * (16 ^ places * 16) +
              (16 ^ places * (number / 16 ^ places) + number % 16 ^ places) := by ring
        _ = before * (16 ^ places * 16) + number := by rw [hdivide]

theorem readDecimal_toDigits (magnitude : Nat) :
    readDecimal (Nat.toDigits 10 magnitude) = some magnitude := by
  unfold readDecimal
  have hall : (Nat.toDigits 10 magnitude).all Char.isDigit = true := by
    rw [List.all_eq_true]
    intro digit hmem
    exact Nat.isDigit_of_mem_toDigits (by norm_num) (by norm_num) hmem
  rw [if_pos ⟨Nat.toDigits_ne_nil, hall⟩, Nat.ofDigitChars_ten_toDigits]

def exponentText (exponent : Int) : String :=
  (if exponent ≥ 0 then "+" else "") ++ toString exponent

theorem readExponent_exponentText (exponent : Int) :
    readExponent (exponentText exponent).toList = some exponent := by
  unfold exponentText
  rw [String.toList_append]
  cases exponent with
  | ofNat magnitude =>
    have htext : (toString (Int.ofNat magnitude)).toList = Nat.toDigits 10 magnitude :=
      Nat.toList_repr
    have hsign : (if Int.ofNat magnitude ≥ 0 then "+" else "").toList = ['+'] := by
      rw [if_pos (show Int.ofNat magnitude ≥ 0 from Int.natCast_nonneg magnitude)]
      rfl
    rw [hsign, htext]
    simp [readExponent, readDecimal_toDigits]
  | negSucc magnitude =>
    have htext : (toString (Int.negSucc magnitude)).toList =
        '-' :: Nat.toDigits 10 (magnitude + 1) := by
      show ("-" ++ Nat.repr (magnitude + 1)).toList = _
      rw [String.toList_append, Nat.toList_repr]
      rfl
    have hsign : (if Int.negSucc magnitude ≥ 0 then "+" else "").toList = [] := by rfl
    rw [hsign, htext]
    simp [readExponent, readDecimal_toDigits, Int.negSucc_eq]

theorem readHexMagnitude_literal {number : Nat} (hnumber : number < 2 ^ 52) (exponent : Int) :
    readHexMagnitude ('0' :: 'x' :: '1' :: '.' :: ((fractionDigits 13 number).toList ++
        'p' :: (exponentText exponent).toList)) =
      some ((1 + (number : ℚ) / 2 ^ 52) * 2 ^ exponent) := by
  obtain ⟨hlength, hdigits, hvalue⟩ :=
    fractionDigits_spec 13 number (show number < 16 ^ 13 by omega)
  have hwhole : isHexDigit '1' = true := rfl
  have hpoint : isHexDigit '.' = false := rfl
  have hletter : isHexDigit 'p' = false := rfl
  have hall : hexNumber ('1' :: (fractionDigits 13 number).toList) = 16 ^ 13 + number := by
    have := hvalue 1
    exact this
  have hread := readExponent_exponentText exponent
  generalize (fractionDigits 13 number).toList = digits at hlength hdigits hall
  generalize (exponentText exponent).toList = tail at hread
  have htake : (digits ++ 'p' :: tail).takeWhile isHexDigit = digits := by
    rw [List.takeWhile_append_of_pos hdigits, List.takeWhile_cons_of_neg (by simp [hletter]),
      List.append_nil]
  have hdrop : (digits ++ 'p' :: tail).dropWhile isHexDigit = 'p' :: tail := by
    rw [List.dropWhile_append_of_pos hdigits, List.dropWhile_cons_of_neg (by simp [hletter])]
  have hscaled : ((16 ^ 13 + number : Nat) : ℚ) / 16 ^ 13 = 1 + (number : ℚ) / 2 ^ 52 := by
    push_cast
    field_simp
    ring
  simp only [readHexMagnitude, List.dropWhile_cons, List.takeWhile_cons, hwhole, hpoint, ↓reduceIte,
    Bool.false_eq_true, hdrop, htake, hread, Option.map_some, List.cons_ne_nil,
    List.cons_append, List.nil_append, hlength, hall, hscaled]

theorem literalText_toList (negative : Bool) (number : Nat) (exponent : Int) :
    (literalText negative number exponent).toList =
      (if negative then ['-'] else []) ++ '0' :: 'x' :: '1' :: '.' ::
        ((fractionDigits 13 number).toList ++ 'p' :: (exponentText exponent).toList) := by
  unfold literalText exponentText
  cases negative <;> simp [String.toList_append]

theorem readHexFloat_literalText {number : Nat} (hnumber : number < 2 ^ 52) (exponent : Int)
    (negative : Bool) :
    readHexFloat (literalText negative number exponent) =
      some ((if negative then -1 else 1) * ((1 + (number : ℚ) / 2 ^ 52) * 2 ^ exponent)) := by
  have hmagnitude := readHexMagnitude_literal hnumber exponent
  unfold readHexFloat
  rw [literalText_toList]
  cases negative with
  | true => simp [hmagnitude]
  | false => simp [hmagnitude]

/-- **Float literals are exact**: for every finite value other than zero the run ends, with the
target's arithmetic and with the one that stops at a rounded result, in one text of thirteen
fraction digits and a signed exponent, and that text denotes the value. -/
theorem cFloatLiteral_exact (value : Float.Model) (hfinite : value.isFinite = true)
    (hnonzero : rational value ≠ 0) :
    ∃ (digits : List Char) (exponent : Int) (text : String),
      digits.length = 13 ∧ (∀ digit ∈ digits, isHexDigit digit = true) ∧
      text = (if rational value < 0 then "-0x1." else "0x1.") ++ String.ofList digits ++ "p" ++
        (if exponent ≥ 0 then "+" else "") ++ toString exponent ∧
      Outcome.Settles (fun fuel => cFloatLiteral fuel value) (.ok text) ∧
      Outcome.Settles (fun fuel => literalIn exactArithmetic fuel value) (.ok text) ∧
      readHexFloat text = some (rational value) := by
  obtain ⟨sign, mantissa, exponent, hpos, hvalue⟩ := exists_finite hfinite hnonzero
  have habs := abs_denotes hvalue
  have htotal : (0 : ℚ) < mantissa * 2 ^ exponent :=
    mul_pos (by exact_mod_cast hpos) (two_zpow_pos exponent)
  have hrational : rational value =
      (if (sign == .negative) = true then -1 else 1) * ((mantissa : ℚ) * 2 ^ exponent) := by
    unfold rational
    rw [hvalue]
    cases sign <;> simp [unpackedRational, Sign.apply]
  have hnegative : (rational value < 0) ↔ (sign == .negative) = true := by
    rw [hrational]
    cases sign <;> simp <;> linarith
  have hbranch : ∀ {ε : Type} (arithmetic : FloatArithmetic ε) (fuel : Nat),
      literalIn arithmetic fuel value =
        finiteLiteral arithmetic fuel (sign == .negative) value := by
    intro ε arithmetic fuel
    simp [literalIn, isNan_finite hvalue, isFinite_finite hvalue, floatEquals_zero_finite hvalue,
      negative_finite hvalue]
  obtain ⟨number, power, hnumber, hnormal, hsettles⟩ :=
    finiteLiteral_settles computes_target habs htotal (sign == .negative)
  obtain ⟨number', power', hnumber', hnormal', hsettles'⟩ :=
    finiteLiteral_settles computes_exact habs htotal (sign == .negative)
  obtain ⟨rfl, rfl⟩ := normalized_unique hnumber hnumber' (hnormal.symm.trans hnormal')
  obtain ⟨hlength, hdigits, -⟩ := fractionDigits_spec 13 number (show number < 16 ^ 13 by omega)
  refine ⟨(fractionDigits 13 number).toList, power, literalText (sign == .negative) number power,
    hlength, hdigits, ?_, ?_, ?_, ?_⟩
  · unfold literalText
    rw [String.ofList_toList]
    simp only [hnegative]
  · show Outcome.Settles (fun fuel => literalIn targetArithmetic fuel value) _
    simp only [hbranch]
    exact hsettles
  · simp only [hbranch]
    exact hsettles'
  · rw [readHexFloat_literalText hnumber, ← hnormal, hrational]

/-- Three, whose fraction is one half: `0x1.8000000000000p+1`. -/
theorem cFloatLiteral_exact_three : (Float.Model.ofNat 3).isFinite = true ∧
      ∃ text, Outcome.Settles (fun fuel => cFloatLiteral fuel (Float.Model.ofNat 3)) (.ok text) ∧
        readHexFloat text = some 3 := by
  have hthree : rational (Float.Model.ofNat 3) = 3 :=
    (Denotes.ofNat (show 3 < 2 ^ 53 by norm_num)).rational_eq
  obtain ⟨_, _, text, -, -, -, hsettles, -, hread⟩ :=
    cFloatLiteral_exact (Float.Model.ofNat 3) (by decide) (by rw [hthree]; norm_num)
  exact ⟨by decide, text, hsettles, by rw [hread, hthree]⟩

end Blorp.Emit
