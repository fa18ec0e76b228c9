import Blorp.Specialize.Model
import Blorp.Utils.Names
import Blorp.Lib.Turns

/-!
# Source bytes and tokens

The token vocabulary of `utils/syntax.brp` and the byte level of `lex/lex.brp`: byte
classes, runs of bytes, slices, and UTF-8 scalars.  A source is any list of bytes; a
position is a byte offset.
-/

namespace Blorp.Lex

open Check (Span NameId)
open Fuel

abbrev Bytes := List UInt8

/-! ## Tokens -/

inductive Keyword where
  | pureKeyword | functionKeyword | matchKeyword | varKeyword | voidKeyword | importKeyword
  | typeKeyword | privateKeyword | recordKeyword | unionKeyword | builtinKeyword | asKeyword
  | opaqueKeyword | intoOpaqueKeyword | fromOpaqueKeyword | ifKeyword | elseKeyword
  | whileKeyword | forKeyword | inKeyword | breakKeyword | continueKeyword | implementsKeyword
  | traitKeyword | aliasKeyword | debugKeyword | detachKeyword | foreignKeyword | fromKeyword
  | resourceKeyword | selectKeyword | tryKeyword | whereKeyword
  deriving DecidableEq, Repr

inductive Symbol where
  | atSign | equals | equalsEquals | notEquals | less | greater | lessEquals | greaterEquals
  | questionEquals | wildcard | leftParen | rightParen | leftBracket | rightBracket | leftBrace
  | rightBrace | bar | dot | slash | star | plus | minus | percent | comma | arrow | fatArrow
  | colon | dotDot | ellipsis | newline | indent | dedent
  deriving DecidableEq, Repr

inductive StringForm where
  | quotedStringForm
  | pipeStringForm
  deriving DecidableEq, Repr

inductive TokenKind where
  | identifierToken (name : NameId)
  | keywordToken (keyword : Keyword)
  | symbolToken (symbol : Symbol)
  | integerLiteral (spelling : Bytes)
  | floatLiteral (spelling : Bytes)
  | quotedString (contents : Bytes)
  | pipeString (value : Bytes)
  | stringStart (form : StringForm)
  | stringSegment (contents : Bytes)
  | interpolationOpen
  | interpolationClose
  | stringEnd
  | charLiteral
  deriving DecidableEq, Repr

inductive Spacing where
  | adjacent
  | spaced
  deriving DecidableEq, Repr

structure Token where
  kind : TokenKind
  span : Span
  spacing : Spacing
  deriving DecidableEq, Repr

structure LexedProgram where
  sourceText : Bytes
  tokens : List Token
  stop : Span
  baseNames : NameTable
  names : NameTable

/-! ## Byte codes -/

abbrev spaceIndentWidth : Nat := 4
abbrev docFenceWidth : Nat := 3
abbrev asciiTab : Nat := 9
abbrev asciiLf : Nat := 10
abbrev asciiCr : Nat := 13
abbrev asciiSpace : Nat := 32
abbrev asciiExclamation : Nat := 33
abbrev asciiDoubleQuote : Nat := 34
abbrev asciiDollar : Nat := 36
abbrev asciiPercent : Nat := 37
abbrev asciiSingleQuote : Nat := 39
abbrev asciiLeftParen : Nat := 40
abbrev asciiRightParen : Nat := 41
abbrev asciiStar : Nat := 42
abbrev asciiPlus : Nat := 43
abbrev asciiComma : Nat := 44
abbrev asciiMinus : Nat := 45
abbrev asciiDot : Nat := 46
abbrev asciiSlash : Nat := 47
abbrev asciiZero : Nat := 48
abbrev asciiNine : Nat := 57
abbrev asciiColon : Nat := 58
abbrev asciiLess : Nat := 60
abbrev asciiEquals : Nat := 61
abbrev asciiGreater : Nat := 62
abbrev asciiQuestion : Nat := 63
abbrev asciiAtSign : Nat := 64
abbrev asciiUpperA : Nat := 65
abbrev asciiUpperE : Nat := 69
abbrev asciiUpperZ : Nat := 90
abbrev asciiLeftBracket : Nat := 91
abbrev asciiBackslash : Nat := 92
abbrev asciiRightBracket : Nat := 93
abbrev asciiUnderscore : Nat := 95
abbrev asciiLowerA : Nat := 97
abbrev asciiLowerE : Nat := 101
abbrev asciiLowerR : Nat := 114
abbrev asciiLowerW : Nat := 119
abbrev asciiLowerZ : Nat := 122
abbrev asciiLeftBrace : Nat := 123
abbrev asciiBar : Nat := 124
abbrev asciiRightBrace : Nat := 125
abbrev asciiDel : Nat := 127
abbrev utf8ContinuationStart : Nat := 128
abbrev utf8ContinuationEnd : Nat := 191
abbrev utf8ContinuationRadix : Nat := 64
abbrev unicodeSurrogateStart : Nat := 55296
abbrev unicodeSurrogateEnd : Nat := 57343
abbrev unicodeMax : Nat := 1114111

inductive ByteClass where
  | spaceByte
  | tabByte
  | indentationByte
  | decimalDigit
  | identifierStart
  | identifierByte
  deriving DecidableEq

def within (value first last : Nat) : Bool := value ≥ first && value ≤ last

def isIdentifierStart (code : Nat) : Bool :=
  within code asciiLowerA asciiLowerZ || within code asciiUpperA asciiUpperZ ||
    code == asciiUnderscore

def inClass (code : Nat) : ByteClass → Bool
  | .spaceByte => code == asciiSpace
  | .tabByte => code == asciiTab
  | .indentationByte => code == asciiSpace || code == asciiTab
  | .decimalDigit => within code asciiZero asciiNine
  | .identifierStart => isIdentifierStart code
  | .identifierByte => isIdentifierStart code || within code asciiZero asciiNine

/-! ## Reading bytes -/

structure SourceText where
  origin : Nat
  bytes : Bytes

namespace SourceText

section

variable (text : SourceText)

def length : Nat := text.bytes.length

def byteAt (position : Nat) : Option Nat :=
  (text.bytes[position]?).map UInt8.toNat

def byteIs (position expected : Nat) : Bool :=
  match text.byteAt position with
  | some byte => byte == expected
  | none => false

/-- Whether a byte of `cls` is at `position`; there is none at the end. -/
def byteIn (position : Nat) (cls : ByteClass) : Bool :=
  match text.byteAt position with
  | some byte => inClass byte cls
  | none => false

/-- The first position at or after `start` whose byte is not in `cls`. -/
def runEnd (start : Nat) (cls : ByteClass) : Nat :=
  advance (fun position => text.byteIn position cls) (text.length - start) start

/-- Whether a slice may start or end at `position`: not inside a UTF-8 scalar. -/
def sliceBoundary (position : Nat) : Bool :=
  match text.byteAt position with
  | some byte => !within byte utf8ContinuationStart utf8ContinuationEnd
  | none => true

def slice (start stop : Nat) : Option Bytes :=
  if start ≤ stop ∧ stop ≤ text.length ∧ text.sliceBoundary start ∧ text.sliceBoundary stop then
    some ((text.bytes.drop start).take (stop - start))
  else none

def sliced (start stop : Nat) : Bytes := (text.slice start stop).getD []

end

/-! ## Errors and tokens -/

structure ErrorText where
  message : String
  help : String

def errorAt (text : SourceText) (start stop : Nat) (error : ErrorText) : Diagnostic :=
  diagnostic ⟨text.origin, start, stop⟩ error.message error.help

def byteError (text : SourceText) (position : Nat) (error : ErrorText) : Diagnostic :=
  text.errorAt position (position + 1) error

/-- Layout tokens get spacing too; no syntax reads it there. -/
def token (text : SourceText) (kind : TokenKind) (start stop : Nat) : Token :=
  ⟨kind, ⟨text.origin, start, stop⟩,
    if start ≠ 0 ∧ text.byteIn (start - 1) .indentationByte then .spaced else .adjacent⟩

def symbol (text : SourceText) (value : Symbol) (start stop : Nat) : Token :=
  text.token (.symbolToken value) start stop

end SourceText

open SourceText (ErrorText)

def invalidUtf8 : ErrorText :=
  ⟨"invalid UTF-8 in String literal",
    "use valid UTF-8 text or a Unicode escape such as \\u\x7bE9\x7d; surrogate code points are not Unicode scalars"⟩

def stringLineBreak : ErrorText :=
  ⟨"String literals must stay on one line", "close the quote before LF; write \\n for a newline byte"⟩

def rawControlByte : ErrorText :=
  ⟨"unsupported raw byte in String literal", "use printable text and fixed escapes for control bytes"⟩

/-! ## UTF-8 -/

/-- One UTF-8 encoding width from RFC 3629 section 4.  Its lead range excludes the
overlong leads and every lead above F4; `minimum` rejects the remaining overlong
encodings of that width. -/
structure Utf8Form where
  width : Nat
  firstLead : Nat
  lastLead : Nat
  leadMarker : Nat
  minimum : Nat

def utf8TwoBytes : Utf8Form := ⟨2, 194, 223, 192, 128⟩

def utf8ThreeBytes : Utf8Form := ⟨3, 224, 239, 224, 2048⟩

def utf8FourBytes : Utf8Form := ⟨4, 240, 244, 240, 65536⟩

def utf8Form (lead : Nat) : Option Utf8Form :=
  if within lead utf8TwoBytes.firstLead utf8TwoBytes.lastLead then some utf8TwoBytes
  else if within lead utf8ThreeBytes.firstLead utf8ThreeBytes.lastLead then some utf8ThreeBytes
  else if within lead utf8FourBytes.firstLead utf8FourBytes.lastLead then some utf8FourBytes
  else none

namespace SourceText

/-- Accumulates the `left` remaining continuation bytes from `cursor` on. -/
def utf8Scalar (text : SourceText) (start : Nat) : Nat → Nat → Nat → Except Diagnostic Nat
  | 0, _, scalar => .ok scalar
  | left + 1, cursor, scalar =>
      match text.byteAt cursor with
      | none => .error (text.errorAt start text.length invalidUtf8)
      | some byte =>
          if within byte utf8ContinuationStart utf8ContinuationEnd then
            text.utf8Scalar start left (cursor + 1)
              (scalar * utf8ContinuationRadix + (byte - utf8ContinuationStart))
          else .error (text.byteError cursor invalidUtf8)

/-- Validates the scalar whose lead byte is at `start` and returns its end. -/
def utf8End (text : SourceText) (start lead : Nat) : Except Diagnostic Nat :=
  match utf8Form lead with
  | none => .error (text.byteError start invalidUtf8)
  | some form => do
      let stop := start + form.width
      let scalar ← text.utf8Scalar start (form.width - 1) (start + 1) (lead - form.leadMarker)
      if scalar < form.minimum ∨ scalar > unicodeMax ∨
          within scalar unicodeSurrogateStart unicodeSurrogateEnd then
        .error (text.errorAt start stop invalidUtf8)
      else .ok stop

/-- Validates one raw String byte or UTF-8 scalar at `position`. -/
def rawCharacterEnd (text : SourceText) (position byte : Nat) : Except Diagnostic Nat :=
  if byte = asciiLf then .error (text.byteError position stringLineBreak)
  else if byte < asciiSpace ∨ byte = asciiDel then .error (text.byteError position rawControlByte)
  else if byte > asciiDel then text.utf8End position byte
  else .ok (position + 1)

/-! ## Lemmas -/

variable {text : SourceText}

variable {position start : Nat}

theorem lt_length_of_byteAt {byte : Nat} (h : text.byteAt position = some byte) :
    position < text.length := by
  obtain ⟨code, hcode, -⟩ := Option.map_eq_some_iff.mp h
  exact (List.getElem?_eq_some_iff.mp hcode).1

theorem byteIs_iff {expected : Nat} :
    text.byteIs position expected = true ↔ text.byteAt position = some expected := by
  unfold byteIs
  split <;> simp [*]

theorem byteIn_iff {cls : ByteClass} :
    text.byteIn position cls = true ↔ ∃ byte, text.byteAt position = some byte ∧
      inClass byte cls = true := by
  unfold byteIn
  split <;> simp [*]

theorem lt_length_of_byteIs {expected : Nat} (h : text.byteIs position expected = true) :
    position < text.length :=
  lt_length_of_byteAt (byteIs_iff.mp h)

theorem lt_length_of_byteIn {cls : ByteClass} (h : text.byteIn position cls = true) :
    position < text.length := by
  obtain ⟨byte, hbyte, -⟩ := byteIn_iff.mp h
  exact lt_length_of_byteAt hbyte

theorem byteIs_unique {first second : Nat} (hfirst : text.byteIs position first = true)
    (hsecond : text.byteIs position second = true) : first = second := by
  rw [byteIs_iff] at hfirst hsecond
  exact Option.some.inj (hfirst.symm.trans hsecond)

theorem runEnd_spec (text : SourceText) (start : Nat) (cls : ByteClass) :
    start ≤ text.runEnd start cls ∧
      (start ≤ text.length → text.runEnd start cls ≤ text.length) ∧
      (∀ i, start ≤ i → i < text.runEnd start cls → text.byteIn i cls = true) ∧
      text.byteIn (text.runEnd start cls) cls = false := by
  obtain ⟨hle, hbound, hrun, hstop⟩ :=
    advance_spec (fun position => text.byteIn position cls) (text.length - start) start
  refine ⟨hle, fun h => ?_, hrun, ?_⟩
  · unfold runEnd
    omega
  · rcases hstop with heq | hfalse
    · cases hbyte : text.byteIn (text.runEnd start cls) cls with
      | false => rfl
      | true =>
        have hlt := lt_length_of_byteIn hbyte
        unfold runEnd at hlt
        omega
    · exact hfalse

theorem le_runEnd (text : SourceText) (start : Nat) (cls : ByteClass) :
    start ≤ text.runEnd start cls := (text.runEnd_spec start cls).1

theorem runEnd_le (h : start ≤ text.length) (cls : ByteClass) :
    text.runEnd start cls ≤ text.length := (text.runEnd_spec start cls).2.1 h

theorem utf8Scalar_bound : ∀ {left cursor scalar result : Nat},
    text.utf8Scalar start left cursor scalar = .ok result → cursor ≤ text.length →
      cursor + left ≤ text.length := by
  intro left
  induction left with
  | zero => exact fun _ h => h
  | succ left ih =>
    intro cursor scalar result h hcursor
    unfold utf8Scalar at h
    split at h
    · cases h
    · rename_i byte hbyte
      split at h
      · have := ih h (lt_length_of_byteAt hbyte)
        omega
      · cases h

theorem utf8End_bound {lead stop : Nat} (h : text.utf8End start lead = .ok stop)
    (hstart : start < text.length) : start < stop ∧ stop ≤ text.length := by
  unfold utf8End at h
  split at h
  · cases h
  · rename_i form hform
    have hwidth : 1 ≤ form.width := by
      unfold utf8Form at hform
      split at hform
      · cases hform
        decide
      · split at hform
        · cases hform
          decide
        · split at hform
          · cases hform
            decide
          · cases hform
    obtain ⟨scalar, hscalar, h⟩ := Except.peel h
    have hbound := utf8Scalar_bound hscalar hstart
    split at h
    · cases h
    · cases h
      constructor <;> omega

theorem rawCharacterEnd_bound {byte stop : Nat} (hbyte : text.byteAt position = some byte)
    (h : text.rawCharacterEnd position byte = .ok stop) : position < stop ∧ stop ≤ text.length := by
  have hlt := lt_length_of_byteAt hbyte
  unfold rawCharacterEnd at h
  split at h
  · cases h
  · split at h
    · cases h
    · split at h
      · exact utf8End_bound h hlt
      · cases h
        omega

end SourceText

end Blorp.Lex
