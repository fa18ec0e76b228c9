import Blorp.Lex.Spans
import Blorp.Lex.Utf8

/-!
# Windows

Two sources that hold the same bytes over a window, at positions `shift` apart, are
scanned alike there: a scanner that succeeds on the one does on the other, and its tokens
have the same kinds.  A window ends at a LF or at the end of the source, which no scanner
of a single line passes; the line after it opens no pipe String in the second source, so
no block goes on past it either.
-/

namespace Blorp.Lex

open Fuel

/-- The bytes of `text` from `first` to `last` are those of `moved`, `shift` positions
later. -/
structure Window (text moved : SourceText) (first last shift : Nat) : Prop where
  bound : last ≤ text.length
  bytes : ∀ x, first ≤ x → x ≤ last → moved.byteAt (x + shift) = text.byteAt x
  ends : ∀ x, first ≤ x → x ≤ last → (x + shift = moved.length ↔ x = text.length)
  barrier : last = text.length ∨ text.byteIs last asciiLf = true
  /-- No block of the second source goes on in the line after the window. -/
  closed : moved.byteIs (last + shift) asciiLf = true →
    moved.byteIs (moved.runEnd (last + shift + 1) .indentationByte) asciiBar = false

/-- A token and its like in the moved source, inside the window. -/
def ScannedToken.Moves (last shift : Nat) : ScannedToken → ScannedToken → Prop
  | .wordToken spelling _ stop, .wordToken spelling' _ stop' =>
      spelling' = spelling ∧ stop' = stop + shift ∧ stop ≤ last
  | .readyToken ready, .readyToken ready' =>
      ready'.kind = ready.kind ∧ ready'.span.stop = ready.span.stop + shift ∧
        ready.span.stop ≤ last
  | _, _ => False

namespace Window

open SourceText

variable {text moved : SourceText} {first last shift : Nat} (w : Window text moved first last shift)
include w

/-! ## Bytes -/

theorem byteIs {x : Nat} (hfirst : first ≤ x) (hlast : x ≤ last) (expected : Nat) :
    moved.byteIs (x + shift) expected = text.byteIs x expected := by
  unfold SourceText.byteIs
  rw [w.bytes x hfirst hlast]

theorem byteIn {x : Nat} (hfirst : first ≤ x) (hlast : x ≤ last) (cls : ByteClass) :
    moved.byteIn (x + shift) cls = text.byteIn x cls := by
  unfold SourceText.byteIn
  rw [w.bytes x hfirst hlast]

theorem inside {x byte : Nat} (hlast : x ≤ last) (hbyte : text.byteAt x = some byte)
    (hlf : byte ≠ asciiLf) : x < last := by
  refine Nat.lt_of_le_of_ne hlast ?_
  rintro rfl
  obtain hend | hend := w.barrier
  · have := lt_length_of_byteAt hbyte
    omega
  · rw [byteIs_iff, hbyte] at hend
    exact hlf (Option.some_inj.mp hend)

theorem inside_byteIs {x expected : Nat} (hlast : x ≤ last)
    (hbyte : text.byteIs x expected = true) (hlf : expected ≠ asciiLf) : x < last :=
  w.inside hlast (byteIs_iff.mp hbyte) hlf

theorem inside_byteIn {x : Nat} {cls : ByteClass} (hlast : x ≤ last)
    (hbyte : text.byteIn x cls = true) : x < last := by
  obtain ⟨byte, hat, hin⟩ := byteIn_iff.mp hbyte
  refine w.inside hlast hat ?_
  rintro rfl
  revert hin
  cases cls <;> decide

section

variable {x : Nat} (hfirst : first ≤ x)

include hfirst

theorem pair {byte : Nat} (hlast : x ≤ last) (hlf : byte ≠ asciiLf) (next : Nat) :
    (moved.byteIs (x + shift) byte && moved.byteIs (x + shift + 1) next)
      = (text.byteIs x byte && text.byteIs (x + 1) next) := by
  rw [w.byteIs hfirst hlast]
  cases hbyte : text.byteIs x byte with
  | false => rfl
  | true =>
    have hlt := w.inside_byteIs hlast hbyte hlf
    rw [Nat.add_right_comm, w.byteIs (by omega) hlt]

theorem le_length (hlast : x ≤ last) : x + shift ≤ moved.length := by
  by_cases hend : x = text.length
  · exact Nat.le_of_eq ((w.ends x hfirst hlast).mpr hend)
  · have hlt : x < text.length := Nat.lt_of_le_of_ne (Nat.le_trans hlast w.bound) hend
    obtain ⟨byte, hbyte⟩ : ∃ byte, text.byteAt x = some byte := by
      unfold SourceText.byteAt
      rw [List.getElem?_eq_getElem hlt]
      exact ⟨_, rfl⟩
    rw [← w.bytes x hfirst hlast] at hbyte
    exact Nat.le_of_lt (lt_length_of_byteAt hbyte)

theorem sliceBoundary (hlast : x ≤ last) :
    moved.sliceBoundary (x + shift) = text.sliceBoundary x := by
  unfold SourceText.sliceBoundary
  rw [w.bytes x hfirst hlast]

theorem sliced {y : Nat} (hle : x ≤ y) (hlast : y ≤ last) :
    moved.sliced (x + shift) (y + shift) = text.sliced x y := by
  have hbytes : (moved.bytes.drop (x + shift)).take (y + shift - (x + shift))
      = (text.bytes.drop x).take (y - x) := by
    have hwidth : y + shift - (x + shift) = y - x := by omega
    rw [hwidth]
    refine List.ext_getElem? fun i => ?_
    by_cases hi : i < y - x
    · have hbyte := w.bytes (x + i) (by omega) (by omega)
      rw [show x + i + shift = x + shift + i by omega] at hbyte
      rw [List.getElem?_take_of_lt hi, List.getElem?_take_of_lt hi, List.getElem?_drop,
        List.getElem?_drop]
      exact Option.map_injective (fun _ _ => UInt8.toNat_inj.mp) hbyte
    · rw [List.getElem?_take_eq_none (Nat.le_of_not_lt hi),
        List.getElem?_take_eq_none (Nat.le_of_not_lt hi)]
  have hstart := w.sliceBoundary hfirst (Nat.le_trans hle hlast)
  have hstop := w.sliceBoundary (Nat.le_trans hfirst hle) hlast
  have hin : y ≤ text.length := Nat.le_trans hlast w.bound
  have hin' := w.le_length (Nat.le_trans hfirst hle) hlast
  have hle' : x + shift ≤ y + shift := by omega
  unfold SourceText.sliced SourceText.slice
  simp [hstart, hstop, hbytes, hle, hle', hin, hin']

end

end Window

theorem SourceText.runEnd_eq {text : SourceText} {start stop : Nat} {cls : ByteClass}
    (hle : start ≤ stop) (hrun : ∀ i, start ≤ i → i < stop → text.byteIn i cls = true)
    (hstop : text.byteIn stop cls = false) : text.runEnd start cls = stop := by
  refine advance_eq hle ?_ hrun hstop
  by_cases hempty : start = stop
  · omega
  · have := lt_length_of_byteIn (hrun (stop - 1) (by omega) (by omega))
    omega

namespace Window

open SourceText

variable {text moved : SourceText} {first last shift : Nat} (w : Window text moved first last shift)
include w

theorem runEnd_le {x : Nat} (hlast : x ≤ last) (cls : ByteClass) : text.runEnd x cls ≤ last := by
  refine Nat.le_of_not_lt fun hlt => ?_
  have hbyte := (text.runEnd_spec x cls).2.2.1 last hlast hlt
  exact Nat.lt_irrefl _ (w.inside_byteIn (Nat.le_refl _) hbyte)

theorem runEnd {x : Nat} (hfirst : first ≤ x) (hlast : x ≤ last) (cls : ByteClass) :
    moved.runEnd (x + shift) cls = text.runEnd x cls + shift := by
  obtain ⟨hle, -, hrun, hstop⟩ := text.runEnd_spec x cls
  have hend := w.runEnd_le hlast cls
  refine runEnd_eq (by omega) (fun i hi hlt => ?_) ?_
  · obtain ⟨j, rfl⟩ : ∃ j, i = j + shift := ⟨i - shift, by omega⟩
    rw [w.byteIn (by omega) (by omega)]
    exact hrun j (by omega) (by omega)
  · rw [w.byteIn (by omega) hend]
    exact hstop

/-! ## Characters -/

theorem utf8Scalar {start : Nat} (start' : Nat) : ∀ {left cursor scalar result : Nat},
    first ≤ cursor → cursor ≤ last → text.utf8Scalar start left cursor scalar = .ok result →
      moved.utf8Scalar start' left (cursor + shift) scalar = .ok result ∧ cursor + left ≤ last := by
  intro left
  induction left with
  | zero => exact fun _ hlast h => ⟨h, hlast⟩
  | succ left ih =>
    intro cursor scalar result hfirst hlast h
    unfold SourceText.utf8Scalar at h ⊢
    rw [w.bytes cursor hfirst hlast]
    split at h
    · cases h
    · rename_i byte hbyte
      split at h
      · rename_i hcontinues
        have hlt : cursor + 1 ≤ last := by
          refine w.inside hlast hbyte ?_
          rintro rfl
          exact absurd hcontinues (by decide)
        obtain ⟨hmoved, hend⟩ := ih (by omega) hlt h
        rw [Nat.add_right_comm] at hmoved
        simp only [hcontinues, ↓reduceIte]
        exact ⟨hmoved, by omega⟩
      · cases h

theorem utf8End {start lead stop : Nat} (hfirst : first ≤ start)
    (hlt : start + 1 ≤ last) (h : text.utf8End start lead = .ok stop) :
    moved.utf8End (start + shift) lead = .ok (stop + shift) ∧ stop ≤ last := by
  unfold SourceText.utf8End at h ⊢
  split at h
  · cases h
  · obtain ⟨scalar, hscalar, h⟩ := Except.peel h
    obtain ⟨hmoved, hend⟩ := w.utf8Scalar (start + shift) (by omega) hlt hscalar
    rw [Nat.add_right_comm] at hmoved
    rw [hmoved]
    split at h
    · cases h
    · rename_i hvalid
      cases h
      refine ⟨?_, by omega⟩
      show (if _ then _ else _) = _
      rw [if_neg hvalid, Nat.add_right_comm]

theorem rawCharacterEnd {x byte stop : Nat} (hfirst : first ≤ x) (hlast : x ≤ last)
    (hbyte : text.byteAt x = some byte) (h : text.rawCharacterEnd x byte = .ok stop) :
    moved.rawCharacterEnd (x + shift) byte = .ok (stop + shift) ∧ stop ≤ last := by
  unfold SourceText.rawCharacterEnd at h ⊢
  split at h
  · cases h
  rename_i hlf
  have hlt := w.inside hlast hbyte hlf
  split at h
  · cases h
  rename_i hcontrol
  rw [if_neg hlf, if_neg hcontrol]
  split at h
  · rename_i hwide
    rw [if_pos hwide]
    exact w.utf8End hfirst hlt h
  · rename_i hnarrow
    cases h
    rw [if_neg hnarrow, Nat.add_right_comm]
    exact ⟨rfl, hlt⟩

theorem quotedCharacterEnd {start cursor next : Nat} (start' : Nat) (hfirst : first ≤ cursor)
    (hlast : cursor ≤ last) (h : text.quotedCharacterEnd start cursor = .ok next) :
    moved.quotedCharacterEnd start' (cursor + shift) = .ok (next + shift) ∧ next ≤ last := by
  unfold SourceText.quotedCharacterEnd at h ⊢
  rw [w.bytes cursor hfirst hlast]
  split at h
  · cases h
  · rename_i byte hbyte
    split at h
    · rename_i hplain
      rw [if_pos hplain]
      exact w.rawCharacterEnd hfirst hlast hbyte h
    · rename_i hescape
      rw [if_neg hescape]
      have hlt : cursor + 1 ≤ last := by
        refine w.inside hlast hbyte ?_
        rintro rfl
        exact hescape (by decide)
      rw [Nat.add_right_comm, w.bytes (cursor + 1) (by omega) hlt]
      split at h
      · cases h
      · rename_i escaped hescaped
        exact w.rawCharacterEnd (by omega) hlt hescaped h

theorem opensHole {x : Nat} (hfirst : first ≤ x) (hlast : x ≤ last) :
    moved.opensHole (x + shift) = text.opensHole x := w.pair hfirst hlast (by decide) _

theorem commentStarts {x : Nat} (hfirst : first ≤ x) (hlast : x ≤ last) :
    moved.commentStarts (x + shift) = text.commentStarts x := w.pair hfirst hlast (by decide) _

/-! ## Literals -/

omit w in
theorem token_moves {kind : TokenKind} {x y x' y' : Nat} (hlast : y ≤ last) (hstop : y' = y + shift) :
    ScannedToken.Moves last shift (.readyToken (text.token kind x y))
      (.readyToken (moved.token kind x' y')) := ⟨rfl, hstop, hlast⟩

theorem holeQuotedToken {fuel fuel' x : Nat} {ready : Token} (hfuel : fuel ≤ fuel')
    (hfirst : first ≤ x) (hlt : x + 1 ≤ last) (h : text.holeQuotedToken fuel x = .ok ready) :
    ∃ ready', moved.holeQuotedToken fuel' (x + shift) = .ok ready' ∧
      ScannedToken.Moves last shift (.readyToken ready) (.readyToken ready') := by
  unfold SourceText.holeQuotedToken at h ⊢
  obtain ⟨closing, hclosing, h⟩ := Outcome.peel h
  cases h
  obtain ⟨closing', hclosing', rfl, hle, hend⟩ : ∃ closing',
      turns (moved.holeQuotedTurn (x + shift)) fuel' (x + shift + 1) = .ok closing' ∧
        closing' = closing + shift ∧ x + 1 ≤ closing ∧ closing + 1 ≤ last := by
    refine turns_follow
      (R := fun cursor cursor' => cursor' = cursor + shift ∧ x + 1 ≤ cursor ∧ cursor ≤ last)
      (Q := fun closing' => closing' = closing + shift ∧ x + 1 ≤ closing ∧ closing + 1 ≤ last)
      ?_ ?_ hfuel ⟨Nat.add_right_comm _ _ _, Nat.le_refl _, hlt⟩ hclosing
    · rintro cursor _ next - ⟨rfl, hcursor, hlast⟩ hturn -
      have hcursor' : first ≤ cursor := by omega
      unfold SourceText.holeQuotedTurn at hturn ⊢
      simp only [w.byteIs hcursor' hlast, w.opensHole hcursor' hlast, w.ends cursor hcursor' hlast]
      split at hturn
      · cases hturn
      rename_i hquote
      split at hturn
      · cases hturn
      rename_i hend
      split at hturn
      · cases hturn
      rename_i hopens
      obtain ⟨found, hfound, hturn⟩ := Outcome.peel hturn
      cases hturn
      obtain ⟨hmoved, hle⟩ := w.quotedCharacterEnd (x + shift) (by omega) hlast
        (Outcome.liftM_eq_ok.mp hfound)
      have hlater := quotedCharacterEnd_bound (Outcome.liftM_eq_ok.mp hfound)
      rw [if_neg hquote, if_neg hend, if_neg hopens, hmoved]
      exact ⟨_, rfl, rfl, by omega, hle⟩
    · rintro cursor _ ⟨rfl, hcursor, hlast⟩ hturn
      unfold SourceText.holeQuotedTurn at hturn ⊢
      rw [w.byteIs (by omega) hlast]
      split at hturn
      · rename_i hquote
        cases hturn
        rw [if_pos hquote]
        exact ⟨_, rfl, rfl, hcursor, w.inside_byteIs hlast hquote (by decide)⟩
      split at hturn
      · cases hturn
      split at hturn
      · cases hturn
      obtain ⟨_, _, hturn⟩ := Outcome.peel hturn
      cases hturn
  rw [hclosing']
  refine ⟨_, rfl, ?_, ?_, hend⟩
  · show TokenKind.quotedString _ = TokenKind.quotedString _
    rw [Nat.add_right_comm, w.sliced (by omega) hle (by omega)]
  · show closing + shift + 1 = closing + 1 + shift
    omega

theorem charContentEnd {start cursor stop : Nat} (start' : Nat) (hfirst : first ≤ cursor)
    (hlast : cursor ≤ last) (h : text.charContentEnd start cursor = .ok stop) :
    moved.charContentEnd start' (cursor + shift) = .ok (stop + shift) ∧ stop ≤ last := by
  unfold SourceText.charContentEnd at h ⊢
  rw [w.bytes cursor hfirst hlast]
  split at h
  · cases h
  rename_i byte hbyte
  simp only at h ⊢
  split at h
  · cases h
  rename_i hlf
  have hlt : cursor + 1 ≤ last := w.inside hlast hbyte hlf
  rw [if_neg hlf]
  split at h
  · cases h
  rename_i hquote
  rw [if_neg hquote]
  split at h
  · rename_i hescape
    rw [if_pos hescape]
    split at h
    · cases h
    rename_i hinside
    cases h
    have hnext : first ≤ cursor + 1 := by omega
    simp only [Nat.add_right_comm cursor shift 1, w.ends (cursor + 1) hnext hlt,
      w.byteIs hnext hlt]
    rw [if_neg hinside, Nat.add_right_comm]
    refine ⟨rfl, Nat.lt_of_le_of_ne hlt ?_⟩
    rintro rfl
    exact hinside w.barrier
  rename_i hescape
  rw [if_neg hescape]
  split at h
  · cases h
  rename_i hcontrol
  rw [if_neg hcontrol]
  split at h
  · rename_i hwide
    rw [if_pos hwide]
    exact w.utf8End hfirst hlt h
  · rename_i hnarrow
    cases h
    rw [if_neg hnarrow, Nat.add_right_comm]
    exact ⟨rfl, hlt⟩

section

variable {x : Nat} (hfirst : first ≤ x)

include hfirst

theorem charToken {ready : Token} (hlt : x + 1 ≤ last) (h : text.charToken x = .ok ready) :
    ∃ ready', moved.charToken (x + shift) = .ok ready' ∧
      ScannedToken.Moves last shift (.readyToken ready) (.readyToken ready') := by
  unfold SourceText.charToken at h ⊢
  obtain ⟨stop, hstop, h⟩ := Except.peel h
  obtain ⟨hmoved, hle⟩ := w.charContentEnd (x + shift) (by omega) hlt hstop
  have hlater := charContentEnd_lt hstop
  rw [Nat.add_right_comm x shift 1, hmoved]
  split at h
  · rename_i hquote
    cases h
    have hquote' : moved.byteIs (stop + shift) asciiSingleQuote = true := by
      rw [w.byteIs (by omega) hle]
      exact hquote
    refine ⟨moved.token .charLiteral (x + shift) (stop + shift + 1), ?_,
      token_moves (w.inside_byteIs hle hquote (by decide)) (by omega)⟩
    show (if moved.byteIs (stop + shift) asciiSingleQuote = true then
      Except.ok (moved.token .charLiteral (x + shift) (stop + shift + 1)) else _) = _
    rw [if_pos hquote']
  · split at h <;> cases h

theorem numericTokenEnd {y : Nat} {isFloat : Bool} {ready : Token} (hle : x ≤ y) (hlast : y ≤ last)
    (h : text.numericTokenEnd x y isFloat = .ok ready) :
    ∃ ready', moved.numericTokenEnd (x + shift) (y + shift) isFloat = .ok ready' ∧
      ScannedToken.Moves last shift (.readyToken ready) (.readyToken ready') := by
  unfold SourceText.numericTokenEnd at h ⊢
  rw [w.byteIn (by omega) hlast]
  split at h
  · cases h
  · rename_i hsuffix
    cases h
    rw [if_neg hsuffix, w.sliced hfirst hle hlast]
    exact ⟨_, rfl, token_moves hlast rfl⟩

theorem exponentToken {marker : Nat} {ready : Token} (hle : x ≤ marker) (hlast : marker + 1 ≤ last)
    (h : text.exponentToken x marker = .ok ready) :
    ∃ ready', moved.exponentToken (x + shift) (marker + shift) = .ok ready' ∧
      ScannedToken.Moves last shift (.readyToken ready) (.readyToken ready') := by
  unfold SourceText.exponentToken at h ⊢
  simp only [Nat.add_right_comm marker shift 1, w.byteIs (by omega : first ≤ marker + 1) hlast]
  generalize hdigits : (if (text.byteIs (marker + 1) asciiPlus ||
    text.byteIs (marker + 1) asciiMinus) = true then marker + 1 + 1 else marker + 1) = digits at h
  have hdigits' : (if (text.byteIs (marker + 1) asciiPlus ||
      text.byteIs (marker + 1) asciiMinus) = true then marker + 1 + shift + 1
      else marker + 1 + shift) = digits + shift := by
    subst hdigits
    split <;> omega
  have hrange : marker + 1 ≤ digits ∧ digits ≤ last := by
    subst hdigits
    split
    · rename_i hsign
      have hlt : marker + 1 < last := by
        obtain hplus | hminus := Bool.or_eq_true_iff.mp hsign
        · exact w.inside_byteIs hlast hplus (by decide)
        · exact w.inside_byteIs hlast hminus (by decide)
      omega
    · omega
  simp only [hdigits, hdigits', w.byteIn (by omega : first ≤ digits) hrange.2,
    w.runEnd (by omega : first ≤ digits) hrange.2] at h ⊢
  split at h
  · rename_i hdigit
    have hrun := text.le_runEnd digits .decimalDigit
    have hend := w.runEnd_le hrange.2 .decimalDigit
    rw [if_pos hdigit]
    exact w.numericTokenEnd hfirst (by omega) hend h
  · cases h

theorem nameFollows (hlast : x ≤ last) : moved.nameFollows (x + shift) = text.nameFollows x := by
  unfold SourceText.nameFollows
  have hle := text.le_runEnd x .spaceByte
  rw [w.runEnd hfirst hlast, w.byteIn (by omega) (w.runEnd_le hlast _)]

theorem numericToken {ready : Token} (hlast : x ≤ last) (h : text.numericToken x = .ok ready) :
    ∃ ready', moved.numericToken (x + shift) = .ok ready' ∧
      ScannedToken.Moves last shift (.readyToken ready) (.readyToken ready') := by
  unfold SourceText.numericToken at h ⊢
  have hle := text.le_runEnd x .decimalDigit
  have hend := w.runEnd_le hlast .decimalDigit
  rw [w.runEnd hfirst hlast]
  generalize text.runEnd x .decimalDigit = stop at h hle hend ⊢
  have hstop : first ≤ stop := by omega
  simp only [Nat.add_right_comm stop shift 1, w.byteIs hstop hend] at h ⊢
  -- What the mantissa's end decides, once it is known.
  have hrest : ∀ mantissa fraction rejected rejected', x ≤ mantissa → mantissa ≤ last →
      (rejected' = true ↔ rejected = true) →
      (if (text.byteIs mantissa asciiLowerE || text.byteIs mantissa asciiUpperE) = true then
          text.exponentToken x mantissa
        else if rejected = true then .error (text.errorAt x (stop + 1) missingFraction)
        else text.numericTokenEnd x mantissa fraction) = .ok ready →
      ∃ ready', (if (moved.byteIs (mantissa + shift) asciiLowerE ||
            moved.byteIs (mantissa + shift) asciiUpperE) = true then
          moved.exponentToken (x + shift) (mantissa + shift)
        else if rejected' = true then
          .error (moved.errorAt (x + shift) (stop + 1 + shift) missingFraction)
        else moved.numericTokenEnd (x + shift) (mantissa + shift) fraction) = .ok ready' ∧
        ScannedToken.Moves last shift (.readyToken ready) (.readyToken ready') := by
    intro mantissa fraction rejected rejected' hmantissa hmantissa' hrejected h
    rw [w.byteIs (by omega) hmantissa', w.byteIs (by omega) hmantissa']
    split at h
    · rename_i hexponent
      rw [if_pos hexponent]
      refine w.exponentToken hfirst hmantissa ?_ h
      obtain hlower | hupper := Bool.or_eq_true_iff.mp hexponent
      · exact w.inside_byteIs hmantissa' hlower (by decide)
      · exact w.inside_byteIs hmantissa' hupper (by decide)
    · rename_i hexponent
      rw [if_neg hexponent]
      split at h
      · cases h
      · rename_i hkept
        rw [if_neg (fun hdrop => hkept (hrejected.mp hdrop))]
        exact w.numericTokenEnd hfirst hmantissa hmantissa' h
  cases hdot : text.byteIs stop asciiDot with
  | false =>
    simp only [hdot, Bool.false_and, Bool.false_eq_true, ↓reduceIte] at h ⊢
    exact hrest stop false false false hle hend Iff.rfl h
  | true =>
    have hafter : stop + 1 ≤ last := w.inside_byteIs hend hdot (by decide)
    simp only [hdot, w.byteIs (by omega : first ≤ stop + 1) hafter,
      w.byteIn (by omega : first ≤ stop + 1) hafter, w.nameFollows (by omega) hafter,
      w.runEnd (by omega : first ≤ stop + 1) hafter] at h ⊢
    split at h
    · rename_i hfraction
      rw [if_pos hfraction]
      have := text.le_runEnd (stop + 1) .decimalDigit
      exact hrest _ _ _ _ (by omega) (w.runEnd_le hafter _) Iff.rfl h
    · rename_i hfraction
      rw [if_neg hfraction]
      exact hrest _ _ _ _ hle hend Iff.rfl h

end

/-! ## Symbols and words -/

omit w in
theorem symbol_moves {value : Symbol} {x y x' y' : Nat} (hlast : y ≤ last)
    (hstop : y' = y + shift) :
    ScannedToken.Moves last shift (.readyToken (text.symbol value x y))
      (.readyToken (moved.symbol value x' y')) := ⟨rfl, hstop, hlast⟩

theorem operatorToken {x : Nat} {row : OperatorRow} {ready : Token} (hrow : row ∈ operatorRows)
    (hfirst : first ≤ x) (hlt : x + 1 ≤ last) (h : text.operatorToken x row = .ok ready) :
    ∃ ready', moved.operatorToken (x + shift) row = .ok ready' ∧
      ScannedToken.Moves last shift (.readyToken ready) (.readyToken ready') := by
  have hall : ∀ row ∈ operatorRows, ∀ pair ∈ row.pairs, pair.1 ≠ asciiLf := by decide
  unfold SourceText.operatorToken at h ⊢
  have hsame : (fun pair : Nat × (Symbol ⊕ ErrorText) => moved.byteIs (x + shift + 1) pair.1)
      = fun pair => text.byteIs (x + 1) pair.1 := by
    funext pair
    rw [Nat.add_right_comm, w.byteIs (by omega) hlt]
  rw [hsame]
  split at h
  · rename_i byte value hfound
    cases h
    have hbyte := List.find?_some hfound
    have hlf := hall row hrow _ (List.mem_of_find?_eq_some hfound)
    exact ⟨_, rfl, symbol_moves (w.inside_byteIs hlt hbyte hlf) (by omega)⟩
  · cases h
  · cases h
    exact ⟨_, rfl, symbol_moves hlt (by omega)⟩

theorem numberOrPunctuation {x : Nat} {ready : Token} (hfirst : first ≤ x) (hlast : x ≤ last)
    (h : text.numberOrPunctuation x = .ok ready) :
    ∃ ready', moved.numberOrPunctuation (x + shift) = .ok ready' ∧
      ScannedToken.Moves last shift (.readyToken ready) (.readyToken ready') := by
  unfold SourceText.numberOrPunctuation at h ⊢
  rw [w.pair hfirst hlast (by decide : asciiExclamation ≠ asciiLf),
    w.pair hfirst hlast (by decide : asciiQuestion ≠ asciiLf), w.byteIn hfirst hlast,
    w.byteIs hfirst hlast, w.byteIs hfirst hlast, w.bytes x hfirst hlast]
  split at h
  · rename_i hpair
    cases h
    obtain ⟨hmark, hequals⟩ := Bool.and_eq_true_iff.mp hpair
    have hlt := w.inside_byteIs hlast hmark (by decide)
    rw [if_pos hpair]
    exact ⟨_, rfl, symbol_moves (w.inside_byteIs hlt hequals (by decide)) (by omega)⟩
  rename_i hdifferent
  rw [if_neg hdifferent]
  split at h
  · rename_i hpair
    cases h
    obtain ⟨hmark, hequals⟩ := Bool.and_eq_true_iff.mp hpair
    have hlt := w.inside_byteIs hlast hmark (by decide)
    rw [if_pos hpair]
    exact ⟨_, rfl, symbol_moves (w.inside_byteIs hlt hequals (by decide)) (by omega)⟩
  rename_i hquestion
  rw [if_neg hquestion]
  split at h
  · rename_i hdigit
    rw [if_pos hdigit]
    exact w.numericToken hfirst hlast h
  rename_i hdigit
  rw [if_neg hdigit]
  split at h
  · cases h
  rename_i hcr
  rw [if_neg hcr]
  split at h
  · cases h
  rename_i htab
  rw [if_neg htab]
  split at h
  · rename_i value hvalue
    cases h
    obtain ⟨byte, hbyte, hpunctuation⟩ := Option.bind_eq_some_iff.mp hvalue
    have hlt : x < last := by
      refine w.inside hlast hbyte ?_
      rintro rfl
      cases hpunctuation
    exact ⟨_, rfl, symbol_moves hlt (by omega)⟩
  · cases h

theorem symbolToken {x : Nat} {ready : Token} (hfirst : first ≤ x) (hlast : x ≤ last)
    (h : text.symbolToken x = .ok ready) :
    ∃ ready', moved.symbolToken (x + shift) = .ok ready' ∧
      ScannedToken.Moves last shift (.readyToken ready) (.readyToken ready') := by
  have hrows : ∀ row ∈ operatorRows, row.first ≠ asciiLf := by decide
  unfold SourceText.symbolToken at h ⊢
  have hdots := w.pair hfirst hlast (by decide : asciiDot ≠ asciiLf) asciiDot
  have hthird : (text.byteIs x asciiDot && text.byteIs (x + 1) asciiDot) = true →
      x + 2 ≤ last ∧ moved.byteIs (x + shift + 2) asciiDot = text.byteIs (x + 2) asciiDot := by
    intro htwo
    obtain ⟨hone, hnext⟩ := Bool.and_eq_true_iff.mp htwo
    have hlt : x + 1 ≤ last := w.inside_byteIs hlast hone (by decide)
    have hlt' : x + 2 ≤ last := w.inside_byteIs hlt hnext (by decide)
    refine ⟨hlt', ?_⟩
    rw [Nat.add_right_comm]
    exact w.byteIs (by omega) hlt' _
  have hsame : (fun row : OperatorRow => moved.byteIs (x + shift) row.first)
      = fun row => text.byteIs x row.first := by
    funext row
    exact w.byteIs hfirst hlast _
  rw [hdots, hsame]
  by_cases htwo : (text.byteIs x asciiDot && text.byteIs (x + 1) asciiDot) = true
  · obtain ⟨hlt, hthird⟩ := hthird htwo
    rw [htwo, hthird]
    rw [htwo] at h
    split at h
    · rename_i hthree
      cases h
      rw [if_pos hthree]
      exact ⟨_, rfl, symbol_moves (w.inside_byteIs hlt hthree (by decide)) (by omega)⟩
    · rename_i hthree
      rw [if_neg hthree, if_pos rfl]
      cases h
      exact ⟨_, rfl, symbol_moves hlt (by omega)⟩
  · have hnot : (text.byteIs x asciiDot && text.byteIs (x + 1) asciiDot) = false := by
      simpa using htwo
    simp only [hnot, Bool.false_and, Bool.false_eq_true, ↓reduceIte] at h ⊢
    split at h
    · rename_i row hrow
      have hmem := List.mem_of_find?_eq_some hrow
      have hbyte := List.find?_some hrow
      exact w.operatorToken hmem hfirst (w.inside_byteIs hlast hbyte (hrows row hmem)) h
    · exact w.numberOrPunctuation hfirst hlast h

theorem literalOrSymbol {fuel fuel' x : Nat} {ready : Token} (hfuel : fuel ≤ fuel')
    (hfirst : first ≤ x) (hlast : x ≤ last) (h : text.literalOrSymbol fuel x = .ok ready) :
    ∃ ready', moved.literalOrSymbol fuel' (x + shift) = .ok ready' ∧
      ScannedToken.Moves last shift (.readyToken ready) (.readyToken ready') := by
  unfold SourceText.literalOrSymbol at h ⊢
  rw [w.byteIs hfirst hlast, w.byteIs hfirst hlast]
  split at h
  · rename_i hquote
    rw [if_pos hquote]
    exact w.holeQuotedToken hfuel hfirst (w.inside_byteIs hlast hquote (by decide)) h
  rename_i hquote
  rw [if_neg hquote]
  split at h
  · rename_i hchar
    obtain ⟨ready', hmoved, hmoves⟩ := w.charToken hfirst
      (w.inside_byteIs hlast hchar (by decide)) (Outcome.liftM_eq_ok.mp h)
    rw [if_pos hchar, hmoved]
    exact ⟨ready', rfl, hmoves⟩
  · rename_i hchar
    obtain ⟨ready', hmoved, hmoves⟩ := w.symbolToken hfirst hlast (Outcome.liftM_eq_ok.mp h)
    rw [if_neg hchar, hmoved]
    exact ⟨ready', rfl, hmoves⟩

theorem codeToken {fuel fuel' x : Nat} {scanned : ScannedToken} (hfuel : fuel ≤ fuel')
    (hfirst : first ≤ x) (hlast : x ≤ last) (h : text.codeToken fuel x = .ok scanned) :
    ∃ scanned', moved.codeToken fuel' (x + shift) = .ok scanned' ∧
      ScannedToken.Moves last shift scanned scanned' := by
  unfold SourceText.codeToken at h ⊢
  rw [w.byteIn hfirst hlast]
  split at h
  · rename_i hword
    have hlt : x + 1 ≤ last := w.inside_byteIn hlast hword
    have hle := text.le_runEnd (x + 1) .identifierByte
    have hend := w.runEnd_le hlt .identifierByte
    rw [if_pos hword, Nat.add_right_comm, w.runEnd (by omega) hlt]
    simp only [w.sliced hfirst (by omega : x ≤ text.runEnd (x + 1) .identifierByte) hend] at h ⊢
    split at h
    · cases h
      exact ⟨_, rfl, token_moves hend rfl⟩
    · cases h
      exact ⟨_, rfl, rfl, rfl, hend⟩
  · rename_i hword
    obtain ⟨ready, hready, h⟩ := Outcome.peel h
    cases h
    obtain ⟨ready', hmoved, hmoves⟩ := w.literalOrSymbol hfuel hfirst hlast hready
    rw [if_neg hword, hmoved]
    exact ⟨_, rfl, hmoves⟩

/-! ## Comments -/

theorem commentContinues {x : Nat} (hfirst : first ≤ x) (hlast : x ≤ last) :
    moved.commentContinues (x + shift) = text.commentContinues x := by
  unfold SourceText.commentContinues
  rw [w.bytes x hfirst hlast]

theorem inside_comment {x : Nat} (hlast : x ≤ last) (h : text.commentContinues x = true) :
    x < last := by
  unfold SourceText.commentContinues at h
  split at h
  · rename_i byte hbyte
    simp only [Bool.and_eq_true, bne_iff_ne] at h
    exact w.inside hlast hbyte h.1.2
  · cases h

theorem commentEnd {x stop : Nat} (hfirst : first ≤ x) (hlt : x + 2 ≤ last)
    (h : text.commentEnd x = .ok stop) :
    moved.commentEnd (x + shift) = .ok (stop + shift) ∧ x + 2 ≤ stop ∧ stop ≤ last := by
  unfold SourceText.commentEnd at h ⊢
  obtain ⟨hle, -, hrun, -⟩ := advance_spec
    (fun position => position < text.length && text.commentContinues position)
    (text.length - (x + 2)) (x + 2)
  generalize advance (fun position => position < text.length && text.commentContinues position)
    (text.length - (x + 2)) (x + 2) = found at h hle hrun
  simp only at h
  split at h
  · rename_i hend
    cases h
    have hlast : stop ≤ last := by
      refine Nat.le_of_not_lt fun hpassed => ?_
      have hcontinues := (Bool.and_eq_true_iff.mp (hrun last hlt hpassed)).2
      exact Nat.lt_irrefl _ (w.inside_comment (Nat.le_refl _) hcontinues)
    have hmoved : advance (fun position => position < moved.length &&
        moved.commentContinues position) (moved.length - (x + shift + 2)) (x + shift + 2)
        = stop + shift := by
      have hbound := w.le_length (by omega : first ≤ stop) hlast
      refine advance_eq (by omega) (by omega) (fun i hi hbefore => ?_) ?_
      · obtain ⟨j, rfl⟩ : ∃ j, i = j + shift := ⟨i - shift, by omega⟩
        have hcontinues := (Bool.and_eq_true_iff.mp (hrun j (by omega) (by omega))).2
        have hin : j + shift < moved.length := by omega
        rw [w.commentContinues (by omega) (by omega), hcontinues]
        simpa using hin
      · rw [w.commentContinues (by omega) hlast]
        obtain hend | hlf := hend
        · have hend' := (w.ends stop (by omega) hlast).mpr hend
          simp [hend']
        · rw [byteIs_iff] at hlf
          simp [SourceText.commentContinues, hlf]
    simp only [hmoved, w.ends stop (by omega : first ≤ stop) hlast,
      w.byteIs (by omega : first ≤ stop) hlast]
    rw [if_pos hend]
    exact ⟨rfl, hle, hlast⟩
  · split at h <;> cases h

theorem codeCommentEnd {previous previous' : Option ScannedToken} {x stop : Nat}
    (hfirst : first ≤ x) (hlast : x ≤ last) (hstarts : text.commentStarts x = true)
    (hprevious : afterValue previous' (x + shift) = afterValue previous x)
    (h : text.codeCommentEnd previous x = .ok stop) :
    moved.codeCommentEnd previous' (x + shift) = .ok (stop + shift) ∧ x + 2 ≤ stop ∧
      stop ≤ last := by
  unfold SourceText.codeCommentEnd at h ⊢
  rw [hprevious]
  split at h
  · cases h
  · rename_i hvalue
    obtain ⟨hone, htwo⟩ := Bool.and_eq_true_iff.mp hstarts
    have hlt : x + 1 ≤ last := w.inside_byteIs hlast hone (by decide)
    rw [if_neg hvalue]
    exact w.commentEnd hfirst (w.inside_byteIs hlt htwo (by decide)) h

end Window

/-! ## Lists of tokens -/

namespace ScannedToken

variable {last shift : Nat}

variable {scanned scanned' : ScannedToken}

section

variable (h : Moves last shift scanned scanned')

include h

theorem Moves.stop : scanned'.stop = scanned.stop + shift ∧ scanned.stop ≤ last := by
  cases scanned <;> cases scanned'
  · exact ⟨h.2.1, h.2.2⟩
  · exact h.elim
  · exact h.elim
  · exact ⟨h.2.1, h.2.2⟩

theorem Moves.afterValue (cursor : Nat) : SourceText.afterValue (some scanned') (cursor + shift)
      = SourceText.afterValue (some scanned) cursor := by
  have hsame : ∀ stop : Nat, (stop + shift == cursor + shift) = (stop == cursor) := by
    intro stop
    rw [Bool.eq_iff_iff, beq_iff_eq, beq_iff_eq]
    omega
  cases scanned <;> cases scanned'
  · obtain ⟨-, rfl, -⟩ := h
    exact hsame _
  · exact h.elim
  · exact h.elim
  · obtain ⟨hkind, hstop, -⟩ := h
    simp [SourceText.afterValue, hkind, hstop, hsame]

theorem Moves.bracesAfter (braces : Nat) :
    SourceText.bracesAfter braces scanned' = SourceText.bracesAfter braces scanned := by
  cases scanned <;> cases scanned'
  · rfl
  · exact h.elim
  · exact h.elim
  · simp [SourceText.bracesAfter, h.1]

end

end ScannedToken

/-- Tokens and their likes in the moved source. -/
abbrev Moved (last shift : Nat) : List ScannedToken → List ScannedToken → Prop :=
  List.Forall₂ (ScannedToken.Moves last shift)

theorem getLast?_forall₂ {α β : Type} {R : α → β → Prop} {as : List α} {bs : List β}
    (h : List.Forall₂ R as bs) : Option.Rel R as.getLast? bs.getLast? := by
  induction h with
  | nil => exact .none
  | @cons a b as bs hab hrest ih =>
    cases hrest with
    | nil => exact .some hab
    | cons hab' hrest' => simpa using ih

variable {last shift : Nat} {tokens tokens' : List ScannedToken}

theorem Moved.append {more more' : List ScannedToken} (h : Moved last shift tokens tokens')
    (hmore : Moved last shift more more') :
    Moved last shift (tokens ++ more) (tokens' ++ more') := List.rel_append h hmore

theorem Moved.one {scanned scanned' : ScannedToken}
    (h : ScannedToken.Moves last shift scanned scanned') : Moved last shift [scanned] [scanned'] :=
  .cons h .nil

theorem Moved.afterValue (h : Moved last shift tokens tokens') (cursor : Nat) :
    SourceText.afterValue tokens'.getLast? (cursor + shift)
      = SourceText.afterValue tokens.getLast? cursor := by
  generalize hlast : tokens.getLast? = previous
  generalize hlast' : tokens'.getLast? = previous'
  have hrel := getLast?_forall₂ h
  rw [hlast, hlast'] at hrel
  cases hrel with
  | none => rfl
  | some hmoves => exact hmoves.afterValue cursor

theorem Moved.isEmpty (h : Moved last shift tokens tokens') : tokens'.isEmpty = tokens.isEmpty := by
  cases h <;> rfl

/-- A hole read so far from `start` on, and its like in the moved source. -/
structure HoleMoves (last shift start : Nat) (state state' : SourceText.HoleState) : Prop where
  tokens : Moved last shift state.tokens state'.tokens
  cursor : state'.cursor = state.cursor + shift
  braces : state'.braces = state.braces
  le : start ≤ state.cursor
  bound : state.cursor ≤ last

/-- A quoted String read so far, and its like in the moved source. -/
structure QuotedMoves (last shift start : Nat) (state state' : SourceText.QuotedState) : Prop where
  tokens : Moved last shift state.tokens state'.tokens
  opened : state'.start = state.start + shift
  cursor : state'.cursor = state.cursor + shift
  first : start ≤ state.start
  le : start ≤ state.cursor
  bound : state.cursor ≤ last

/-- Code scanned from `start` on, and its like in the moved source. -/
structure CodeMoves (last shift start : Nat) (code code' : ScannedCode) : Prop where
  tokens : Moved last shift code.tokens code'.tokens
  stop : code'.stop = code.stop + shift
  le : start ≤ code.stop
  bound : code.stop ≤ last

namespace Window

open SourceText

variable {text moved : SourceText} {first last shift : Nat} (w : Window text moved first last shift)
include w

/-! ## Interpolated Strings -/

theorem interpolationTokens {fuel fuel' x : Nat} {code : ScannedCode} (hfuel : fuel ≤ fuel')
    (hfirst : first ≤ x) (hlast : x + 2 ≤ last) (h : text.interpolationTokens fuel x = .ok code) :
    ∃ code', moved.interpolationTokens fuel' (x + shift) = .ok code' ∧
      CodeMoves last shift x code code' := by
  refine turns_follow (R := HoleMoves last shift x) (Q := CodeMoves last shift x code) ?_ ?_
    hfuel ?_ h
  · intro state state' next _ hstate hturn _
    have hfirst' : first ≤ state.cursor := Nat.le_trans hfirst hstate.le
    have hcursor := hstate.bound
    unfold SourceText.interpolationTurn at hturn ⊢
    simp only [hstate.cursor, hstate.braces, w.ends state.cursor hfirst' hcursor, w.byteIs hfirst' hcursor,
      w.commentStarts hfirst' hcursor] at hturn ⊢
    split at hturn
    · cases hturn
    rename_i hinside
    rw [if_neg hinside]
    split at hturn
    · rename_i hspace
      cases hturn
      rw [if_pos hspace]
      have hlt := w.inside_byteIs hcursor hspace (by decide)
      exact ⟨_, rfl, hstate.tokens, Nat.add_right_comm _ _ _, rfl,
        Nat.le_succ_of_le hstate.le, hlt⟩
    rename_i hspace
    rw [if_neg hspace]
    split at hturn
    · rename_i hcomment
      obtain ⟨stop, hstop, hturn⟩ := Outcome.peel hturn
      cases hturn
      obtain ⟨hmoved, hle, hend⟩ := w.codeCommentEnd hfirst' hcursor hcomment
        (hstate.tokens.afterValue state.cursor) (Outcome.liftM_eq_ok.mp hstop)
      have hx := hstate.le
      rw [if_pos hcomment, hmoved]
      exact ⟨_, rfl, hstate.tokens, rfl, rfl, by simp only; omega, hend⟩
    rename_i hcomment
    rw [if_neg hcomment]
    split at hturn
    · cases hturn
    rename_i hclose
    rw [if_neg hclose]
    obtain ⟨scanned, hscanned, hturn⟩ := Outcome.peel hturn
    cases hturn
    obtain ⟨scanned', hmoved, hmoves⟩ := w.codeToken hfuel hfirst' hcursor hscanned
    have hlength : state.cursor < text.length :=
      Nat.lt_of_le_of_ne (Nat.le_trans hcursor w.bound) fun heq => hinside (.inl heq)
    have hlater := (codeToken_scans hlength hscanned).2
    have hx := hstate.le
    rw [hmoved]
    exact ⟨_, rfl, hstate.tokens.append (.one hmoves), hmoves.stop.1, hmoves.bracesAfter _,
      by simp only; omega, hmoves.stop.2⟩
  · intro state state' hstate hturn
    have hfirst' : first ≤ state.cursor := Nat.le_trans hfirst hstate.le
    have hcursor := hstate.bound
    unfold SourceText.interpolationTurn at hturn ⊢
    simp only [hstate.cursor, hstate.braces, w.ends state.cursor hfirst' hcursor, w.byteIs hfirst' hcursor,
      w.commentStarts hfirst' hcursor] at hturn ⊢
    split at hturn
    · cases hturn
    rename_i hinside
    rw [if_neg hinside]
    split at hturn
    · cases hturn
    rename_i hspace
    rw [if_neg hspace]
    split at hturn
    · obtain ⟨_, _, hturn⟩ := Outcome.peel hturn
      cases hturn
    rename_i hcomment
    rw [if_neg hcomment]
    split at hturn
    · rename_i hclose
      cases hturn
      rw [if_pos hclose]
      have hlt : state.cursor + 1 ≤ last := w.inside_byteIs hcursor hclose.1 (by decide)
      exact ⟨_, rfl, hstate.tokens.append (.one (token_moves hlt (Nat.add_right_comm _ _ _))),
        Nat.add_right_comm _ _ _, Nat.le_succ_of_le hstate.le, hlt⟩
    · obtain ⟨_, _, hturn⟩ := Outcome.peel hturn
      cases hturn
  · exact ⟨.one (token_moves hlast (Nat.add_right_comm _ _ _)), Nat.add_right_comm _ _ _, rfl,
      Nat.le_add_right _ _, hlast⟩

theorem segment {x y : Nat} (hfirst : first ≤ x) (hlast : y ≤ last) :
    Moved last shift (text.segment x y) (moved.segment (x + shift) (y + shift)) := by
  unfold SourceText.segment
  by_cases hlt : x < y
  · rw [if_pos hlt, if_pos (by omega), w.sliced hfirst (Nat.le_of_lt hlt) hlast]
    exact .one (token_moves hlast rfl)
  · rw [if_neg hlt, if_neg (by omega)]
    exact .nil

theorem quotedTokens {fuel fuel' x : Nat} {code : ScannedCode} (hfuel : fuel ≤ fuel')
    (hfirst : first ≤ x) (hlast : x + 1 ≤ last) (h : text.quotedTokens fuel x = .ok code) :
    ∃ code', moved.quotedTokens fuel' (x + shift) = .ok code' ∧
      CodeMoves last shift x code code' := by
  refine turns_follow (R := QuotedMoves last shift (x + 1)) (Q := CodeMoves last shift x code) ?_ ?_
    hfuel ?_ h
  · intro state state' next _ hstate hturn _
    have hx := hstate.le
    have hfirst' : first ≤ state.cursor := by omega
    have hfirst'' : first ≤ state.start := Nat.le_trans (Nat.le_succ_of_le hfirst) hstate.first
    have hcursor := hstate.bound
    unfold SourceText.quotedTurn at hturn ⊢
    simp only [hstate.cursor, hstate.opened, w.byteIs hfirst' hcursor, w.opensHole hfirst' hcursor]
      at hturn ⊢
    split at hturn
    · split at hturn <;> cases hturn
    rename_i hquote
    rw [if_neg hquote]
    split at hturn
    · rename_i hopens
      obtain ⟨hole, hhole, hturn⟩ := Outcome.peel hturn
      cases hturn
      obtain ⟨hdollar, hbrace⟩ := Bool.and_eq_true_iff.mp hopens
      have hlt : state.cursor + 1 ≤ last := w.inside_byteIs hcursor hdollar (by decide)
      have hlt' : state.cursor + 2 ≤ last := w.inside_byteIs hlt hbrace (by decide)
      obtain ⟨hole', hmoved, hmoves⟩ := w.interpolationTokens hfuel hfirst' hlt' hhole
      have hopened : Moved last shift (if state.tokens.isEmpty then
            [.readyToken (text.token (.stringStart .quotedStringForm) x (x + 1))]
          else state.tokens) (if state'.tokens.isEmpty then
            [.readyToken (moved.token (.stringStart .quotedStringForm) (x + shift) (x + shift + 1))]
          else state'.tokens) := by
        rw [hstate.tokens.isEmpty]
        split
        · exact .one (token_moves hlast (Nat.add_right_comm _ _ _))
        · exact hstate.tokens
      have hhole' := hmoves.le
      rw [if_pos hopens, hmoved]
      exact ⟨_, rfl,
        (hopened.append (w.segment hfirst'' hcursor)).append hmoves.tokens,
        hmoves.stop, hmoves.stop, by simp only; omega, by simp only; omega, hmoves.bound⟩
    · rename_i hopens
      obtain ⟨found, hfound, hturn⟩ := Outcome.peel hturn
      cases hturn
      obtain ⟨hmoved, hend⟩ := w.quotedCharacterEnd (x + shift) hfirst' hcursor
        (Outcome.liftM_eq_ok.mp hfound)
      have hlater := (quotedCharacterEnd_bound (Outcome.liftM_eq_ok.mp hfound)).1
      rw [if_neg hopens, hmoved]
      exact ⟨_, rfl, hstate.tokens, rfl, rfl, hstate.first, by simp only; omega, hend⟩
  · intro state state' hstate hturn
    have hx := hstate.le
    have hfirst' : first ≤ state.cursor := by omega
    have hfirst'' : first ≤ state.start := Nat.le_trans (Nat.le_succ_of_le hfirst) hstate.first
    have hcursor := hstate.bound
    unfold SourceText.quotedTurn at hturn ⊢
    simp only [hstate.cursor, hstate.opened, w.byteIs hfirst' hcursor, hstate.tokens.isEmpty]
      at hturn ⊢
    split at hturn
    · rename_i hquote
      have hlt : state.cursor + 1 ≤ last := w.inside_byteIs hcursor hquote (by decide)
      rw [if_pos hquote]
      split at hturn
      · rename_i hempty
        cases hturn
        rw [if_pos hempty]
        refine ⟨_, rfl, ?_, Nat.add_right_comm _ _ _, by simp only; omega, hlt⟩
        refine .one ⟨?_, Nat.add_right_comm _ _ _, hlt⟩
        show TokenKind.quotedString _ = TokenKind.quotedString _
        rw [Nat.add_right_comm, w.sliced (by omega) hx hcursor]
      · rename_i hfull
        cases hturn
        rw [if_neg hfull]
        exact ⟨_, rfl,
          (hstate.tokens.append (w.segment hfirst'' hcursor)).append
            (.one (token_moves hlt (Nat.add_right_comm _ _ _))),
          Nat.add_right_comm _ _ _, by simp only; omega, hlt⟩
    split at hturn
    all_goals
      obtain ⟨_, _, hturn⟩ := Outcome.peel hturn
      cases hturn
  · exact ⟨.nil, Nat.add_right_comm _ _ _, Nat.add_right_comm _ _ _, Nat.le_refl _, Nat.le_refl _,
      hlast⟩

end Window

end Blorp.Lex
