import Blorp.Lex.Lex
import Blorp.Lib.Tiling

/-!
# What the scanners read

Each scanner reads on from where it starts, in tokens and trivia that follow on each
other: `Scans text a tokens b`.  No scanner makes an Indent or a Dedent.
-/

namespace Blorp.Lex

open Fuel Tiling
open SourceText (LinePrefix CodeLine)

/-! ## Indentation tokens -/

def isIndentation : TokenKind → Bool
  | .symbolToken .indent | .symbolToken .dedent => true
  | _ => false

namespace ScannedToken

def isIndentation : ScannedToken → Bool
  | .wordToken .. => false
  | .readyToken ready => Lex.isIndentation ready.kind

def range (scanned : ScannedToken) : Range := ⟨scanned.start, scanned.stop⟩

end ScannedToken

/-! ## Trivia -/

/-- The start of a line, or the end of the source. -/
def AtLine (text : SourceText) (position : Nat) : Prop :=
  position = 0 ∨ text.byteIs (position - 1) asciiLf = true ∨ position = text.length

namespace SourceText

def fenceLine (text : SourceText) (position : Nat) : Bool :=
  (position == 0 || text.byteIs (position - 1) asciiLf) && text.fenceAt position

def fencesBefore (text : SourceText) (position : Nat) : Nat :=
  (List.range position).countP text.fenceLine

/-- Fences come in pairs: the one that opens a block has evenly many before it. -/
def OpensBlock (text : SourceText) (position : Nat) : Prop :=
  text.fenceLine position = true ∧ text.fencesBefore position % 2 = 0

end SourceText

/-- The ranges of a source that are no part of its code. -/
inductive Trivia (text : SourceText) : Nat → Nat → Prop
  | space {a : Nat} : text.byteIs a asciiSpace = true → Trivia text a (a + 1)
  /-- A LF inside brackets or after a line of trivia. -/
  | lineFeed {a : Nat} : text.byteIs a asciiLf = true → Trivia text a (a + 1)
  | indentation {a b : Nat} : AtLine text a →
      (∀ i, a ≤ i → i < b → text.byteIn i .indentationByte = true) → Trivia text a b
  /-- From `--` to the end of the line. -/
  | comment {a b : Nat} : text.commentStarts a = true →
      (∀ i, a ≤ i → i < b → text.byteIs i asciiLf = false) →
      b = text.length ∨ text.byteIs b asciiLf = true → Trivia text a b
  /-- The lines from a fence that opens a block to the next fence, both included. -/
  | documentation {a c b : Nat} : text.OpensBlock a → a < c → text.fenceLine c = true →
      (∀ i, a < i → i < c → text.fenceLine i = false) → text.nextLineStart c = .ok b →
      Trivia text a b
  /-- The indentation and the marker of a later line of a pipe String. -/
  | margin {first : LinePrefix} {lineEnd marker : Nat} : AtLine text first.start →
      first.stop = text.runEnd first.start .indentationByte →
      text.byteIs first.stop asciiBar = true → first.stop < lineEnd →
      text.continuingMarker lineEnd first = some marker → Trivia text (lineEnd + 1) (marker + 1)

/-- Tokens and trivia from one position to another. -/
structure Scans (text : SourceText) (a : Nat) (tokens : List ScannedToken) (b : Nat) : Prop where
  tiles : Tiles (Trivia text) a (tokens.map ScannedToken.range) b
  code : ∀ scanned ∈ tokens, scanned.isIndentation = false
  bound : b ≤ text.length

variable {text : SourceText} {a b c : Nat} {tokens more : List ScannedToken}

namespace Scans

theorem nil (h : a ≤ text.length) : Scans text a [] a := ⟨.nil a, by simp, h⟩

theorem append (h : Scans text a tokens b) (hmore : Scans text b more c) :
    Scans text a (tokens ++ more) c := by
  refine ⟨?_, fun scanned hscanned => ?_, hmore.bound⟩
  · rw [List.map_append]
    exact h.tiles.append hmore.tiles
  · rcases List.mem_append.mp hscanned with hfirst | hlater
    · exact h.code scanned hfirst
    · exact hmore.code scanned hlater

theorem trivia (hle : a ≤ b) (hbound : b ≤ text.length) (h : Trivia text a b) :
    Scans text a [] b := ⟨.trivial hle h, by simp, hbound⟩

theorem skip (h : Scans text a tokens b) (hle : b ≤ c) (hbound : c ≤ text.length)
    (htrivia : Trivia text b c) : Scans text a tokens c := by
  have := h.append (.trivia hle hbound htrivia)
  rwa [List.append_nil] at this

theorem token {kind : TokenKind} (hle : a ≤ b) (hbound : b ≤ text.length)
    (hkind : isIndentation kind = false) : Scans text a [.readyToken (text.token kind a b)] b := by
  refine ⟨.one hle, fun scanned hscanned => ?_, hbound⟩
  obtain rfl := List.mem_singleton.mp hscanned
  exact hkind

theorem le (h : Scans text a tokens b) : a ≤ b := h.tiles.le

end Scans

/-- A token that starts at a position and reads at least one byte. -/
structure Reads (text : SourceText) (a : Nat) (ready : Token) : Prop where
  start : ready.span.start = a
  progress : a < ready.span.stop
  bound : ready.span.stop ≤ text.length
  code : isIndentation ready.kind = false

theorem Reads.token {kind : TokenKind} (hlt : a < b) (hbound : b ≤ text.length)
    (hkind : isIndentation kind = false) : Reads text a (text.token kind a b) := ⟨rfl, hlt, hbound, hkind⟩

theorem Reads.scans {ready : Token} (h : Reads text a ready) :
    Scans text a [.readyToken ready] ready.span.stop := by
  refine ⟨?_, fun scanned hscanned => ?_, h.bound⟩
  · show Tiles (Trivia text) a [⟨ready.span.start, ready.span.stop⟩] ready.span.stop
    rw [h.start]
    exact .one (Nat.le_of_lt h.progress)
  · obtain rfl := List.mem_singleton.mp hscanned
    exact h.code

/-! ## One token -/

namespace SourceText

variable {start fuel stop : Nat} {ready : Token} {code : ScannedCode} {state : PipeState}

theorem quotedCharacterEnd_bound {cursor next : Nat}
    (h : text.quotedCharacterEnd start cursor = .ok next) : cursor < next ∧ next ≤ text.length := by
  unfold quotedCharacterEnd at h
  split at h
  · cases h
  · rename_i byte hbyte
    split at h
    · exact rawCharacterEnd_bound hbyte h
    · split at h
      · cases h
      · rename_i escaped hescaped
        have := rawCharacterEnd_bound hescaped h
        omega

theorem holeQuotedToken_reads (hquote : text.byteIs a asciiDoubleQuote)
    (h : text.holeQuotedToken fuel a = .ok ready) : Reads text a ready := by
  unfold holeQuotedToken at h
  obtain ⟨closing, hclosing, h⟩ := Outcome.peel h
  cases h
  have hstart := lt_length_of_byteIs hquote
  have hbetween : a + 1 ≤ closing ∧ closing < text.length := by
    refine turns_yields (I := fun cursor => a + 1 ≤ cursor) (Q := fun closing => a + 1 ≤ closing ∧
      closing < text.length) ?_ ?_ (Nat.le_refl _) hclosing
    · intro cursor next hcursor hturn
      unfold holeQuotedTurn at hturn
      split at hturn
      · cases hturn
      · split at hturn
        · cases hturn
        · split at hturn
          · cases hturn
          · obtain ⟨found, hfound, hturn⟩ := Outcome.peel hturn
            cases hturn
            have := quotedCharacterEnd_bound (Outcome.liftM_eq_ok.mp hfound)
            omega
    · intro cursor found hcursor hturn
      unfold holeQuotedTurn at hturn
      split at hturn
      · rename_i hend
        cases hturn
        exact ⟨hcursor, lt_length_of_byteIs hend⟩
      · split at hturn
        · cases hturn
        · split at hturn
          · cases hturn
          · obtain ⟨_, _, hturn⟩ := Outcome.peel hturn
            cases hturn
  exact Reads.token (by omega) (by omega) rfl

theorem charContentEnd_lt {cursor : Nat} (h : text.charContentEnd start cursor = .ok stop) :
    cursor < stop := by
  unfold charContentEnd at h
  split at h
  · cases h
  · rename_i byte hbyte
    simp only at h
    split at h
    · cases h
    split at h
    · cases h
    split at h
    · split at h
      · cases h
      · cases h
        omega
    split at h
    · cases h
    split at h
    · exact (utf8End_bound h (lt_length_of_byteAt hbyte)).1
    · cases h
      omega

theorem charToken_reads (h : text.charToken a = .ok ready) : Reads text a ready := by
  unfold charToken at h
  obtain ⟨stop, hstop, h⟩ := Except.peel h
  have hlt := charContentEnd_lt hstop
  simp only at h
  split at h
  · rename_i hquote
    cases h
    have := lt_length_of_byteIs hquote
    exact Reads.token (by omega) (by omega) rfl
  · split at h <;> cases h

theorem numericTokenEnd_reads {isFloat : Bool} (hlt : a < b) (hbound : b ≤ text.length)
    (h : text.numericTokenEnd a b isFloat = .ok ready) : Reads text a ready := by
  unfold numericTokenEnd at h
  split at h
  · cases h
  · cases h
    refine Reads.token hlt hbound ?_
    cases isFloat <;> rfl

theorem lt_runEnd {cls : ByteClass} (h : text.byteIn a cls = true) : a < text.runEnd a cls := by
  rcases Nat.eq_or_lt_of_le (text.le_runEnd a cls) with heq | hlt
  · have hstop := (text.runEnd_spec a cls).2.2.2
    rw [← heq, h] at hstop
    cases hstop
  · exact hlt

theorem exponentToken_reads {marker : Nat} (hlt : a < marker)
    (h : text.exponentToken a marker = .ok ready) : Reads text a ready := by
  unfold exponentToken at h
  generalize hdigits : (if (text.byteIs (marker + 1) asciiPlus ||
    text.byteIs (marker + 1) asciiMinus) = true then marker + 1 + 1 else marker + 1) = digits at h
  have hle : marker < digits := by
    subst hdigits
    split <;> omega
  simp only [hdigits] at h
  split at h
  · rename_i hin
    have hbound := lt_length_of_byteIn hin
    have := text.le_runEnd digits .decimalDigit
    exact numericTokenEnd_reads (by omega) (runEnd_le (Nat.le_of_lt hbound) _) h
  · cases h

theorem numericToken_reads (hdigit : text.byteIn a .decimalDigit = true)
    (h : text.numericToken a = .ok ready) : Reads text a ready := by
  have hstart := lt_length_of_byteIn hdigit
  have hlt := lt_runEnd hdigit
  have hbound : text.runEnd a .decimalDigit ≤ text.length := runEnd_le (by omega) _
  unfold numericToken at h
  simp only at h
  -- The mantissa ends after the integer, inside the source.
  generalize hmantissa : (if (text.byteIs (text.runEnd a .decimalDigit) asciiDot &&
      !text.byteIs (text.runEnd a .decimalDigit + 1) asciiDot &&
      text.byteIn (text.runEnd a .decimalDigit + 1) .decimalDigit) = true then
      text.runEnd (text.runEnd a .decimalDigit + 1) .decimalDigit
    else text.runEnd a .decimalDigit) = mantissa at h
  have hrange : a < mantissa ∧ mantissa ≤ text.length := by
    subst hmantissa
    split
    · rename_i hfraction
      simp only [Bool.and_eq_true] at hfraction
      have hin := lt_length_of_byteIn hfraction.2
      have hle := text.le_runEnd (text.runEnd a .decimalDigit + 1) .decimalDigit
      have := runEnd_le (Nat.le_of_lt hin) ByteClass.decimalDigit
      omega
    · omega
  split at h
  · exact exponentToken_reads hrange.1 h
  · split at h
    · cases h
    · exact numericTokenEnd_reads hrange.1 hrange.2 h

theorem operatorToken_reads {row : OperatorRow} (hstart : a < text.length)
    (hrow : row ∈ operatorRows) (h : text.operatorToken a row = .ok ready) :
    Reads text a ready := by
  have hall : ∀ row ∈ operatorRows, isIndentation (.symbolToken row.alone) = false ∧
      ∀ pair ∈ row.pairs,
        pair.2.elim (fun value => isIndentation (.symbolToken value)) (fun _ => false) = false := by
    decide
  unfold operatorToken at h
  split at h
  · rename_i found byte value hfound
    cases h
    have hbyte := List.find?_some hfound
    have := lt_length_of_byteIs hbyte
    exact Reads.token (by omega) (by omega)
      ((hall row hrow).2 _ (List.mem_of_find?_eq_some hfound))
  · cases h
  · cases h
    exact Reads.token (by omega) (by omega) (hall row hrow).1

theorem punctuation_code {byte : Nat} {value : Symbol} (h : punctuation byte = some value) :
    isIndentation (.symbolToken value) = false := by
  unfold punctuation at h
  repeat
    split at h
    · cases h
      rfl
  cases h

theorem numberOrPunctuation_reads (hstart : a < text.length)
    (h : text.numberOrPunctuation a = .ok ready) : Reads text a ready := by
  unfold numberOrPunctuation at h
  split at h
  · rename_i hpair
    simp only [Bool.and_eq_true] at hpair
    have := lt_length_of_byteIs hpair.2
    cases h
    exact Reads.token (by omega) (by omega) rfl
  split at h
  · rename_i hpair
    simp only [Bool.and_eq_true] at hpair
    have := lt_length_of_byteIs hpair.2
    cases h
    exact Reads.token (by omega) (by omega) rfl
  split at h
  · rename_i hdigit
    exact numericToken_reads hdigit h
  split at h
  · cases h
  split at h
  · cases h
  split at h
  · rename_i value hvalue
    cases h
    obtain ⟨byte, -, hpunctuation⟩ := Option.bind_eq_some_iff.mp hvalue
    exact Reads.token (by omega) (by omega) (punctuation_code hpunctuation)
  · cases h

theorem symbolToken_reads (hstart : a < text.length) (h : text.symbolToken a = .ok ready) :
    Reads text a ready := by
  unfold symbolToken at h
  split at h
  · rename_i hdots
    simp only [Bool.and_eq_true] at hdots
    have := lt_length_of_byteIs hdots.2
    cases h
    exact Reads.token (by omega) (by omega) rfl
  split at h
  · rename_i hdots
    simp only [Bool.and_eq_true] at hdots
    have := lt_length_of_byteIs hdots.2
    cases h
    exact Reads.token (by omega) (by omega) rfl
  split at h
  · rename_i row hrow
    exact operatorToken_reads hstart (List.mem_of_find?_eq_some hrow) h
  · exact numberOrPunctuation_reads hstart h

theorem wordKind_code {spelling : Library.Text} {kind : TokenKind}
    (h : wordKind spelling = some kind) : isIndentation kind = false := by
  obtain ⟨word, hword, rfl⟩ := Option.map_eq_some_iff.mp h
  have hall : ∀ word ∈ reservedWords, isIndentation word.2 = false := by decide
  exact hall word (List.mem_of_find?_eq_some hword)

theorem codeToken_scans {scanned : ScannedToken} (hstart : a < text.length)
    (h : text.codeToken fuel a = .ok scanned) :
    Scans text a [scanned] scanned.stop ∧ a < scanned.stop := by
  unfold codeToken at h
  split at h
  · have hle := text.le_runEnd (a + 1) .identifierByte
    have hbound : text.runEnd (a + 1) .identifierByte ≤ text.length := runEnd_le (by omega) _
    simp only at h
    split at h
    · rename_i kind hkind
      cases h
      have hreads : Reads text a (text.token kind a (text.runEnd (a + 1) .identifierByte)) :=
        Reads.token (by omega) hbound (wordKind_code hkind)
      exact ⟨hreads.scans, hreads.progress⟩
    · cases h
      refine ⟨⟨.one (Nat.le_of_lt hle), ?_, hbound⟩, hle⟩
      intro scanned hscanned
      obtain rfl := List.mem_singleton.mp hscanned
      rfl
  · obtain ⟨ready, hready, h⟩ := Outcome.peel h
    cases h
    have hreads : Reads text a ready := by
      unfold literalOrSymbol at hready
      split at hready
      · rename_i hquote
        exact holeQuotedToken_reads hquote hready
      · split at hready
        · exact charToken_reads (Outcome.liftM_eq_ok.mp hready)
        · exact symbolToken_reads hstart (Outcome.liftM_eq_ok.mp hready)
    exact ⟨hreads.scans, hreads.progress⟩

/-! ## Comments -/

theorem commentEnd_spec (hstarts : text.commentStarts a = true)
    (h : text.commentEnd a = .ok b) : a < b ∧ b ≤ text.length ∧
      (∀ i, a ≤ i → i < b → text.byteIs i asciiLf = false) ∧
      (b = text.length ∨ text.byteIs b asciiLf = true) := by
  obtain ⟨hfirst, hsecond⟩ : text.byteIs a asciiMinus = true ∧
      text.byteIs (a + 1) asciiMinus = true := by simpa [commentStarts] using hstarts
  have hlength := lt_length_of_byteIs hsecond
  unfold commentEnd at h
  obtain ⟨hle, hbound, hrun, -⟩ := advance_spec
    (fun position => position < text.length && text.commentContinues position)
    (text.length - (a + 2)) (a + 2)
  generalize advance (fun position => position < text.length && text.commentContinues position)
    (text.length - (a + 2)) (a + 2) = stop at h hle hbound hrun
  simp only at h
  split at h
  · rename_i hend
    cases h
    refine ⟨by omega, by omega, fun i hi hlt => ?_, hend⟩
    cases hlf : text.byteIs i asciiLf with
    | false => rfl
    | true =>
      exfalso
      by_cases hin : a + 2 ≤ i
      · have hcontinues := hrun i hin hlt
        rw [byteIs_iff] at hlf
        simp [commentContinues, hlf] at hcontinues
      · have hminus : text.byteIs i asciiMinus = true := by
          rcases Nat.eq_or_lt_of_le hi with rfl | hlater
          · exact hfirst
          · obtain rfl : i = a + 1 := by omega
            exact hsecond
        exact absurd (byteIs_unique hlf hminus) (by decide)
  · split at h <;> cases h

theorem codeCommentEnd_trivia {previous : Option ScannedToken}
    (hstarts : text.commentStarts a = true) (h : text.codeCommentEnd previous a = .ok b) :
    a < b ∧ b ≤ text.length ∧ Trivia text a b := by
  unfold codeCommentEnd at h
  split at h
  · cases h
  · obtain ⟨hlt, hbound, hline, hend⟩ := commentEnd_spec hstarts h
    exact ⟨hlt, hbound, .comment hstarts hline hend⟩

/-! ## Interpolated Strings -/

theorem opensHole_bound (h : text.opensHole a = true) : a + 2 ≤ text.length := by
  unfold opensHole at h
  rw [Bool.and_eq_true] at h
  have := lt_length_of_byteIs h.2
  omega

theorem interpolationTurn_scans {opening : Nat} {state : HoleState}
    (hstate : Scans text a state.tokens state.cursor) :
    (∀ {next}, text.interpolationTurn fuel opening state = .ok (.again next) →
      Scans text a next.tokens next.cursor ∧ state.cursor ≤ next.cursor) ∧
    ∀ {code}, text.interpolationTurn fuel opening state = .ok (.done code) →
      Scans text a code.tokens code.stop ∧ state.cursor < code.stop := by
  constructor
  · intro next h
    unfold interpolationTurn at h
    simp only at h
    split at h
    · cases h
    rename_i hend
    have hlt : state.cursor < text.length :=
      Nat.lt_of_le_of_ne hstate.bound fun heq => hend (.inl heq)
    split at h
    · rename_i hspace
      cases h
      exact ⟨hstate.skip (Nat.le_succ _) hlt (.space hspace), Nat.le_succ _⟩
    split at h
    · rename_i hcomment
      obtain ⟨stop, hstop, h⟩ := Outcome.peel h
      cases h
      obtain ⟨hle, hbound, htrivia⟩ :=
        codeCommentEnd_trivia hcomment (Outcome.liftM_eq_ok.mp hstop)
      exact ⟨hstate.skip (Nat.le_of_lt hle) hbound htrivia, Nat.le_of_lt hle⟩
    split at h
    · cases h
    · obtain ⟨scanned, hscanned, h⟩ := Outcome.peel h
      cases h
      obtain ⟨hscans, hprogress⟩ := codeToken_scans hlt hscanned
      exact ⟨hstate.append hscans, Nat.le_of_lt hprogress⟩
  · intro code h
    unfold interpolationTurn at h
    simp only at h
    split at h
    · cases h
    split at h
    · cases h
    split at h
    · obtain ⟨_, _, h⟩ := Outcome.peel h
      cases h
    split at h
    · rename_i hclose
      cases h
      have := lt_length_of_byteIs hclose.1
      exact ⟨hstate.append (.token (by omega) (by omega) rfl), Nat.lt_succ_self _⟩
    · obtain ⟨_, _, h⟩ := Outcome.peel h
      cases h

theorem interpolationTokens_scans (hopens : text.opensHole a = true)
    (h : text.interpolationTokens fuel a = .ok code) :
    Scans text a code.tokens code.stop ∧ a + 2 < code.stop := by
  have hbound := opensHole_bound hopens
  have hfirst : Scans text a [.readyToken (text.token .interpolationOpen a (a + 2))] (a + 2) :=
    .token (by omega) hbound rfl
  refine turns_yields (I := fun state => Scans text a state.tokens state.cursor ∧
    a + 2 ≤ state.cursor) (Q := fun code => Scans text a code.tokens code.stop ∧ a + 2 < code.stop)
    ?_ ?_ ⟨hfirst, Nat.le_refl _⟩ h
  · rintro state next ⟨hstate, hcursor⟩ hturn
    obtain ⟨hnext, hle⟩ := (interpolationTurn_scans hstate).1 hturn
    exact ⟨hnext, Nat.le_trans hcursor hle⟩
  · rintro state code ⟨hstate, hcursor⟩ hturn
    obtain ⟨hcode, hlt⟩ := (interpolationTurn_scans hstate).2 hturn
    exact ⟨hcode, Nat.lt_of_le_of_lt hcursor hlt⟩

theorem segment_scans (hle : a ≤ b) (hbound : b ≤ text.length) :
    Scans text a (text.segment a b) b := by
  unfold segment
  split
  · exact .token hle hbound rfl
  · obtain rfl : a = b := by omega
    exact .nil hbound

/-- The tokens so far end where the open segment starts; before the first hole there are
none. -/
structure QuotedOk (text : SourceText) (opening : Nat) (state : QuotedState) : Prop where
  cursor : state.start ≤ state.cursor
  bound : state.cursor ≤ text.length
  fresh : state.tokens = [] → state.start = opening + 1
  scans : state.tokens ≠ [] → Scans text opening state.tokens state.start

theorem quotedTurn_ok {state next : QuotedState} (hstate : QuotedOk text a state)
    (h : text.quotedTurn fuel a state = .ok (.again next)) : QuotedOk text a next := by
  unfold quotedTurn at h
  simp only at h
  split at h
  · split at h <;> cases h
  split at h
  · rename_i hopens
    obtain ⟨hole, hhole, h⟩ := Outcome.peel h
    cases h
    obtain ⟨hscans, hprogress⟩ := interpolationTokens_scans hopens hhole
    have hopened : Scans text a ((if state.tokens.isEmpty then
        [.readyToken (text.token (.stringStart .quotedStringForm) a (a + 1))]
        else state.tokens) ++ text.segment state.start state.cursor) state.cursor := by
      refine Scans.append ?_ (segment_scans hstate.cursor hstate.bound)
      split
      · rename_i hempty
        have hstart := hstate.fresh (List.isEmpty_iff.mp hempty)
        have := hstate.cursor
        have := hstate.bound
        rw [hstart]
        exact .token (by omega) (by omega) rfl
      · rename_i hfull
        exact hstate.scans fun heq => hfull (List.isEmpty_iff.mpr heq)
    refine ⟨Nat.le_refl _, hscans.bound, fun hnone => ?_, fun _ => hopened.append hscans⟩
    -- The opened String has at least one token.
    simp only [List.append_eq_nil_iff] at hnone
    split at hnone
    · simp at hnone
    · rename_i hfull
      exact absurd (List.isEmpty_iff.mpr hnone.1.1) hfull
  · obtain ⟨stop, hstop, h⟩ := Outcome.peel h
    cases h
    have hbound := quotedCharacterEnd_bound (Outcome.liftM_eq_ok.mp hstop)
    have := hstate.cursor
    exact ⟨by simp only; omega, hbound.2, hstate.fresh, hstate.scans⟩

theorem quotedTokens_scans (hquote : text.byteIs a asciiDoubleQuote = true)
    (h : text.quotedTokens fuel a = .ok code) : Scans text a code.tokens code.stop := by
  have hfirst : QuotedOk text a ⟨[], a + 1, a + 1⟩ :=
    ⟨Nat.le_refl _, lt_length_of_byteIs hquote, fun _ => rfl, fun hne => absurd rfl hne⟩
  refine turns_yields (I := QuotedOk text a) (Q := fun code => Scans text a code.tokens code.stop)
    (fun state next hstate hturn => quotedTurn_ok hstate hturn) ?_ hfirst h
  intro state code hstate hturn
  unfold quotedTurn at hturn
  simp only at hturn
  split at hturn
  · rename_i hend
    have hcursor := lt_length_of_byteIs hend
    split at hturn
    · rename_i hempty
      cases hturn
      have := hstate.fresh (List.isEmpty_iff.mp hempty)
      have := hstate.cursor
      exact .token (by omega) (by omega) rfl
    · rename_i hfull
      cases hturn
      have htokens := hstate.scans fun heq => hfull (List.isEmpty_iff.mpr heq)
      exact (htokens.append (segment_scans hstate.cursor hstate.bound)).append
        (.token (by omega) (by omega) rfl)
  split at hturn
  · obtain ⟨_, _, hturn⟩ := Outcome.peel hturn
    cases hturn
  · obtain ⟨_, _, hturn⟩ := Outcome.peel hturn
    cases hturn

/-! ## Pipe Strings -/

/-- The indentation of a line. -/
structure IsMargin (text : SourceText) (margin : LinePrefix) : Prop where
  line : AtLine text margin.start
  stop : margin.stop = text.runEnd margin.start .indentationByte

theorem pipeLineEnd_bound {form : PipeForm} (hstart : a ≤ text.length)
    (h : text.pipeLineEnd fuel a form = .ok b) :
    a ≤ b ∧ b ≤ text.length ∧
      (text.byteIs b asciiDollar = true → form = .pipeMarkers ∧ text.opensHole b = true) := by
  refine turns_yields (I := fun cursor => a ≤ cursor ∧ cursor ≤ text.length)
    (Q := fun b => a ≤ b ∧ b ≤ text.length ∧
      (text.byteIs b asciiDollar = true → form = .pipeMarkers ∧ text.opensHole b = true))
    ?_ ?_ ⟨Nat.le_refl _, hstart⟩ h
  · rintro cursor next ⟨hle, hbound⟩ hturn
    unfold pipeLineTurn at hturn
    split at hturn
    · cases hturn
    rename_i byte hbyte
    split at hturn
    · cases hturn
    split at hturn
    · cases hturn
    · obtain ⟨stop, hstop, hturn⟩ := Outcome.peel hturn
      cases hturn
      have hread := Outcome.liftM_eq_ok.mp hstop
      have hlt := lt_length_of_byteAt hbyte
      unfold pipeByteEnd at hread
      split at hread
      · cases hread
        exact ⟨by omega, hlt⟩
      · have := rawCharacterEnd_bound hbyte hread
        omega
  · rintro cursor stop ⟨hle, hbound⟩ hturn
    unfold pipeLineTurn at hturn
    split at hturn
    · rename_i hnone
      cases hturn
      refine ⟨hle, hbound, fun hdollar => ?_⟩
      rw [byteIs_iff, hnone] at hdollar
      cases hdollar
    rename_i byte hbyte
    split at hturn
    · rename_i hlf
      cases hturn
      refine ⟨hle, hbound, fun hdollar => ?_⟩
      rw [byteIs_iff, hbyte, hlf] at hdollar
      cases hdollar
    split at hturn
    · rename_i hopens
      cases hturn
      exact ⟨hle, hbound, fun _ => hopens⟩
    · obtain ⟨_, _, hturn⟩ := Outcome.peel hturn
      cases hturn

theorem continuingMarker_spec {marker : Nat} (h : text.continuingMarker a first = some marker) :
    text.byteIs a asciiLf = true ∧ a < marker ∧ text.byteIs marker asciiBar = true := by
  unfold continuingMarker at h
  simp only at h
  split at h
  · rename_i hcontinues
    cases h
    simp only [Bool.and_eq_true] at hcontinues
    exact ⟨hcontinues.1.1, by omega, hcontinues.2⟩
  · cases h

/-- The tokens so far end where the next text starts; before the first hole there are
none. -/
structure PipeOk (text : SourceText) (first : LinePrefix) (state : PipeState) : Prop where
  start : first.stop < state.start
  bound : state.start ≤ text.length
  scans : state.tokens ≠ [] → Scans text first.stop state.tokens state.start

variable {first : LinePrefix}

/-- A line's text, read up to `stop`. -/
theorem PipeOk.read (hstate : PipeOk text first state) (hle : state.start ≤ stop)
    (hbound : stop ≤ text.length) :
    PipeOk text first { text.pipeText state stop with start := stop } ∧
      ((text.pipeText state stop).tokens = [] → (text.pipeText state stop).joined ≠ []) := by
  have hstart := hstate.start
  unfold pipeText
  split
  · rename_i hempty
    refine ⟨⟨Nat.lt_of_lt_of_le hstart hle, hbound, fun hne => ?_⟩, fun _ => by simp⟩
    exact absurd (List.isEmpty_iff.mp hempty) hne
  · rename_i hfull
    have hne : state.tokens ≠ [] := fun heq => hfull (List.isEmpty_iff.mpr heq)
    refine ⟨⟨Nat.lt_of_lt_of_le hstart hle, hbound, fun _ => ?_⟩, fun hnone => ?_⟩
    · exact (hstate.scans hne).append (segment_scans hle hbound)
    · exact absurd (List.append_eq_nil_iff.mp hnone).1 hne

theorem pipeOpened_scans (hstate : PipeOk text first { state with start := stop })
    (hjoined : state.tokens = [] → state.joined ≠ []) :
    Scans text first.stop (text.pipeOpened first state stop) stop ∧
      text.pipeOpened first state stop ≠ [] := by
  have hstart : first.stop < stop := hstate.start
  have hbound : stop ≤ text.length := hstate.bound
  unfold pipeOpened
  split
  · rename_i hempty
    have hne := hjoined (List.isEmpty_iff.mp hempty)
    simp only [List.isEmpty_iff, hne, if_false]
    refine ⟨?_, by simp⟩
    refine Scans.append (b := first.stop + 1) (.token (by omega) (by omega) rfl) ?_
    exact .token hstart hbound rfl
  · rename_i hfull
    have hne : state.tokens ≠ [] := fun heq => hfull (List.isEmpty_iff.mpr heq)
    exact ⟨hstate.scans hne, hne⟩

theorem pipeTurn_ok {next : PipeState} (hmargin : IsMargin text first)
    (hbar : text.byteIs first.stop asciiBar = true) (hstate : PipeOk text first state)
    (h : text.pipeTurn fuel first state = .ok (.again next)) : PipeOk text first next := by
  unfold pipeTurn at h
  obtain ⟨stop, hstop, h⟩ := Outcome.peel h
  obtain ⟨hle, hbound, hdollar⟩ := pipeLineEnd_bound hstate.bound hstop
  obtain ⟨hread, hjoined⟩ := hstate.read hle hbound
  have hlt : first.stop < stop := hread.start
  simp only at h
  split at h
  · rename_i hhole
    obtain ⟨hole, htokens, h⟩ := Outcome.peel h
    cases h
    obtain ⟨hopened, hne⟩ := pipeOpened_scans hread hjoined
    obtain ⟨hscans, hprogress⟩ := interpolationTokens_scans (hdollar hhole).2 htokens
    exact ⟨by simp only; omega, hscans.bound, fun _ => hopened.append hscans⟩
  · split at h
    · split at h <;> cases h
    · rename_i marker hmarker
      obtain ⟨hlf, hlater, hnext⟩ := continuingMarker_spec hmarker
      have hmarkerBound := lt_length_of_byteIs hnext
      split at h
      · rename_i hempty
        cases h
        refine ⟨by simp only; omega, hmarkerBound, fun hne => ?_⟩
        exact absurd (List.isEmpty_iff.mp hempty) hne
      · rename_i hfull
        cases h
        have hne : (text.pipeText state stop).tokens ≠ [] :=
          fun heq => hfull (List.isEmpty_iff.mpr heq)
        refine ⟨by simp only; omega, hmarkerBound, fun _ => ?_⟩
        have htext : Scans text first.stop (text.pipeText state stop).tokens stop :=
          hread.scans hne
        have hjoin : Scans text stop
            [.readyToken (text.token (.stringSegment [10]) stop (stop + 1))] (stop + 1) :=
          .token (by omega) (by omega) rfl
        have hnextText : stop + 1 ≤ marker + 1 := by omega
        exact (htext.append hjoin).skip hnextText hmarkerBound
          (.margin hmargin.line hmargin.stop hbar hlt hmarker)

theorem pipeTokens_scans (hmargin : IsMargin text first)
    (hbar : text.byteIs first.stop asciiBar = true) (h : text.pipeTokens fuel first = .ok code) :
    Scans text first.stop code.tokens code.stop := by
  have hfirst : PipeOk text first ⟨[], [], first.stop + 1⟩ :=
    ⟨Nat.lt_succ_self _, lt_length_of_byteIs hbar, fun hne => absurd rfl hne⟩
  refine turns_yields (I := PipeOk text first)
    (Q := fun code => Scans text first.stop code.tokens code.stop)
    (fun state next hstate hturn => pipeTurn_ok hmargin hbar hstate hturn) ?_ hfirst h
  intro state code hstate hturn
  unfold pipeTurn at hturn
  obtain ⟨stop, hstop, hturn⟩ := Outcome.peel hturn
  obtain ⟨hle, hbound, -⟩ := pipeLineEnd_bound hstate.bound hstop
  obtain ⟨hread, -⟩ := hstate.read hle hbound
  have hlt : first.stop < stop := hread.start
  simp only at hturn
  split at hturn
  · obtain ⟨_, _, hturn⟩ := Outcome.peel hturn
    cases hturn
  · split at hturn
    · split at hturn
      · cases hturn
        exact .token (Nat.le_of_lt hlt) hbound rfl
      · rename_i hfull
        cases hturn
        have htext : Scans text first.stop (text.pipeText state stop).tokens stop :=
          hread.scans fun heq => hfull (List.isEmpty_iff.mpr heq)
        exact htext.append (.token (Nat.le_refl _) hbound rfl)
    · split at hturn <;> cases hturn

theorem pipeBlockTurns_bound {n : Nat} {form : PipeForm} {start : Bytes × Nat} {block : PipeBlock}
    (hstart : start.2 < text.length)
    (h : turns (text.pipeBlockTurn fuel first form) n start = .ok block) :
    start.2 < block.stop ∧ block.stop ≤ text.length := by
  refine turns_yields (I := fun state => start.2 ≤ state.2 ∧ state.2 < text.length)
    (Q := fun block => start.2 < block.stop ∧ block.stop ≤ text.length) ?_ ?_
    ⟨Nat.le_refl _, hstart⟩ h
  · rintro state next ⟨hle, hbound⟩ hturn
    unfold pipeBlockTurn at hturn
    obtain ⟨stop, hstop, hturn⟩ := Outcome.peel hturn
    have hline := pipeLineEnd_bound hbound hstop
    simp only at hturn
    split at hturn
    · rename_i marker hmarker
      cases hturn
      obtain ⟨-, hlater, hbar'⟩ := continuingMarker_spec hmarker
      have := lt_length_of_byteIs hbar'
      simp only
      omega
    · cases hturn
  · rintro state block ⟨hle, hbound⟩ hturn
    unfold pipeBlockTurn at hturn
    obtain ⟨stop, hstop, hturn⟩ := Outcome.peel hturn
    have hline := pipeLineEnd_bound hbound hstop
    simp only at hturn
    split at hturn
    · cases hturn
    · cases hturn
      simp only
      omega

theorem pipeBlock_bound {form : PipeForm} {block : PipeBlock}
    (hbar : text.byteIs first.stop asciiBar = true)
    (h : text.pipeBlock fuel first form = .ok block) :
    first.stop < block.stop ∧ block.stop ≤ text.length :=
  pipeBlockTurns_bound (lt_length_of_byteIs hbar) h

theorem rawBlockMarkerLine_spec {markerLine : LinePrefix}
    (h : text.rawBlockMarkerLine a = some markerLine) :
    a < markerLine.stop ∧ text.byteIs markerLine.stop asciiBar = true := by
  unfold rawBlockMarkerLine at h
  simp only at h
  split at h
  · rename_i hraw
    cases h
    simp only [Bool.and_eq_true] at hraw
    refine ⟨?_, hraw.2⟩
    have hword := text.le_runEnd a .identifierByte
    have hline := text.le_runEnd (text.runEnd a .identifierByte) .spaceByte
    have hmarker := text.le_runEnd
      (text.runEnd (text.runEnd a .identifierByte) .spaceByte + 1) .indentationByte
    simp only [linePrefix]
    omega
  · cases h

theorem lineCode_scans (hmargin : IsMargin text first)
    (h : text.lineCode fuel first = .ok (some code)) :
    Scans text first.stop code.tokens code.stop := by
  unfold lineCode at h
  split at h
  · rename_i hbar
    obtain ⟨block, hblock, h⟩ := Outcome.peel h
    cases h
    exact pipeTokens_scans hmargin hbar hblock
  · split at h
    · rename_i markerLine hmarker
      obtain ⟨block, hblock, h⟩ := Outcome.peel h
      cases h
      obtain ⟨hlater, hbar⟩ := rawBlockMarkerLine_spec hmarker
      have := pipeBlock_bound hbar hblock
      exact .token (by omega) (by omega) rfl
    · cases h

/-! ## Lines -/

theorem nextLineStart_spec (hstart : a ≤ text.length) (h : text.nextLineStart a = .ok b) :
    a ≤ b ∧ b ≤ text.length ∧ AtLine text b ∧ (a < text.length → a < b) := by
  unfold nextLineStart at h
  obtain ⟨hle, hbound, -, hstop⟩ := advance_spec (fun position => position < text.length &&
    !text.byteIs position asciiLf && !text.byteIs position asciiCr) (text.length - a) a
  generalize advance (fun position => position < text.length &&
    !text.byteIs position asciiLf && !text.byteIs position asciiCr) (text.length - a) a = stop
    at h hle hbound hstop
  simp only at h
  split at h
  · cases h
  rename_i hcr
  cases h
  refine ⟨by omega, by omega, ?_, by omega⟩
  by_cases hend : stop < text.length
  · have hlf : text.byteIs stop asciiLf = true := by
      rcases hstop with heq | hfalse
      · omega
      · simpa [hend, hcr] using hfalse
    right
    left
    rw [show min (stop + 1) text.length - 1 = stop by omega]
    exact hlf
  · right
    right
    omega

theorem nextLineStart_inside (h : text.nextLineStart a = .ok b) :
    ∀ i, a ≤ i → i + 1 < b → text.byteIs i asciiLf = false := by
  unfold nextLineStart at h
  obtain ⟨-, -, hrun, -⟩ := advance_spec (fun position => position < text.length &&
    !text.byteIs position asciiLf && !text.byteIs position asciiCr) (text.length - a) a
  simp only at h
  split at h
  · cases h
  · cases h
    intro i hi hlt
    have hin := hrun i hi (by omega)
    simp only [Bool.and_eq_true, Bool.not_eq_true'] at hin
    exact hin.1.2

/-! ## Fences -/

theorem fenceAt_starts (h : text.fenceAt a = true) : text.commentStarts a = true := by
  unfold fenceAt at h
  simp only [Bool.and_eq_true] at h
  simp [commentStarts, h.1.1]

theorem fenceAt_bound (h : text.fenceAt a = true) : a < text.length := by
  have hstarts := fenceAt_starts h
  unfold commentStarts at hstarts
  exact lt_length_of_byteIs (Bool.and_eq_true_iff.mp hstarts).1

theorem fenceLine_iff : text.fenceLine a = true ↔
    (a = 0 ∨ text.byteIs (a - 1) asciiLf = true) ∧ text.fenceAt a = true := by
  simp [fenceLine]

theorem not_fenceLine (h : ∀ i, a ≤ i → i < b → text.byteIs i asciiLf = false) :
    ∀ i, a < i → i ≤ b → text.fenceLine i = false := by
  intro i hi hle
  rw [Bool.eq_false_iff]
  intro hfence
  obtain ⟨hline, -⟩ := fenceLine_iff.mp hfence
  rw [h (i - 1) (by omega) (by omega)] at hline
  simp at hline
  omega

theorem not_fenceLine_of_byteIn (h : text.byteIn a .indentationByte = true) :
    text.fenceLine a = false := by
  rw [Bool.eq_false_iff]
  intro hfence
  obtain ⟨-, hat⟩ := fenceLine_iff.mp hfence
  have hminus := (Bool.and_eq_true_iff.mp (fenceAt_starts hat)).1
  rw [byteIn_iff] at h
  rw [byteIs_iff] at hminus
  obtain ⟨byte, hbyte, hin⟩ := h
  rw [hminus] at hbyte
  cases hbyte
  revert hin
  decide

theorem runEnd_fence (h : text.fenceLine a = true) : text.runEnd a .indentationByte = a := by
  by_contra hne
  have hle := text.le_runEnd a .indentationByte
  have hin := (text.runEnd_spec a .indentationByte).2.2.1 a (Nat.le_refl a) (by omega)
  rw [not_fenceLine_of_byteIn hin] at h
  cases h

theorem fencesBefore_succ (position : Nat) : text.fencesBefore (position + 1)
      = text.fencesBefore position + if text.fenceLine position then 1 else 0 := by
  rw [fencesBefore, fencesBefore, List.range_succ, List.countP_append, List.countP_singleton]

theorem fencesBefore_eq (hle : a ≤ b) (h : ∀ i, a ≤ i → i < b → text.fenceLine i = false) :
    text.fencesBefore b = text.fencesBefore a := by
  induction hle with
  | refl => rfl
  | @step b hle ih =>
    rw [fencesBefore_succ, h b hle (Nat.lt_succ_self b), ih fun i hi hlt => h i hi (by omega)]
    rfl

theorem docBlockEnd_trivia (hopens : text.OpensBlock a) (h : text.docBlockEnd fuel a = .ok b) :
    a ≤ b ∧ b ≤ text.length ∧ AtLine text b ∧ Trivia text a b ∧ text.fencesBefore b % 2 = 0 := by
  obtain ⟨hfence, hpaired⟩ := hopens
  have hlt := fenceAt_bound (fenceLine_iff.mp hfence).2
  unfold docBlockEnd at h
  obtain ⟨second, hsecond, h⟩ := Outcome.peel h
  obtain ⟨closing, hclosing, h⟩ := Outcome.peel h
  have hsecond := Outcome.liftM_eq_ok.mp hsecond
  obtain ⟨-, hbound, hat, hprogress⟩ := nextLineStart_spec (Nat.le_of_lt hlt) hsecond
  -- No line from the fence on holds another one, up to the line that the search is at.
  have hnext : ∀ {line next : Nat}, text.nextLineStart line = .ok next →
      ∀ i, line < i → i < next → text.fenceLine i = false := by
    intro line next hline i hi hin
    exact not_fenceLine (b := i) (fun j hj hji => nextLineStart_inside hline j hj (by omega)) i hi
      (Nat.le_refl i)
  have hclosed : (a < closing ∧ closing ≤ text.length ∧ AtLine text closing ∧
      ∀ i, a < i → i < closing → text.fenceLine i = false) ∧
      (closing = text.length ∨ text.fenceAt closing = true) := by
    refine turns_yields
      (I := fun line => a < line ∧ line ≤ text.length ∧ AtLine text line ∧
        ∀ i, a < i → i < line → text.fenceLine i = false)
      (Q := fun closing => (a < closing ∧ closing ≤ text.length ∧ AtLine text closing ∧
        ∀ i, a < i → i < closing → text.fenceLine i = false) ∧
        (closing = text.length ∨ text.fenceAt closing = true))
      ?_ ?_ ⟨hprogress hlt, hbound, hat, hnext hsecond⟩ hclosing
    · rintro line next ⟨hafter, hin, -, hplain⟩ hturn
      unfold docBlockTurn at hturn
      split at hturn
      · cases hturn
      · rename_i hgoes
        obtain ⟨found, hfound, hturn⟩ := Outcome.peel hturn
        cases hturn
        have hfound := Outcome.liftM_eq_ok.mp hfound
        obtain ⟨hle, hin', hat', -⟩ := nextLineStart_spec hin hfound
        refine ⟨by omega, hin', hat', fun i hi hlt => ?_⟩
        rcases Nat.lt_trichotomy i line with hbefore | rfl | hlater
        · exact hplain i hi hbefore
        · rw [Bool.eq_false_iff]
          exact fun hfence => hgoes (.inr (fenceLine_iff.mp hfence).2)
        · exact hnext hfound i hlater hlt
    · rintro line found hinvariant hturn
      unfold docBlockTurn at hturn
      split at hturn
      · rename_i hend
        cases hturn
        exact ⟨hinvariant, hend⟩
      · obtain ⟨_, _, hturn⟩ := Outcome.peel hturn
        cases hturn
  obtain ⟨⟨hafter, hin, hat', hplain⟩, hend⟩ := hclosed
  split at h
  · cases h
  · rename_i hinside
    have hlast := Outcome.liftM_eq_ok.mp h
    obtain ⟨hle, hbound', hat'', hlater⟩ := nextLineStart_spec hin hlast
    have hcloses : text.fenceLine closing = true := by
      refine fenceLine_iff.mpr ⟨?_, hend.resolve_left hinside⟩
      rcases hat' with h | h | h
      · exact .inl h
      · exact .inr h
      · exact absurd h hinside
    refine ⟨by omega, hbound', hat'', .documentation ⟨hfence, hpaired⟩ hafter hcloses hplain hlast,
      ?_⟩
    -- The opening fence and the closing one.
    rw [fencesBefore_eq (hlater (by omega)) (hnext hlast), fencesBefore_succ, hcloses,
      fencesBefore_eq hafter hplain, fencesBefore_succ, hfence]
    simp only [if_true]
    omega

theorem linePrefix_isMargin (h : AtLine text a) : IsMargin text (text.linePrefix a) := ⟨h, rfl⟩

theorem IsMargin.trivia {margin : LinePrefix} (h : IsMargin text margin) :
    Trivia text margin.start margin.stop := by
  refine .indentation h.line fun i hi hlt => ?_
  rw [h.stop] at hlt
  exact (text.runEnd_spec margin.start .indentationByte).2.2.1 i hi hlt

theorem scans_margin (h : Scans text a tokens start) (hline : AtLine text start) :
    Scans text a tokens (text.linePrefix start).stop :=
  h.skip (text.le_runEnd _ _) (runEnd_le h.bound _) (linePrefix_isMargin hline).trivia

theorem atLine_next {position : Nat}
    (h : position = text.length ∨ text.byteIs position asciiLf = true) :
    AtLine text (min (position + 1) text.length) := by
  rcases h with rfl | hlf
  · right
    right
    omega
  · have := lt_length_of_byteIs hlf
    right
    left
    rw [show min (position + 1) text.length - 1 = position by omega]
    exact hlf

/-- A line whose indentation has been read, up to its code, outside documentation blocks. -/
structure Found (text : SourceText) (tokens : List ScannedToken) (margin : LinePrefix) : Prop where
  line : IsMargin text margin
  scans : Scans text 0 tokens margin.stop
  paired : text.fencesBefore margin.stop % 2 = 0

theorem found_line (h : Scans text 0 tokens a) (hline : AtLine text a)
    (hpaired : text.fencesBefore a % 2 = 0) : Found text tokens (text.linePrefix a) where
  line := linePrefix_isMargin hline
  scans := scans_margin h hline
  paired := by
    have hsame : text.fencesBefore (text.linePrefix a).stop = text.fencesBefore a :=
      fencesBefore_eq (text.le_runEnd a _) fun i hi hlt => not_fenceLine_of_byteIn
        ((text.runEnd_spec a .indentationByte).2.2.1 i hi hlt)
    rw [hsame]
    exact hpaired

theorem IsMargin.fence {margin : LinePrefix} (h : IsMargin text margin)
    (hfence : text.fenceLine margin.stop = true) : margin.start = margin.stop := by
  have hle := text.le_runEnd margin.start .indentationByte
  rw [← h.stop] at hle
  by_contra hne
  have hlast := (text.runEnd_spec margin.start .indentationByte).2.2.1 (margin.stop - 1) (by omega)
    (by rw [← h.stop]; omega)
  rcases (fenceLine_iff.mp hfence).1 with hzero | hlf
  · omega
  · rw [byteIn_iff, byteIs_iff.mp hlf] at hlast
    simp at hlast
    revert hlast
    decide

theorem nextCodeLine_found {line : CodeLine} (h : Scans text 0 tokens a) (hline : AtLine text a)
    (hpaired : text.fencesBefore a % 2 = 0) (hnext : text.nextCodeLine fuel a = .ok line) :
    Found text tokens line.margin ∧ text.fenceLine line.margin.stop = false := by
  unfold nextCodeLine at hnext
  obtain ⟨margin, hmargin, hnext⟩ := Outcome.peel hnext
  have hfound : Found text tokens margin ∧ text.fenceLine margin.stop = false := by
    refine turns_yields (I := Found text tokens)
      (Q := fun margin => Found text tokens margin ∧ text.fenceLine margin.stop = false) ?_ ?_
      (found_line h hline hpaired) hmargin
    · intro current next hcurrent hturn
      unfold codeLineTurn at hturn
      split at hturn
      · cases hturn
      rename_i hskipped
      simp only [not_or, not_not] at hskipped
      split at hturn
      · rename_i hfence
        obtain ⟨afterBlock, hblock, hturn⟩ := Outcome.peel hturn
        cases hturn
        have hopens : text.OpensBlock current.stop := by
          refine ⟨fenceLine_iff.mpr ⟨?_, hfence.2⟩, hcurrent.paired⟩
          rw [← hfence.1]
          rcases hcurrent.line.line with hat | hat | hat
          · exact .inl hat
          · exact .inr hat
          · exact absurd (hfence.1 ▸ hat) hskipped.1
        obtain ⟨hle, hbound, hat, htrivia, hpaired⟩ := docBlockEnd_trivia hopens hblock
        exact found_line (hcurrent.scans.skip hle hbound htrivia) hat hpaired
      · rename_i hplain
        obtain ⟨stop, hstop, hturn⟩ := Outcome.peel hturn
        cases hturn
        have hstop := Outcome.liftM_eq_ok.mp hstop
        -- The trivia ends at a LF or at the end of the source.
        have htrivia : Scans text 0 tokens stop ∧ current.stop ≤ stop ∧
            (∀ i, current.stop ≤ i → i < stop → text.byteIs i asciiLf = false) ∧
            (stop = text.length ∨ text.byteIs stop asciiLf = true) := by
          unfold triviaEnd at hstop
          split at hstop
          · rename_i hminus
            have hcomment : text.commentStarts current.stop = true := by
              rcases Bool.or_eq_true_iff.mp hskipped.2 with hlf | hcomment
              · exact absurd (byteIs_unique hminus hlf) (by decide)
              · exact hcomment
            obtain ⟨hlt, hbound, hin, hend⟩ := commentEnd_spec hcomment hstop
            exact ⟨hcurrent.scans.skip (Nat.le_of_lt hlt) hbound (.comment hcomment hin hend),
              Nat.le_of_lt hlt, hin, hend⟩
          · rename_i hminus
            cases hstop
            refine ⟨hcurrent.scans, Nat.le_refl _, fun i hi hlt => by omega, .inr ?_⟩
            rcases Bool.or_eq_true_iff.mp hskipped.2 with hlf | hcomment
            · exact hlf
            · unfold commentStarts at hcomment
              rw [Bool.and_eq_true] at hcomment
              exact absurd hcomment.1 hminus
        obtain ⟨hread, hle, hin, hend⟩ := htrivia
        have hat := atLine_next hend
        have hbound := hread.bound
        refine found_line ?_ hat ?_
        · rcases hend with rfl | hlf
          · rw [show min (text.length + 1) text.length = text.length by omega]
            exact hread
          · have := lt_length_of_byteIs hlf
            rw [show min (stop + 1) text.length = stop + 1 by omega]
            exact hread.skip (Nat.le_succ _) this (.lineFeed hlf)
        · rw [fencesBefore_eq (a := current.stop) (by omega) fun i hi hlt => ?_]
          · exact hcurrent.paired
          rcases Nat.eq_or_lt_of_le hi with rfl | hlater
          · rw [Bool.eq_false_iff]
            exact fun hfence =>
              hplain ⟨hcurrent.line.fence hfence, (fenceLine_iff.mp hfence).2⟩
          · exact not_fenceLine hin i hlater (by omega)
    · intro current found hcurrent hturn
      unfold codeLineTurn at hturn
      split at hturn
      · rename_i hcode
        cases hturn
        refine ⟨hcurrent, ?_⟩
        rw [Bool.eq_false_iff]
        intro hfence
        have hat := (fenceLine_iff.mp hfence).2
        rcases hcode with hend | hcode
        · exact absurd (fenceAt_bound hat) (by omega)
        · exact hcode (by rw [fenceAt_starts hat, Bool.or_true])
      · split at hturn
        all_goals
          obtain ⟨_, _, hturn⟩ := Outcome.peel hturn
          cases hturn
  split at hnext
  · rename_i hend
    cases hnext
    obtain ⟨⟨hmargin, hscans, hpaired⟩, hplain⟩ := hfound
    rw [hend] at hscans hpaired hplain
    refine ⟨⟨⟨.inr (.inr rfl), ?_⟩, hscans, hpaired⟩, hplain⟩
    have := text.le_runEnd text.length .indentationByte
    have := runEnd_le (Nat.le_refl text.length) ByteClass.indentationByte
    simp only
    omega
  · obtain ⟨level, -, hnext⟩ := Outcome.peel hnext
    cases hnext
    exact hfound

end SourceText

end Blorp.Lex
