import Blorp.Lex.LayoutWindows

/-!
# Blank and comment-only lines

A line of trivia is its indentation, of any bytes that indent, and perhaps a comment.  At
the start of a line the lexer passes it, whether it looks for the next code line
(passes_line) or continues inside brackets (passes_break).
-/

namespace Blorp.Lex

open Fuel

/-- A blank or comment-only line: its indentation, and what follows the `--` of its
comment. -/
structure TriviaLine where
  margin : Bytes
  comment : Option Bytes

namespace TriviaLine

def text (line : TriviaLine) : Bytes :=
  match line.comment with
  | none => []
  | some comment => 45 :: 45 :: comment

def bytes (line : TriviaLine) : Bytes := line.margin ++ line.text ++ [10]

/-- Any spaces and tabs, then a comment that the lexer admits: ASCII bytes other than CR,
up to the LF.  Three dashes alone at column 1 are a documentation fence, not a comment. -/
structure Admitted (line : TriviaLine) : Prop where
  margin : ∀ byte ∈ line.margin, byte = 32 ∨ byte = 9
  ascii : ∀ comment, line.comment = some comment →
    ∀ byte ∈ comment, byte.toNat ≤ asciiDel ∧ byte.toNat ≠ asciiLf ∧ byte.toNat ≠ asciiCr
  fence : ∀ comment, line.comment = some comment → line.margin = [] →
    ∀ count, comment ≠ 45 :: List.replicate count 32

theorem length_bytes (line : TriviaLine) :
    line.bytes.length = line.margin.length + line.text.length + 1 := by
  simp [bytes, Nat.add_assoc]

end TriviaLine

def StandsAt (text : SourceText) (line : TriviaLine) (start : Nat) : Prop :=
  ∀ i < line.bytes.length, text.byteAt (start + i) = (line.bytes[i]?).map UInt8.toNat

namespace StandsAt

open SourceText

variable {text : SourceText} {line : TriviaLine} {start : Nat} (h : StandsAt text line start)
include h

theorem margin (hline : line.Admitted) {i : Nat} (hi : i < line.margin.length) :
    text.byteIn (start + i) .indentationByte = true := by
  have hbyte := h i (by rw [line.length_bytes]; omega)
  have hat : line.bytes[i]? = some line.margin[i] := by
    unfold TriviaLine.bytes
    rw [List.append_assoc, List.getElem?_append_left hi, List.getElem?_eq_getElem hi]
  rw [hat] at hbyte
  refine byteIn_iff.mpr ⟨_, hbyte, ?_⟩
  obtain heq | heq := hline.margin _ (List.getElem_mem hi)
  · rw [heq]
    rfl
  · rw [heq]
    rfl

theorem code {i byte : Nat} (hbyte : (line.text[i]?).map UInt8.toNat = some byte) :
    text.byteAt (start + line.margin.length + i) = some byte := by
  obtain ⟨found, hfound, rfl⟩ := Option.map_eq_some_iff.mp hbyte
  have hi : i < line.text.length := (List.getElem?_eq_some_iff.mp hfound).1
  have hat := h (line.margin.length + i) (by rw [line.length_bytes]; omega)
  have hline : line.bytes[line.margin.length + i]? = some found := by
    unfold TriviaLine.bytes
    rw [List.append_assoc, List.getElem?_append_right (by omega), Nat.add_sub_cancel_left,
      List.getElem?_append_left hi]
    exact hfound
  rw [hline] at hat
  rw [Nat.add_assoc]
  exact hat

theorem lineFeed : text.byteIs (start + line.margin.length + line.text.length) asciiLf = true := by
  have hat := h (line.margin.length + line.text.length) (by rw [line.length_bytes]; omega)
  have hline : line.bytes[line.margin.length + line.text.length]? = some 10 := by
    unfold TriviaLine.bytes
    simp
  rw [hline] at hat
  rw [Nat.add_assoc]
  exact byteIs_iff.mpr hat

theorem codeStart : text.byteIs (start + line.margin.length) asciiLf = true ∧ line.comment = none ∨
    text.commentStarts (start + line.margin.length) = true := by
  cases hcomment : line.comment with
  | none =>
    have hempty : line.text = [] := by simp [TriviaLine.text, hcomment]
    have hlf := h.lineFeed
    rw [hempty] at hlf
    exact .inl ⟨hlf, rfl⟩
  | some comment =>
    have htext : line.text = 45 :: 45 :: comment := by simp [TriviaLine.text, hcomment]
    have hone : text.byteAt (start + line.margin.length + 0) = some 45 := h.code (by rw [htext]; rfl)
    have htwo : text.byteAt (start + line.margin.length + 1) = some 45 := h.code (by rw [htext]; rfl)
    refine .inr (Bool.and_eq_true_iff.mpr ⟨byteIs_iff.mpr hone, byteIs_iff.mpr htwo⟩)

theorem notIndented : text.byteIn (start + line.margin.length) .indentationByte = false := by
  obtain ⟨hlf, -⟩ | hcomment := h.codeStart
  · unfold byteIn
    rw [byteIs_iff.mp hlf]
    rfl
  · unfold byteIn
    rw [byteIs_iff.mp (Bool.and_eq_true_iff.mp hcomment).1]
    rfl

theorem linePrefix (hline : line.Admitted) :
    text.linePrefix start = ⟨start, start + line.margin.length⟩ := by
  unfold SourceText.linePrefix
  rw [runEnd_eq (Nat.le_add_right _ _) (fun i hi hlt => ?_) h.notIndented]
  obtain ⟨j, rfl⟩ : ∃ j, i = start + j := ⟨i - start, by omega⟩
  exact h.margin hline (by omega)

/-- No block opens with a line of trivia. -/
theorem not_bar : text.byteIs (start + line.margin.length) asciiBar = false := by
  cases hbar : text.byteIs (start + line.margin.length) asciiBar with
  | false => rfl
  | true =>
    obtain ⟨hlf, -⟩ | hcomment := h.codeStart
    · exact absurd (byteIs_unique hbar hlf) (by decide)
    · exact absurd (byteIs_unique hbar (Bool.and_eq_true_iff.mp hcomment).1) (by decide)

section

variable (hline : line.Admitted)

include hline

theorem commentEnd {comment : Bytes} (hcomment : line.comment = some comment) :
    text.commentEnd (start + line.margin.length)
      = .ok (start + line.margin.length + line.text.length) := by
  have htext : line.text = 45 :: 45 :: comment := by simp [TriviaLine.text, hcomment]
  have hlf := h.lineFeed
  have hlength := lt_length_of_byteIs hlf
  have hwidth : line.text.length = comment.length + 2 := by rw [htext]; rfl
  have hend : advance (fun position => position < text.length && text.commentContinues position)
      (text.length - (start + line.margin.length + 2)) (start + line.margin.length + 2)
      = start + line.margin.length + line.text.length := by
    refine advance_eq (by omega) (by omega) (fun i hi hlt => ?_) ?_
    · obtain ⟨j, rfl⟩ : ∃ j, i = start + line.margin.length + 2 + j :=
        ⟨i - (start + line.margin.length + 2), by omega⟩
      have hj : j < comment.length := by omega
      have hin : start + line.margin.length + 2 + j < text.length := by omega
      have hbyte : text.byteAt (start + line.margin.length + (j + 2)) = some comment[j].toNat :=
        h.code (by rw [htext]; simp [List.getElem?_eq_getElem hj])
      rw [show start + line.margin.length + (j + 2) = start + line.margin.length + 2 + j by omega]
        at hbyte
      obtain ⟨hascii, hnotLf, hnotCr⟩ := hline.ascii comment hcomment _ (List.getElem_mem hj)
      unfold commentContinues
      rw [hbyte]
      simp only [Bool.and_eq_true, decide_eq_true_eq, bne_iff_ne]
      exact ⟨hin, ⟨hascii, hnotLf⟩, hnotCr⟩
    · unfold commentContinues
      rw [byteIs_iff.mp hlf]
      simp
  unfold SourceText.commentEnd
  simp only [hend]
  rw [if_pos (.inr hlf)]

theorem triviaEnd : text.triviaEnd (start + line.margin.length)
      = .ok (start + line.margin.length + line.text.length) := by
  unfold SourceText.triviaEnd
  cases hcomment : line.comment with
  | none =>
    have hempty : line.text = [] := by simp [TriviaLine.text, hcomment]
    have hlf := h.lineFeed
    rw [hempty] at hlf ⊢
    have hminus : ¬ text.byteIs (start + line.margin.length) asciiMinus = true :=
      fun hminus => absurd (byteIs_unique hminus hlf) (by decide)
    rw [if_neg hminus]
    rfl
  | some comment =>
    have hstarts := h.codeStart.resolve_left fun hblank => by simp [hcomment] at hblank
    rw [if_pos (Bool.and_eq_true_iff.mp hstarts).1]
    exact h.commentEnd hline hcomment

/-- Three dashes alone are no line of trivia at column 1. -/
theorem not_fence (hmargin : line.margin = []) :
    text.fenceAt (start + line.margin.length) = false := by
  cases hfence : text.fenceAt (start + line.margin.length) with
  | false => rfl
  | true =>
    exfalso
    unfold fenceAt at hfence
    simp only [Bool.and_eq_true, Bool.or_eq_true, beq_iff_eq, docFenceWidth] at hfence
    obtain ⟨⟨⟨hone, htwo⟩, hthree⟩, hend⟩ := hfence
    cases hcomment : line.comment with
    | none =>
      have hempty : line.text = [] := by simp [TriviaLine.text, hcomment]
      have hlf := h.lineFeed
      rw [hempty] at hlf
      exact absurd (byteIs_unique hone hlf) (by decide)
    | some comment =>
      have htext : line.text = 45 :: 45 :: comment := by simp [TriviaLine.text, hcomment]
      have hlf := h.lineFeed
      rw [htext] at hlf
      cases comment with
      | nil => exact absurd (byteIs_unique hthree hlf) (by decide)
      | cons dash rest =>
        have hcode : ∀ j (hj : j < rest.length),
            text.byteAt (start + line.margin.length + 3 + j) = some rest[j].toNat := by
          intro j hj
          rw [show start + line.margin.length + 3 + j = start + line.margin.length + (j + 3) by omega]
          exact h.code (by rw [htext]; simp [List.getElem?_eq_getElem hj])
        have hdash : text.byteAt (start + line.margin.length + 2) = some dash.toNat :=
          h.code (by rw [htext]; rfl)
        have hdash : dash = 45 := by
          rw [byteIs_iff.mp hthree] at hdash
          exact UInt8.toNat_inj.mp (Option.some_inj.mp hdash).symm
        obtain ⟨hle, -, hrun, -⟩ := text.runEnd_spec (start + line.margin.length + 3) .spaceByte
        -- The spaces reach the LF: any other byte before it would end the run.
        have hreach : start + line.margin.length + 3 + rest.length
            ≤ text.runEnd (start + line.margin.length + 3) .spaceByte := by
          refine Nat.le_of_not_lt fun hlt => ?_
          have hin : text.runEnd (start + line.margin.length + 3) .spaceByte
              - (start + line.margin.length + 3) < rest.length := by omega
          have hbyte := hcode _ hin
          rw [show start + line.margin.length + 3 + (text.runEnd (start + line.margin.length + 3)
            .spaceByte - (start + line.margin.length + 3))
            = text.runEnd (start + line.margin.length + 3) .spaceByte by omega] at hbyte
          have hascii := hline.ascii _ hcomment _
            (List.mem_cons_of_mem dash (List.getElem_mem hin))
          obtain hall | hlf := hend
          · have := lt_length_of_byteAt hbyte
            omega
          · rw [byteIs_iff, hbyte] at hlf
            exact hascii.2.1 (Option.some_inj.mp hlf)
        refine hline.fence _ hcomment hmargin rest.length ?_
        rw [hdash]
        refine congrArg (45 :: ·) (List.ext_getElem (by simp) fun j hj _ => ?_)
        have hspace := hrun (start + line.margin.length + 3 + j) (by omega) (by omega)
        obtain ⟨byte, hbyte, hin⟩ := byteIn_iff.mp hspace
        rw [hcode j hj] at hbyte
        obtain rfl := Option.some_inj.mp hbyte
        have hcode : rest[j].toNat = 32 := by simpa [inClass] using hin
        rw [List.getElem_replicate]
        exact UInt8.toNat_inj.mp hcode

theorem passes_line (fuel : Nat) : text.codeLineTurn fuel (text.linePrefix start)
      = .ok (.again (text.linePrefix (start + line.bytes.length))) := by
  have hlf := h.lineFeed
  have hlength := lt_length_of_byteIs hlf
  rw [h.linePrefix hline]
  unfold codeLineTurn
  have hskipped : ¬ (start + line.margin.length = text.length ∨
      ¬ (text.byteIs (start + line.margin.length) asciiLf ||
        text.commentStarts (start + line.margin.length)) = true) := by
    rw [not_or, not_not]
    refine ⟨by omega, ?_⟩
    obtain ⟨hblank, -⟩ | hcomment := h.codeStart
    · rw [hblank, Bool.true_or]
    · rw [hcomment, Bool.or_true]
  have hfence : ¬ (start = start + line.margin.length ∧
      text.fenceAt (start + line.margin.length) = true) := by
    rintro ⟨heq, hfence⟩
    rw [h.not_fence hline (List.length_eq_zero_iff.mp (by omega))] at hfence
    cases hfence
  have hnext : min (start + line.margin.length + line.text.length + 1) text.length
      = start + line.bytes.length := by
    rw [line.length_bytes]
    omega
  rw [if_neg hskipped, if_neg hfence, h.triviaEnd hline]
  simp [Outcome.liftM_ok, Outcome.ok_bind, hnext]

theorem lineCode (fuel : Nat) : text.lineCode fuel (text.linePrefix start) = .ok none := by
  have hword : text.runEnd (start + line.margin.length) .identifierByte
      = start + line.margin.length := by
    refine runEnd_eq (Nat.le_refl _) (fun i hi hlt => by omega) ?_
    obtain ⟨hlf, -⟩ | hcomment := h.codeStart
    · unfold byteIn
      rw [byteIs_iff.mp hlf]
      rfl
    · unfold byteIn
      rw [byteIs_iff.mp (Bool.and_eq_true_iff.mp hcomment).1]
      rfl
  have hraw : text.rawBlockMarkerLine (start + line.margin.length) = none := by
    have hne : start + line.margin.length ≠ start + line.margin.length + 3 := by omega
    unfold rawBlockMarkerLine
    simp [hword, beq_eq_false_iff_ne.mpr hne]
  have hnot : ¬ text.byteIs (start + line.margin.length) asciiBar = true := by
    rw [h.not_bar]
    decide
  rw [h.linePrefix hline]
  unfold SourceText.lineCode
  rw [if_neg hnot]
  simp [hraw]

theorem continues {cursor : Nat} (hcursor : cursor + 1 = start)
    (hlf : text.byteIs cursor asciiLf = true) {lastColon : Bool} {layout : Layout}
    (hnone : layout.lineEnds text cursor lastColon = none) (fuel : Nat) :
    text.codeTurn fuel ⟨cursor, lastColon, layout⟩
      = .ok (.again ⟨start + line.margin.length, lastColon, layout⟩) := by
  have hlength := lt_length_of_byteIs hlf
  have hfence : ¬ (start = start + line.margin.length ∧
      text.fenceAt (start + line.margin.length) = true) := by
    rintro ⟨heq, hfence⟩
    rw [h.not_fence hline (List.length_eq_zero_iff.mp (by omega))] at hfence
    cases hfence
  have hcode := h.lineCode hline fuel
  rw [h.linePrefix hline] at hcode
  unfold codeTurn
  simp only [hnone, hcursor, h.linePrefix hline, startLine, hcode, Outcome.ok_bind]
  rw [if_neg (Nat.ne_of_lt hlength), if_pos hlf, if_neg hfence]

theorem passes_comment {comment : Bytes} (hcomment : line.comment = some comment) {lastColon : Bool}
    {layout : Layout}
    (hvalue : afterValue layout.tokens.getLast? (start + line.margin.length) = false) (fuel : Nat) :
    text.codeTurn fuel ⟨start + line.margin.length, lastColon, layout⟩
      = .ok (.again ⟨start + line.margin.length + line.text.length, lastColon, layout⟩) := by
  have hstarts := h.codeStart.resolve_left fun hblank => by simp [hcomment] at hblank
  have hminus := (Bool.and_eq_true_iff.mp hstarts).1
  have hlength := lt_length_of_byteIs hminus
  have hlf : ¬ text.byteIs (start + line.margin.length) asciiLf = true :=
    fun hlf => absurd (byteIs_unique hlf hminus) (by decide)
  have hspace : ¬ text.byteIs (start + line.margin.length) asciiSpace = true :=
    fun hspace => absurd (byteIs_unique hspace hminus) (by decide)
  have hnone : layout.lineEnds text (start + line.margin.length) lastColon = none := by
    unfold Layout.lineEnds
    rw [if_pos (by simpa using hlf)]
  have hvalue : ¬ afterValue layout.tokens.getLast? (start + line.margin.length) = true := by
    rw [hvalue]
    decide
  unfold codeTurn
  simp only [hnone, codeCommentEnd]
  rw [if_neg (Nat.ne_of_lt hlength), if_neg hlf, if_neg hspace, if_pos hstarts, if_neg hvalue,
    h.commentEnd hline hcomment]
  rfl

/-- A LF that does not end the code line goes on over a line of trivia, to the LF of that
line. -/
theorem passes_break {cursor : Nat} (hcursor : cursor + 1 = start)
    (hlf : text.byteIs cursor asciiLf = true) {lastColon : Bool} {layout : Layout}
    (hnone : layout.lineEnds text cursor lastColon = none)
    (hvalue : afterValue layout.tokens.getLast? (start + line.margin.length) = false) (fuel : Nat) :
    ∃ count ≤ 2, ∀ more, turns (text.codeTurn fuel) (more + count) ⟨cursor, lastColon, layout⟩
      = turns (text.codeTurn fuel) more
          ⟨start + line.margin.length + line.text.length, lastColon, layout⟩ := by
  have hfirst := h.continues hline hcursor hlf hnone fuel
  cases hcomment : line.comment with
  | none =>
    have hempty : line.text = [] := by simp [TriviaLine.text, hcomment]
    refine ⟨1, by omega, fun more => ?_⟩
    rw [turns_again hfirst, hempty]
    rfl
  | some comment =>
    refine ⟨2, Nat.le_refl _, fun more => ?_⟩
    rw [turns_again hfirst, turns_again (h.passes_comment hline hcomment hvalue fuel)]

end

end StandsAt

/-! ## Several lines -/

def StandFrom (text : SourceText) : List TriviaLine → Nat → Prop
  | [], _ => True
  | line :: lines, start => StandsAt text line start ∧ StandFrom text lines (start + line.bytes.length)

def triviaBytes (lines : List TriviaLine) : Bytes := lines.flatMap TriviaLine.bytes

theorem standFrom_inserted (origin : Nat) (after : Bytes) :
    ∀ (lines : List TriviaLine) (before : Bytes),
      StandFrom ⟨origin, before ++ triviaBytes lines ++ after⟩ lines before.length
  | [], _ => trivial
  | line :: lines, before => by
      have hsplit : before ++ triviaBytes (line :: lines) ++ after
          = (before ++ line.bytes) ++ triviaBytes lines ++ after := by simp [triviaBytes]
      refine ⟨fun i hi => ?_, ?_⟩
      · unfold SourceText.byteAt
        simp only [hsplit, List.append_assoc]
        rw [List.getElem?_append_right (by omega), Nat.add_sub_cancel_left,
          List.getElem?_append_left hi]
      · have hrest := standFrom_inserted origin after lines (before ++ line.bytes)
        rw [List.length_append] at hrest
        rw [hsplit]
        exact hrest

variable {text : SourceText}

theorem passes_lines (fuel : Nat) : ∀ {lines : List TriviaLine} {start : Nat},
    (∀ line ∈ lines, line.Admitted) → StandFrom text lines start → ∀ more,
      turns (text.codeLineTurn fuel) (more + lines.length) (text.linePrefix start)
        = turns (text.codeLineTurn fuel) more
            (text.linePrefix (start + (triviaBytes lines).length))
  | [], _, _, _, more => rfl
  | line :: lines, start, hlines, hstand, more => by
      have hline := hlines line List.mem_cons_self
      have hrest := passes_lines fuel (fun next hnext => hlines next (List.mem_cons_of_mem _ hnext))
        hstand.2 more
      have hlength : start + (triviaBytes (line :: lines)).length
          = start + line.bytes.length + (triviaBytes lines).length := by
        simp [triviaBytes]
        omega
      rw [List.length_cons, ← Nat.add_assoc, turns_again (hstand.1.passes_line hline fuel), hrest,
        hlength]

theorem lineEnds_same {cursor cursor' : Nat} (lastColon : Bool) (layout : Layout)
    (hlf : text.byteIs cursor asciiLf = text.byteIs cursor' asciiLf) :
    layout.lineEnds text cursor lastColon = layout.lineEnds text cursor' lastColon := by
  unfold Layout.lineEnds
  rw [hlf]

theorem passes_breaks (fuel : Nat) {lastColon : Bool} {layout : Layout} :
    ∀ {lines : List TriviaLine} {cursor : Nat}, (∀ line ∈ lines, line.Admitted) →
      StandFrom text lines (cursor + 1) → text.byteIs cursor asciiLf = true →
      layout.lineEnds text cursor lastColon = none →
      (∀ position, cursor < position → SourceText.afterValue layout.tokens.getLast? position = false) →
      ∃ count ≤ 2 * lines.length, ∀ more,
        turns (text.codeTurn fuel) (more + count) ⟨cursor, lastColon, layout⟩
          = turns (text.codeTurn fuel) more
              ⟨cursor + (triviaBytes lines).length, lastColon, layout⟩
  | [], cursor, _, _, _, _, _ => ⟨0, Nat.le_refl _, fun _ => rfl⟩
  | line :: lines, cursor, hlines, hstand, hlf, hnone, hvalue => by
      have hline := hlines line List.mem_cons_self
      obtain ⟨count, hcount, hturns⟩ := hstand.1.passes_break hline rfl hlf hnone
        (hvalue _ (by omega)) fuel
      have hbytes := line.length_bytes
      have hnext : cursor + 1 + line.margin.length + line.text.length + 1
          = cursor + 1 + line.bytes.length := by omega
      have hlf' := hstand.1.lineFeed
      have hnone' : layout.lineEnds text (cursor + 1 + line.margin.length + line.text.length)
          lastColon = none := by
        rw [lineEnds_same lastColon layout (hlf'.trans hlf.symm)]
        exact hnone
      obtain ⟨rest, hrest, hturns'⟩ := passes_breaks fuel
        (fun next hnext => hlines next (List.mem_cons_of_mem _ hnext)) (hnext ▸ hstand.2) hlf' hnone'
        fun position hposition => hvalue position (by omega)
      have hlength : cursor + 1 + line.margin.length + line.text.length + (triviaBytes lines).length
          = cursor + (triviaBytes (line :: lines)).length := by
        simp [triviaBytes]
        omega
      refine ⟨rest + count, by rw [List.length_cons]; omega, fun more => ?_⟩
      rw [← Nat.add_assoc, hturns, hturns', hlength]

end Blorp.Lex
