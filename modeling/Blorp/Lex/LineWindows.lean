import Blorp.Lex.Windows

/-!
# Lines in a window

The scanners that read more than one line move with a window as long as they end in it:
pipe Strings, raw blocks and documentation blocks.  A pipe String that ends with the
window's last line does so in the moved source too, whose next line is closed to it.
-/

namespace Blorp.Lex

open Fuel
open SourceText (LinePrefix)

/-- The same indentation in a source that starts `shift` bytes earlier. -/
def SourceText.LinePrefix.later (margin : LinePrefix) (shift : Nat) : LinePrefix :=
  ⟨margin.start + shift, margin.stop + shift⟩

theorem SourceText.LinePrefix.width_later (margin : LinePrefix) (shift : Nat) :
    (margin.later shift).stop - (margin.later shift).start = margin.stop - margin.start := by
  show margin.stop + shift - (margin.start + shift) = margin.stop - margin.start
  omega

/-- An indentation inside a window. -/
structure MarginIn (text : SourceText) (first last : Nat) (margin : LinePrefix) : Prop where
  start : first ≤ margin.start
  le : margin.start ≤ margin.stop
  stop : margin.stop ≤ last
  indentation : ∀ i, margin.start ≤ i → i < margin.stop → text.byteIn i .indentationByte = true

namespace SourceText

theorem sameIndentation_iff {text : SourceText} {margin : LinePrefix} {lineStart : Nat} :
    text.sameIndentation margin lineStart = true ↔
      ∀ offset < margin.stop - margin.start, ∃ expected,
        text.byteAt (margin.start + offset) = some expected ∧
          text.byteAt (lineStart + offset) = some expected := by
  unfold sameIndentation
  rw [List.all_eq_true]
  constructor
  · intro h offset hoffset
    have hbyte := h offset (List.mem_range.mpr hoffset)
    split at hbyte
    · rename_i expected hexpected
      exact ⟨expected, hexpected, byteIs_iff.mp hbyte⟩
    · cases hbyte
  · intro h offset hoffset
    obtain ⟨expected, hexpected, hbyte⟩ := h offset (List.mem_range.mp hoffset)
    rw [hexpected]
    exact byteIs_iff.mpr hbyte

theorem continuingMarker_eq_some {text : SourceText} {margin : LinePrefix} {lineEnd marker : Nat} :
    text.continuingMarker lineEnd margin = some marker ↔
      text.byteIs lineEnd asciiLf = true ∧ text.sameIndentation margin (lineEnd + 1) = true ∧
        marker = lineEnd + 1 + (margin.stop - margin.start) ∧
        text.byteIs marker asciiBar = true := by
  unfold continuingMarker
  simp only
  split
  · rename_i hcontinues
    simp only [Bool.and_eq_true] at hcontinues
    constructor
    · intro h
      cases h
      exact ⟨hcontinues.1.1, hcontinues.1.2, rfl, hcontinues.2⟩
    · rintro ⟨-, -, rfl, -⟩
      rfl
  · rename_i hends
    constructor
    · intro h
      cases h
    · rintro ⟨hlf, hsame, rfl, hbar⟩
      exact absurd (by simp [hlf, hsame, hbar]) hends

end SourceText

/-- A pipe String read so far from `start` on, and its like in the moved source. -/
structure PipeMoves (last shift start : Nat) (state state' : SourceText.PipeState) : Prop where
  joined : state'.joined = state.joined
  tokens : Moved last shift state.tokens state'.tokens
  cursor : state'.start = state.start + shift
  le : start ≤ state.start
  bound : state.start ≤ last

namespace Window

open SourceText

variable {text moved : SourceText} {first last shift : Nat} (w : Window text moved first last shift)
include w

/-! ## Lines -/

theorem linePrefix {x : Nat} (hfirst : first ≤ x) (hlast : x ≤ last) :
    moved.linePrefix (x + shift) = (text.linePrefix x).later shift := by
  unfold SourceText.linePrefix
  rw [w.runEnd hfirst hlast]
  rfl

theorem indentationLevel {margin : LinePrefix} {level : Nat} (hfirst : first ≤ margin.start)
    (hle : margin.start ≤ margin.stop) (hlast : margin.stop ≤ last)
    (h : text.indentationLevel margin = .ok level) :
    moved.indentationLevel (margin.later shift) = .ok level := by
  have hstart : margin.start ≤ last := Nat.le_trans hle hlast
  have hsame : ∀ stop : Nat, stop + shift = margin.stop + shift ↔ stop = margin.stop := by omega
  have hwidth : margin.stop + shift - (margin.start + shift) = margin.stop - margin.start := by omega
  unfold SourceText.indentationLevel LinePrefix.later at *
  simp only [w.runEnd hfirst hstart, hsame, hwidth] at h ⊢
  split at h
  · rename_i htabs
    cases h
    rw [if_pos htabs]
  rename_i htabs
  rw [if_neg htabs]
  split at h
  · rename_i hspaces
    cases h
    rw [if_pos hspaces]
  · cases h

theorem fenceAt {x : Nat} (hfirst : first ≤ x) (hlast : x ≤ last) :
    moved.fenceAt (x + shift) = text.fenceAt x := by
  unfold SourceText.fenceAt
  simp only [docFenceWidth]
  rw [w.pair hfirst hlast (by decide : asciiMinus ≠ asciiLf)]
  cases hpair : text.byteIs x asciiMinus && text.byteIs (x + 1) asciiMinus with
  | false => rfl
  | true =>
    obtain ⟨hone, htwo⟩ := Bool.and_eq_true_iff.mp hpair
    have hlt : x + 1 ≤ last := w.inside_byteIs hlast hone (by decide)
    have hlt' : x + 2 ≤ last := w.inside_byteIs hlt htwo (by decide)
    rw [show x + shift + 2 = x + 2 + shift by omega, w.byteIs (by omega) hlt']
    cases hthree : text.byteIs (x + 2) asciiMinus with
    | false => rfl
    | true =>
      have hlt'' : x + 3 ≤ last := w.inside_byteIs hlt' hthree (by decide)
      have hle := text.le_runEnd (x + 3) .spaceByte
      have hend := w.runEnd_le hlt'' .spaceByte
      rw [Nat.add_right_comm x shift 3, w.runEnd (by omega) hlt'',
        w.byteIs (by omega) hend]
      have hsame : (text.runEnd (x + 3) .spaceByte + shift == moved.length)
          = (text.runEnd (x + 3) .spaceByte == text.length) := by
        rw [Bool.eq_iff_iff, beq_iff_eq, beq_iff_eq]
        exact w.ends _ (by omega) hend
      rw [hsame]

/-! ## Documentation blocks -/

theorem nextLineStart {x next : Nat} (hfirst : first ≤ x) (hlast : x ≤ last)
    (h : text.nextLineStart x = .ok next) :
    moved.nextLineStart (x + shift) = .ok (next + shift) ∧ next ≤ last + 1 := by
  unfold SourceText.nextLineStart at h ⊢
  have hbound := w.bound
  obtain ⟨hle, hcount, hrun, hend⟩ := advance_spec (fun position => position < text.length &&
    !text.byteIs position asciiLf && !text.byteIs position asciiCr) (text.length - x) x
  generalize advance (fun position => position < text.length &&
    !text.byteIs position asciiLf && !text.byteIs position asciiCr) (text.length - x) x = stop
    at h hle hcount hrun hend
  have hstop : stop ≤ last := by
    refine Nat.le_of_not_lt fun hpassed => ?_
    have hinside := hrun last hlast hpassed
    simp only [Bool.and_eq_true, decide_eq_true_eq, Bool.not_eq_true'] at hinside
    obtain hend | hlf := w.barrier
    · omega
    · rw [hlf] at hinside
      exact absurd hinside.1.2 (by decide)
  have hends := w.ends stop (by omega) hstop
  have hbound' := w.le_length (by omega : first ≤ stop) hstop
  have hmoved : advance (fun position => position < moved.length &&
      !moved.byteIs position asciiLf && !moved.byteIs position asciiCr)
      (moved.length - (x + shift)) (x + shift) = stop + shift := by
    refine advance_eq (by omega) (by omega) (fun i hi hbefore => ?_) ?_
    · obtain ⟨j, rfl⟩ : ∃ j, i = j + shift := ⟨i - shift, by omega⟩
      have hinside := hrun j (by omega) (by omega)
      have hin : j + shift < moved.length := by omega
      simp only [Bool.and_eq_true, decide_eq_true_eq] at hinside
      rw [w.byteIs (by omega) (by omega), w.byteIs (by omega) (by omega)]
      simp [hin, hinside.1.2, hinside.2]
    · rw [w.byteIs (by omega) hstop, w.byteIs (by omega) hstop]
      obtain hend | hfalse := hend
      · have hall : ¬ stop + shift < moved.length := by omega
        simp [hall]
      · simp only [Bool.and_eq_false_iff, decide_eq_false_iff_not] at hfalse ⊢
        obtain (hout | hlf) | hcr := hfalse
        · exact .inl (.inl (by omega))
        · exact .inl (.inr hlf)
        · exact .inr hcr
  simp only [hmoved, w.byteIs (by omega : first ≤ stop) hstop]
  simp only at h
  split at h
  · cases h
  · rename_i hcr
    cases h
    rw [if_neg hcr]
    refine ⟨congrArg Except.ok ?_, by omega⟩
    by_cases hall : stop = text.length
    · have := hends.mpr hall
      omega
    · have : stop + shift ≠ moved.length := fun heq => hall (hends.mp heq)
      omega

omit w in
theorem docBlock_le {fuel line closing : Nat} (hline : line ≤ text.length)
    (h : turns text.docBlockTurn fuel line = .ok closing) :
    line ≤ closing ∧ closing ≤ text.length := by
  refine turns_yields (I := fun later => line ≤ later ∧ later ≤ text.length)
    (Q := fun closing => line ≤ closing ∧ closing ≤ text.length) ?_ ?_ ⟨Nat.le_refl _, hline⟩ h
  · rintro later next ⟨hle, hbound⟩ hturn
    unfold docBlockTurn at hturn
    split at hturn
    · cases hturn
    · obtain ⟨found, hfound, hturn⟩ := Outcome.peel hturn
      cases hturn
      have hspec := nextLineStart_spec hbound (Outcome.liftM_eq_ok.mp hfound)
      exact ⟨Nat.le_trans hle hspec.1, hspec.2.1⟩
  · rintro later closing hlater hturn
    unfold docBlockTurn at hturn
    split at hturn
    · cases hturn
      exact hlater
    · obtain ⟨_, _, hturn⟩ := Outcome.peel hturn
      cases hturn

omit w in
theorem docBlockEnd_lt {fuel x next : Nat} (hx : x < text.length)
    (h : text.docBlockEnd fuel x = .ok next) : x < next ∧ next ≤ text.length := by
  unfold SourceText.docBlockEnd at h
  obtain ⟨second, hsecond, h⟩ := Outcome.peel h
  obtain ⟨closing, hclosing, h⟩ := Outcome.peel h
  have hspec := nextLineStart_spec (Nat.le_of_lt hx) (Outcome.liftM_eq_ok.mp hsecond)
  obtain ⟨hle, hin⟩ := docBlock_le hspec.2.1 hclosing
  have hafter := hspec.2.2.2 hx
  split at h
  · cases h
  · have hend := nextLineStart_spec hin (Outcome.liftM_eq_ok.mp h)
    exact ⟨by omega, hend.2.1⟩

theorem docBlockEnd {fuel fuel' x next : Nat} (hfuel : fuel ≤ fuel') (hfirst : first ≤ x)
    (hlast : x ≤ last) (h : text.docBlockEnd fuel x = .ok next) (hnext : next ≤ last + 1) :
    moved.docBlockEnd fuel' (x + shift) = .ok (next + shift) := by
  have hbound := w.bound
  unfold SourceText.docBlockEnd at h ⊢
  obtain ⟨second, hsecond, h⟩ := Outcome.peel h
  obtain ⟨closing, hclosing, h⟩ := Outcome.peel h
  have hsecond := Outcome.liftM_eq_ok.mp hsecond
  have hspec := nextLineStart_spec (Nat.le_trans hlast hbound) hsecond
  split at h
  · cases h
  rename_i hinside
  have hfound := Outcome.liftM_eq_ok.mp h
  -- The block ends in the window, so all its lines start there.
  obtain ⟨hsecondLe, hin⟩ := docBlock_le hspec.2.1 hclosing
  have hclosing' : closing ≤ last := by
    have := (nextLineStart_spec hin hfound).2.2.2 (by omega)
    omega
  have hmoved : ∃ closing', turns moved.docBlockTurn fuel' (second + shift) = .ok closing' ∧
      closing' = closing + shift := by
    refine turns_follow
      (R := fun line line' => line' = line + shift ∧ first ≤ line ∧ line ≤ text.length)
      (Q := fun closing' => closing' = closing + shift) ?_ ?_ hfuel ⟨rfl, by omega, hspec.2.1⟩
      hclosing
    · rintro line _ following rest ⟨rfl, hline, hin⟩ hturn hrest
      have hlater := (docBlock_le hin ((turns_again hturn rest).trans hrest)).1
      unfold docBlockTurn at hturn ⊢
      rw [w.fenceAt hline (by omega)]
      simp only [w.ends line hline (by omega)]
      split at hturn
      · cases hturn
      rename_i hopen
      obtain ⟨found, hfound, hturn⟩ := Outcome.peel hturn
      cases hturn
      have hfound := Outcome.liftM_eq_ok.mp hfound
      obtain ⟨hstep, -⟩ := w.nextLineStart hline (by omega) hfound
      have hfollowing := nextLineStart_spec hin hfound
      rw [if_neg hopen, hstep]
      exact ⟨_, rfl, rfl, by omega, hfollowing.2.1⟩
    · rintro line _ ⟨rfl, hline, hin⟩ hturn
      unfold docBlockTurn at hturn ⊢
      split at hturn
      · rename_i hclosed
        cases hturn
        rw [w.fenceAt hline hclosing']
        simp only [w.ends _ hline hclosing']
        rw [if_pos hclosed]
        exact ⟨_, rfl, rfl⟩
      · obtain ⟨_, _, hturn⟩ := Outcome.peel hturn
        cases hturn
  obtain ⟨_, hmoved, rfl⟩ := hmoved
  have hstart : first ≤ closing := by omega
  rw [(w.nextLineStart hfirst hlast hsecond).1]
  simp only [Outcome.liftM_ok, Outcome.ok_bind]
  rw [hmoved]
  simp only [Outcome.ok_bind, w.ends closing hstart hclosing']
  rw [if_neg hinside, (w.nextLineStart hstart hclosing' hfound).1]
  rfl

/-! ## Pipe Strings -/

theorem pipeLineEnd {fuel fuel' x stop : Nat} {form : PipeForm} (hfuel : fuel ≤ fuel')
    (hfirst : first ≤ x) (hlast : x ≤ last) (h : text.pipeLineEnd fuel x form = .ok stop) :
    moved.pipeLineEnd fuel' (x + shift) form = .ok (stop + shift) ∧ x ≤ stop ∧ stop ≤ last := by
  have hfollow : ∃ stop', turns (moved.pipeLineTurn form) fuel' (x + shift) = .ok stop' ∧
      stop' = stop + shift ∧ x ≤ stop ∧ stop ≤ last := by
    refine turns_follow
      (R := fun cursor cursor' => cursor' = cursor + shift ∧ x ≤ cursor ∧ cursor ≤ last)
      (Q := fun stop' => stop' = stop + shift ∧ x ≤ stop ∧ stop ≤ last) ?_ ?_ hfuel
      ⟨rfl, Nat.le_refl _, hlast⟩ h
    · rintro cursor _ next - ⟨rfl, hx, hcursor⟩ hturn -
      have hfirst' : first ≤ cursor := Nat.le_trans hfirst hx
      unfold pipeLineTurn at hturn ⊢
      rw [w.bytes cursor hfirst' hcursor]
      split at hturn
      · cases hturn
      rename_i byte hbyte
      simp only [w.opensHole hfirst' hcursor]
      split at hturn
      · cases hturn
      rename_i hlf
      rw [if_neg hlf]
      split at hturn
      · cases hturn
      rename_i hopens
      rw [if_neg hopens]
      obtain ⟨found, hfound, hturn⟩ := Outcome.peel hturn
      cases hturn
      have hfound := Outcome.liftM_eq_ok.mp hfound
      unfold pipeByteEnd at hfound ⊢
      split at hfound
      · rename_i htab
        cases hfound
        rw [if_pos htab, Nat.add_right_comm]
        exact ⟨_, rfl, rfl, by omega, w.inside hcursor hbyte hlf⟩
      · rename_i htab
        obtain ⟨hstep, hle⟩ := w.rawCharacterEnd hfirst' hcursor hbyte hfound
        have hlater := (rawCharacterEnd_bound hbyte hfound).1
        rw [if_neg htab, hstep]
        exact ⟨_, rfl, rfl, by omega, hle⟩
    · rintro cursor _ ⟨rfl, hx, hcursor⟩ hturn
      have hfirst' : first ≤ cursor := Nat.le_trans hfirst hx
      unfold pipeLineTurn at hturn ⊢
      rw [w.bytes cursor hfirst' hcursor]
      split at hturn
      · cases hturn
        exact ⟨_, rfl, rfl, hx, hcursor⟩
      rename_i byte hbyte
      simp only [w.opensHole hfirst' hcursor]
      split at hturn
      · rename_i hlf
        cases hturn
        rw [if_pos hlf]
        exact ⟨_, rfl, rfl, hx, hcursor⟩
      rename_i hlf
      rw [if_neg hlf]
      split at hturn
      · rename_i hopens
        cases hturn
        rw [if_pos hopens]
        exact ⟨_, rfl, rfl, hx, hcursor⟩
      · obtain ⟨_, _, hturn⟩ := Outcome.peel hturn
        cases hturn
  obtain ⟨_, hmoved, rfl, hle, hend⟩ := hfollow
  exact ⟨hmoved, hle, hend⟩

section

variable {margin : LinePrefix} (hmargin : MarginIn text first last margin)

include hmargin

theorem margin_byte {offset : Nat} (hoffset : offset < margin.stop - margin.start) :
    moved.byteAt ((margin.later shift).start + offset) = text.byteAt (margin.start + offset) := by
  have hstart := hmargin.start
  have hstop := hmargin.stop
  show moved.byteAt (margin.start + shift + offset) = _
  rw [Nat.add_right_comm]
  exact w.bytes _ (by omega) (by omega)

theorem margin_inside {offset x expected : Nat} (hoffset : offset < margin.stop - margin.start)
    (hexpected : text.byteAt (margin.start + offset) = some expected) (hlast : x ≤ last)
    (hbyte : text.byteAt x = some expected) : x < last := by
  have hin := hmargin.indentation (margin.start + offset) (by omega) (by omega)
  have hin' : text.byteIn x .indentationByte = true := by
    unfold SourceText.byteIn at hin ⊢
    rw [hexpected] at hin
    rw [hbyte]
    exact hin
  exact w.inside_byteIn hlast hin'

theorem sameIndentation {lineStart : Nat} (hfirst : first ≤ lineStart) (hlast : lineStart ≤ last) :
    moved.sameIndentation (margin.later shift) (lineStart + shift)
        = text.sameIndentation margin lineStart ∧
      (text.sameIndentation margin lineStart = true →
        lineStart + (margin.stop - margin.start) ≤ last) := by
  have hreach : ∀ width ≤ margin.stop - margin.start,
      (∀ offset < width, ∃ expected, text.byteAt (margin.start + offset) = some expected ∧
        (lineStart + offset ≤ last → text.byteAt (lineStart + offset) = some expected)) →
      lineStart + width ≤ last := by
    intro width
    induction width with
    | zero => exact fun _ _ => hlast
    | succ width ih =>
      intro hwidth hbytes
      have hle := ih (by omega) fun offset hoffset => hbytes offset (by omega)
      obtain ⟨expected, hexpected, hbyte⟩ := hbytes width (Nat.lt_succ_self _)
      have := w.margin_inside hmargin (by omega) hexpected hle (hbyte hle)
      omega
  have htext : text.sameIndentation margin lineStart = true →
      lineStart + (margin.stop - margin.start) ≤ last := by
    intro hsame
    refine hreach _ (Nat.le_refl _) fun offset hoffset => ?_
    obtain ⟨expected, hexpected, hbyte⟩ := sameIndentation_iff.mp hsame offset hoffset
    exact ⟨expected, hexpected, fun _ => hbyte⟩
  refine ⟨?_, htext⟩
  rw [Bool.eq_iff_iff]
  constructor
  · intro hsame
    have hsame := sameIndentation_iff.mp hsame
    rw [LinePrefix.width_later] at hsame
    have hmoved : ∀ offset < margin.stop - margin.start, ∃ expected,
        text.byteAt (margin.start + offset) = some expected ∧
          moved.byteAt (lineStart + offset + shift) = some expected := by
      intro offset hoffset
      obtain ⟨expected, hexpected, hbyte⟩ := hsame offset hoffset
      rw [w.margin_byte hmargin hoffset] at hexpected
      rw [Nat.add_right_comm] at hbyte
      exact ⟨expected, hexpected, hbyte⟩
    have hend := hreach _ (Nat.le_refl _) fun offset hoffset => by
      obtain ⟨expected, hexpected, hbyte⟩ := hmoved offset hoffset
      refine ⟨expected, hexpected, fun hle => ?_⟩
      rw [← w.bytes _ (by omega) hle]
      exact hbyte
    refine sameIndentation_iff.mpr fun offset hoffset => ?_
    obtain ⟨expected, hexpected, hbyte⟩ := hmoved offset hoffset
    rw [w.bytes _ (by omega) (by omega)] at hbyte
    exact ⟨expected, hexpected, hbyte⟩
  · intro hsame
    have hend := htext hsame
    refine sameIndentation_iff.mpr ?_
    rw [LinePrefix.width_later]
    intro offset hoffset
    obtain ⟨expected, hexpected, hbyte⟩ := sameIndentation_iff.mp hsame offset hoffset
    refine ⟨expected, ?_, ?_⟩
    · rw [w.margin_byte hmargin hoffset]
      exact hexpected
    · rw [Nat.add_right_comm, w.bytes _ (by omega) (by omega)]
      exact hbyte

theorem continuingMarker_some {lineEnd marker : Nat} (hfirst : first ≤ lineEnd)
    (hlast : lineEnd < last) (h : text.continuingMarker lineEnd margin = some marker) :
    moved.continuingMarker (lineEnd + shift) (margin.later shift) = some (marker + shift) ∧
      lineEnd < marker ∧ marker + 1 ≤ last := by
  obtain ⟨hlf, hsame, rfl, hbar⟩ := continuingMarker_eq_some.mp h
  obtain ⟨hmoved, hend⟩ := w.sameIndentation hmargin (by omega : first ≤ lineEnd + 1) hlast
  have hmarker := hend hsame
  refine ⟨continuingMarker_eq_some.mpr ⟨?_, ?_, ?_, ?_⟩, by omega,
    w.inside_byteIs hmarker hbar (by decide)⟩
  · rw [w.byteIs hfirst (by omega)]
    exact hlf
  · rw [Nat.add_right_comm, hmoved]
    exact hsame
  · rw [LinePrefix.width_later]
    omega
  · rw [w.byteIs (by omega) hmarker]
    exact hbar

theorem continuingMarker_last :
    moved.continuingMarker (last + shift) (margin.later shift) = none := by
  cases hcontinues : moved.continuingMarker (last + shift) (margin.later shift) with
  | none => rfl
  | some marker =>
    exfalso
    obtain ⟨hlf, hsame, rfl, hbar⟩ := continuingMarker_eq_some.mp hcontinues
    rw [LinePrefix.width_later] at hbar
    have hclosed := w.closed hlf
    have hrun : moved.runEnd (last + shift + 1) .indentationByte
        = last + shift + 1 + (margin.stop - margin.start) := by
      refine runEnd_eq (by omega) (fun i hi hbefore => ?_) ?_
      · have hsame := sameIndentation_iff.mp hsame (i - (last + shift + 1))
        rw [LinePrefix.width_later] at hsame
        obtain ⟨expected, hexpected, hbyte⟩ := hsame (by omega)
        rw [w.margin_byte hmargin (by omega)] at hexpected
        have hin := hmargin.indentation (margin.start + (i - (last + shift + 1))) (by omega)
          (by omega)
        unfold SourceText.byteIn at hin ⊢
        rw [hexpected] at hin
        rw [show last + shift + 1 + (i - (last + shift + 1)) = i by omega] at hbyte
        rw [hbyte]
        exact hin
      · unfold SourceText.byteIn
        rw [byteIs_iff.mp hbar]
        rfl
    rw [hrun, hbar] at hclosed
    cases hclosed

theorem continuingMarker_none {lineEnd : Nat} (hfirst : first ≤ lineEnd) (hlast : lineEnd ≤ last)
    (h : text.continuingMarker lineEnd margin = none) :
    moved.continuingMarker (lineEnd + shift) (margin.later shift) = none := by
  rcases Nat.eq_or_lt_of_le hlast with rfl | hlt
  · exact w.continuingMarker_last hmargin
  cases hcontinues : moved.continuingMarker (lineEnd + shift) (margin.later shift) with
  | none => rfl
  | some marker =>
    exfalso
    obtain ⟨hlf, hsame, rfl, hbar⟩ := continuingMarker_eq_some.mp hcontinues
    rw [LinePrefix.width_later] at hbar
    obtain ⟨hmoved, hend⟩ := w.sameIndentation hmargin (by omega : first ≤ lineEnd + 1) hlt
    rw [Nat.add_right_comm, hmoved] at hsame
    have hmarker := hend hsame
    rw [w.byteIs hfirst hlast] at hlf
    rw [show lineEnd + shift + 1 + (margin.stop - margin.start)
      = lineEnd + 1 + (margin.stop - margin.start) + shift by omega,
      w.byteIs (by omega) hmarker] at hbar
    rw [continuingMarker_eq_some.mpr ⟨hlf, hsame, rfl, hbar⟩] at h
    cases h

end

theorem pipeBlock {margin : LinePrefix} (hmargin : MarginIn text first last margin)
    {fuel fuel' : Nat} {form : PipeForm} {block : PipeBlock} (hfuel : fuel ≤ fuel')
    (hbar : text.byteIs margin.stop asciiBar = true)
    (h : text.pipeBlock fuel margin form = .ok block) (hlast : block.stop ≤ last) :
    moved.pipeBlock fuel' (margin.later shift) form
      = .ok { block with stop := block.stop + shift } := by
  have hbound := w.bound
  have hfirst : first ≤ margin.stop := Nat.le_trans hmargin.start hmargin.le
  have hstart := w.inside_byteIs hmargin.stop hbar (by decide)
  have hfollow : ∃ block', turns (moved.pipeBlockTurn fuel' (margin.later shift) form) fuel'
      ([], margin.stop + shift) = .ok block' ∧
        block' = { block with stop := block.stop + shift } := by
    refine turns_follow
      (R := fun state state' => state' = (state.1, state.2 + shift) ∧ first ≤ state.2 ∧
        state.2 + 1 ≤ last)
      (Q := fun block' => block' = { block with stop := block.stop + shift }) ?_ ?_ hfuel
      ⟨rfl, hfirst, hstart⟩ h
    · rintro ⟨value, marker⟩ _ next rest ⟨rfl, hmarker, hlt⟩ hturn hrest
      simp only at hmarker hlt
      unfold pipeBlockTurn at hturn ⊢
      obtain ⟨stop, hstop, hturn⟩ := Outcome.peel hturn
      obtain ⟨hstop', hle, hend⟩ := w.pipeLineEnd hfuel (by omega) hlt hstop
      simp only at hturn hle
      simp only [Nat.add_right_comm marker shift 1, hstop', Outcome.ok_bind]
      split at hturn
      · rename_i following hfollowing
        cases hturn
        have hlater := (continuingMarker_spec hfollowing).2
        have hblock := pipeBlockTurns_bound (lt_length_of_byteIs hlater.2) hrest
        simp only at hblock
        obtain ⟨hcontinues, -, hin⟩ :=
          w.continuingMarker_some hmargin (by omega) (by omega) hfollowing
        rw [hcontinues, w.sliced (by omega) hle hend]
        exact ⟨_, rfl, rfl, by simp only; omega, hin⟩
      · cases hturn
    · rintro ⟨value, marker⟩ _ ⟨rfl, hmarker, hlt⟩ hturn
      simp only at hmarker hlt
      unfold pipeBlockTurn at hturn ⊢
      obtain ⟨stop, hstop, hturn⟩ := Outcome.peel hturn
      obtain ⟨hstop', hle, hend⟩ := w.pipeLineEnd hfuel (by omega) hlt hstop
      simp only at hturn hle
      simp only [Nat.add_right_comm marker shift 1, hstop', Outcome.ok_bind]
      split at hturn
      · cases hturn
      · rename_i hnone
        cases hturn
        rw [w.continuingMarker_none hmargin (by omega) hend hnone, w.sliced (by omega) hle hend]
        exact ⟨_, rfl, rfl⟩
  obtain ⟨_, hmoved, rfl⟩ := hfollow
  exact hmoved

/-- The text of a pipe line, read up to `stop`. -/
theorem pipeText {start stop : Nat} {state state' : PipeState} (hfirst : first ≤ start)
    (hstate : PipeMoves last shift start state state') (hle : state.start ≤ stop)
    (hlast : stop ≤ last) :
    (moved.pipeText state' (stop + shift)).joined = (text.pipeText state stop).joined ∧
      Moved last shift (text.pipeText state stop).tokens
        (moved.pipeText state' (stop + shift)).tokens := by
  have hstart := Nat.le_trans hfirst hstate.le
  unfold SourceText.pipeText
  rw [hstate.tokens.isEmpty, hstate.cursor]
  split
  · refine ⟨?_, hstate.tokens⟩
    show state'.joined ++ _ = state.joined ++ _
    rw [hstate.joined, w.sliced hstart hle hlast]
  · exact ⟨hstate.joined, hstate.tokens.append (w.segment hstart hlast)⟩

omit w in
theorem pipeOpened {margin : LinePrefix} {state state' : PipeState} {stop : Nat}
    (hjoined : state'.joined = state.joined) (htokens : Moved last shift state.tokens state'.tokens)
    (hmargin : margin.stop + 1 ≤ last) (hlast : stop ≤ last) :
    Moved last shift (text.pipeOpened margin state stop)
      (moved.pipeOpened (margin.later shift) state' (stop + shift)) := by
  unfold SourceText.pipeOpened
  rw [htokens.isEmpty, hjoined]
  split
  · refine Moved.append (.one (token_moves hmargin (Nat.add_right_comm _ _ _))) ?_
    split
    · exact .nil
    · exact .one (token_moves hlast rfl)
  · exact htokens

omit w in
theorem pipeTokens_le {margin : LinePrefix} {fuel n : Nat} {state : PipeState} {code : ScannedCode}
    (hstate : state.start ≤ text.length)
    (h : turns (text.pipeTurn fuel margin) n state = .ok code) : state.start ≤ code.stop := by
  refine turns_yields (I := fun later => state.start ≤ later.start ∧ later.start ≤ text.length)
    (Q := fun code => state.start ≤ code.stop) ?_ ?_ ⟨Nat.le_refl _, hstate⟩ h
  · rintro later next ⟨hle, hbound⟩ hturn
    unfold pipeTurn at hturn
    obtain ⟨stop, hstop, hturn⟩ := Outcome.peel hturn
    obtain ⟨hline, hend, hdollar⟩ := pipeLineEnd_bound hbound hstop
    simp only at hturn
    split at hturn
    · rename_i hhole
      obtain ⟨hole, htokens, hturn⟩ := Outcome.peel hturn
      cases hturn
      obtain ⟨hscans, hprogress⟩ := interpolationTokens_scans (hdollar hhole).2 htokens
      exact ⟨by simp only; omega, hscans.bound⟩
    · split at hturn
      · split at hturn <;> cases hturn
      · rename_i marker hmarker
        obtain ⟨-, hlater, hbar⟩ := continuingMarker_spec hmarker
        have := lt_length_of_byteIs hbar
        split at hturn
        all_goals
          cases hturn
          exact ⟨by simp only; omega, this⟩
  · rintro later code ⟨hle, hbound⟩ hturn
    unfold pipeTurn at hturn
    obtain ⟨stop, hstop, hturn⟩ := Outcome.peel hturn
    obtain ⟨hline, hend, -⟩ := pipeLineEnd_bound hbound hstop
    simp only at hturn
    split at hturn
    · obtain ⟨_, _, hturn⟩ := Outcome.peel hturn
      cases hturn
    · split at hturn
      · split at hturn
        all_goals
          cases hturn
          simp only
          omega
      · split at hturn <;> cases hturn

section

variable {margin : LinePrefix} (hmargin : MarginIn text first last margin)

include hmargin

theorem pipeTurn (hinside : margin.stop + 1 ≤ last) {fuel fuel' n : Nat}
    {state state' next : PipeState} {code : ScannedCode} (hfuel : fuel ≤ fuel')
    (hlast : code.stop ≤ last) (hstate : PipeMoves last shift (margin.stop + 1) state state')
    (h : text.pipeTurn fuel margin state = .ok (.again next))
    (hrest : turns (text.pipeTurn fuel margin) n next = .ok code) :
    ∃ next', moved.pipeTurn fuel' (margin.later shift) state' = .ok (.again next') ∧
      PipeMoves last shift (margin.stop + 1) next next' := by
  have hbound := w.bound
  have hfirst : first ≤ margin.stop + 1 :=
    Nat.le_succ_of_le (Nat.le_trans hmargin.start hmargin.le)
  have hstart := hstate.le
  unfold SourceText.pipeTurn at h ⊢
  obtain ⟨stop, hstop, h⟩ := Outcome.peel h
  have hdollar := (pipeLineEnd_bound (Nat.le_trans hstate.bound hbound) hstop).2.2
  obtain ⟨hstop', hle, hend⟩ := w.pipeLineEnd hfuel (Nat.le_trans hfirst hstart) hstate.bound hstop
  obtain ⟨hjoined, htokens⟩ := w.pipeText hfirst hstate hle hend
  simp only at h
  rw [hstate.cursor, hstop']
  simp only [Outcome.ok_bind, w.byteIs (by omega : first ≤ stop) hend]
  split at h
  · rename_i hhole
    obtain ⟨hole, hhole', h⟩ := Outcome.peel h
    cases h
    obtain ⟨hone, htwo⟩ := Bool.and_eq_true_iff.mp (hdollar hhole).2
    have hlt : stop + 1 ≤ last := w.inside_byteIs hend hone (by decide)
    have hlt' : stop + 2 ≤ last := w.inside_byteIs hlt htwo (by decide)
    obtain ⟨hole', hmoved, hmoves⟩ := w.interpolationTokens hfuel (by omega) hlt' hhole'
    have hafter := hmoves.le
    rw [if_pos hhole, hmoved]
    refine ⟨_, rfl, ?_, (pipeOpened hjoined htokens hinside hend).append hmoves.tokens,
      hmoves.stop, by simp only; omega, hmoves.bound⟩
    show (if _ then _ else _) = if _ then _ else _
    rw [htokens.isEmpty, hjoined]
  · rename_i hplain
    rw [if_neg hplain]
    split at h
    · split at h <;> cases h
    · rename_i marker hmarker
      obtain ⟨-, hlater, hbar⟩ := continuingMarker_spec hmarker
      have hnext : next.start = marker + 1 := by
        split at h
        · cases h
          rfl
        · cases h
          rfl
      have hafter := pipeTokens_le (hnext ▸ lt_length_of_byteIs hbar) hrest
      obtain ⟨hcontinues, -, hin⟩ :=
        w.continuingMarker_some hmargin (by omega) (by omega : stop < last) hmarker
      rw [hcontinues]
      simp only [htokens.isEmpty]
      split at h
      · rename_i hempty
        cases h
        rw [if_pos hempty]
        refine ⟨_, rfl, ?_, htokens, Nat.add_right_comm _ _ _, by simp only; omega, hin⟩
        show _ ++ _ = _ ++ _
        rw [hjoined]
      · rename_i hfull
        cases h
        rw [if_neg hfull]
        exact ⟨_, rfl, hjoined,
          htokens.append (.one (token_moves (by omega) (Nat.add_right_comm _ _ _))),
          Nat.add_right_comm _ _ _, by simp only; omega, hin⟩

theorem pipeTurn_done {fuel fuel' : Nat} {state state' : PipeState} {code : ScannedCode}
    (hfuel : fuel ≤ fuel') (hstate : PipeMoves last shift (margin.stop + 1) state state')
    (h : text.pipeTurn fuel margin state = .ok (.done code)) :
    ∃ code', moved.pipeTurn fuel' (margin.later shift) state' = .ok (.done code') ∧
      CodeMoves last shift margin.stop code code' := by
  have hfirst : first ≤ margin.stop + 1 :=
    Nat.le_succ_of_le (Nat.le_trans hmargin.start hmargin.le)
  have hstart := hstate.le
  unfold SourceText.pipeTurn at h ⊢
  obtain ⟨stop, hstop, h⟩ := Outcome.peel h
  obtain ⟨hstop', hle, hend⟩ := w.pipeLineEnd hfuel (Nat.le_trans hfirst hstart) hstate.bound hstop
  obtain ⟨hjoined, htokens⟩ := w.pipeText hfirst hstate hle hend
  simp only at h
  rw [hstate.cursor, hstop']
  simp only [Outcome.ok_bind, w.byteIs (by omega : first ≤ stop) hend]
  split at h
  · obtain ⟨_, _, h⟩ := Outcome.peel h
    cases h
  · rename_i hplain
    rw [if_neg hplain]
    split at h
    · rename_i hnone
      rw [w.continuingMarker_none hmargin (by omega) hend hnone]
      simp only [htokens.isEmpty]
      split at h
      · rename_i hempty
        cases h
        rw [if_pos hempty]
        refine ⟨_, rfl, .one ⟨?_, rfl, hend⟩, rfl, by simp only; omega, hend⟩
        show TokenKind.pipeString _ = TokenKind.pipeString _
        rw [hjoined]
      · rename_i hfull
        cases h
        rw [if_neg hfull]
        exact ⟨_, rfl, htokens.append (.one (token_moves hend rfl)), rfl, by simp only; omega, hend⟩
    · split at h <;> cases h

theorem pipeTokens {fuel fuel' : Nat} {code : ScannedCode} (hfuel : fuel ≤ fuel')
    (hbar : text.byteIs margin.stop asciiBar = true) (h : text.pipeTokens fuel margin = .ok code)
    (hlast : code.stop ≤ last) :
    ∃ code', moved.pipeTokens fuel' (margin.later shift) = .ok code' ∧
      CodeMoves last shift margin.stop code code' := by
  have hinside : margin.stop + 1 ≤ last := w.inside_byteIs hmargin.stop hbar (by decide)
  refine turns_follow (R := PipeMoves last shift (margin.stop + 1))
    (Q := CodeMoves last shift margin.stop code) ?_ ?_ hfuel ?_ h
  · intro state state' next n hstate hturn hrest
    exact w.pipeTurn hmargin hinside hfuel hlast hstate hturn hrest
  · intro state state' hstate hturn
    exact w.pipeTurn_done hmargin hfuel hstate hturn
  · exact ⟨rfl, .nil, Nat.add_right_comm _ _ _, Nat.le_refl _, hinside⟩

end

/-! ## Raw blocks and the code of a line -/

section

variable {x : Nat} (hfirst : first ≤ x)

include hfirst

theorem linePrefix_margin (hlast : x ≤ last) : MarginIn text first last (text.linePrefix x) where
  start := hfirst
  le := text.le_runEnd x _
  stop := w.runEnd_le hlast _
  indentation := (text.runEnd_spec x .indentationByte).2.2.1

theorem isRawWord (hlast : x ≤ last) : (text.runEnd x .identifierByte + shift == x + shift + 3 &&
        moved.byteIs (x + shift) asciiLowerR && moved.byteIs (x + shift + 1) asciiLowerA &&
        moved.byteIs (x + shift + 2) asciiLowerW)
      = (text.runEnd x .identifierByte == x + 3 && text.byteIs x asciiLowerR &&
        text.byteIs (x + 1) asciiLowerA && text.byteIs (x + 2) asciiLowerW) := by
  by_cases hword : text.runEnd x .identifierByte = x + 3
  · have hend := w.runEnd_le hlast .identifierByte
    rw [hword, Nat.add_right_comm x shift 1, Nat.add_right_comm x shift 2,
      w.byteIs hfirst hlast, w.byteIs (by omega) (by omega), w.byteIs (by omega) (by omega)]
    have hsame : (x + 3 + shift == x + shift + 3) = (x + 3 == x + 3) := by
      rw [Bool.eq_iff_iff, beq_iff_eq, beq_iff_eq]
      omega
    rw [hsame]
  · have hword' : text.runEnd x .identifierByte + shift ≠ x + shift + 3 := by omega
    rw [beq_eq_false_iff_ne.mpr hword, beq_eq_false_iff_ne.mpr hword']
    rfl

theorem rawBlockMarkerLine_some {markerLine : LinePrefix} (hlast : x ≤ last)
    (h : text.rawBlockMarkerLine x = some markerLine) (hin : markerLine.stop ≤ last) :
    moved.rawBlockMarkerLine (x + shift) = some (markerLine.later shift) ∧
      MarginIn text first last markerLine := by
  unfold SourceText.rawBlockMarkerLine at h ⊢
  have hword := text.le_runEnd x .identifierByte
  have hwordEnd := w.runEnd_le hlast .identifierByte
  have hline := text.le_runEnd (text.runEnd x .identifierByte) .spaceByte
  have hlineEnd := w.runEnd_le hwordEnd .spaceByte
  simp only at h
  split at h
  · rename_i hraw
    cases h
    have hmarker := text.le_runEnd
      (text.runEnd (text.runEnd x .identifierByte) .spaceByte + 1) .indentationByte
    have hlt : text.runEnd (text.runEnd x .identifierByte) .spaceByte + 1 ≤ last := by
      unfold SourceText.linePrefix at hin
      simp only at hin
      omega
    have hprefix := w.linePrefix (by omega) hlt
    have hmargin := w.linePrefix_margin (by omega) hlt
    have hstop : moved.byteIs ((text.linePrefix (text.runEnd (text.runEnd x .identifierByte)
        .spaceByte + 1)).later shift).stop asciiBar = text.byteIs (text.linePrefix
        (text.runEnd (text.runEnd x .identifierByte) .spaceByte + 1)).stop asciiBar :=
      w.byteIs (Nat.le_trans hmargin.start hmargin.le) hin _
    simp only [w.runEnd hfirst hlast, w.runEnd (by omega : first ≤ text.runEnd x .identifierByte)
      hwordEnd, Nat.add_right_comm _ shift 1, hprefix, hstop, w.byteIs
      (by omega : first ≤ text.runEnd (text.runEnd x .identifierByte) .spaceByte) hlineEnd]
    have hsame := w.isRawWord hfirst hlast
    rw [Nat.add_right_comm x shift 1] at hsame
    rw [hsame, if_pos hraw]
    exact ⟨rfl, hmargin⟩
  · cases h

theorem rawBlockMarkerLine_none (hlast : x ≤ last) (h : text.rawBlockMarkerLine x = none) :
    moved.rawBlockMarkerLine (x + shift) = none := by
  unfold SourceText.rawBlockMarkerLine at h ⊢
  have hword := text.le_runEnd x .identifierByte
  have hwordEnd := w.runEnd_le hlast .identifierByte
  have hline := text.le_runEnd (text.runEnd x .identifierByte) .spaceByte
  have hlineEnd := w.runEnd_le hwordEnd .spaceByte
  have hsame := w.isRawWord hfirst hlast
  simp only at h
  split at h
  · cases h
  rename_i hraw
  simp only [w.runEnd hfirst hlast, w.runEnd (by omega : first ≤ text.runEnd x .identifierByte)
    hwordEnd, hsame]
  rw [if_neg]
  intro hmoved
  refine hraw ?_
  simp only [Bool.and_eq_true] at hmoved ⊢
  obtain ⟨⟨hisRaw, hlf⟩, hbar⟩ := hmoved
  by_cases hlt : text.runEnd (text.runEnd x .identifierByte) .spaceByte + 1 ≤ last
  · have hmargin := w.linePrefix_margin (by omega) hlt
    rw [w.byteIs (by omega) hlineEnd] at hlf
    rw [Nat.add_right_comm, w.linePrefix (by omega) hlt] at hbar
    have hbar : moved.byteIs ((text.linePrefix (text.runEnd (text.runEnd x .identifierByte)
      .spaceByte + 1)).stop + shift) asciiBar = true := hbar
    rw [w.byteIs (Nat.le_trans hmargin.start hmargin.le) hmargin.stop] at hbar
    exact ⟨⟨hisRaw, hlf⟩, hbar⟩
  · have heq : text.runEnd (text.runEnd x .identifierByte) .spaceByte = last := by omega
    rw [heq] at hlf hbar
    have hclosed := w.closed hlf
    unfold SourceText.linePrefix at hbar
    rw [hclosed] at hbar
    cases hbar

end

theorem lineCode {margin : LinePrefix} (hmargin : MarginIn text first last margin)
    {fuel fuel' : Nat} {found : Option ScannedCode} (hfuel : fuel ≤ fuel')
    (h : text.lineCode fuel margin = .ok found) (hlast : ∀ code, found = some code → code.stop ≤ last) :
    ∃ found', moved.lineCode fuel' (margin.later shift) = .ok found' ∧
      Option.Rel (CodeMoves last shift margin.stop) found found' := by
  have hfirst : first ≤ margin.stop := Nat.le_trans hmargin.start hmargin.le
  have hbyte : moved.byteIs (margin.later shift).stop asciiBar = text.byteIs margin.stop asciiBar :=
    w.byteIs hfirst hmargin.stop _
  unfold SourceText.lineCode at h ⊢
  rw [hbyte]
  split at h
  · rename_i hbar
    obtain ⟨block, hblock, h⟩ := Outcome.peel h
    cases h
    obtain ⟨block', hmoved, hmoves⟩ := w.pipeTokens hmargin hfuel hbar hblock (hlast block rfl)
    rw [if_pos hbar, hmoved]
    exact ⟨_, rfl, .some hmoves⟩
  rename_i hbar
  rw [if_neg hbar]
  split at h
  · rename_i markerLine hmarker
    obtain ⟨block, hblock, h⟩ := Outcome.peel h
    cases h
    have hend : block.stop ≤ last := hlast _ rfl
    obtain ⟨hlater, hmarkerBar⟩ := rawBlockMarkerLine_spec hmarker
    have hafter := pipeBlock_bound hmarkerBar hblock
    obtain ⟨hmoved, hmarkerIn⟩ :=
      w.rawBlockMarkerLine_some hfirst hmargin.stop hmarker (by omega)
    have hmoved : moved.rawBlockMarkerLine (margin.later shift).stop
        = some (markerLine.later shift) := hmoved
    rw [hmoved]
    simp only [w.pipeBlock hmarkerIn hfuel hmarkerBar hblock hend, Outcome.ok_bind]
    exact ⟨_, rfl, .some ⟨.one (token_moves hend rfl), rfl, by simp only; omega, hend⟩⟩
  · rename_i hnone
    cases h
    have hmoved : moved.rawBlockMarkerLine (margin.later shift).stop = none :=
      w.rawBlockMarkerLine_none hfirst hmargin.stop hnone
    rw [hmoved]
    exact ⟨none, rfl, .none⟩

end Window

end Blorp.Lex
