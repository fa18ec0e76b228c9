import Blorp.Lex.Nesting
import Blorp.Lex.TriviaLines

/-!
# Blank lines are invisible to layout

Lines of trivia inserted between two code lines leave the sequence of token kinds as it
is.  The source with them is scanned in two windows: up to the LF before the insertion,
and from there to its end.  A line, a code line and the search for the next line each go
over from the first window to the second one, past the inserted lines, at most once.
-/

namespace Blorp.Lex

open Fuel
open SourceText (LinePrefix CodeLine)

/-! ## Where lines may be inserted -/

/-- A line the lexer looks at for code: one after the start of the source, or after the
end of a code line. -/
def LookedAt (text : SourceText) (fuel : Nat) (margin : LinePrefix) : Prop :=
  ∃ start, Reaches (text.codeLineTurn fuel) (text.linePrefix start) margin ∧
    (start = 0 ∨ ∃ state cursor ended, CodeReached text fuel state ∧
      text.codeTurn fuel state = .ok (.done (cursor, ended)) ∧
      start = min (cursor + 1) text.length)

/-- A line whose code the lexer reads: a code line, or a continuation line inside
brackets. -/
inductive ReadAt (text : SourceText) (fuel : Nat) : LinePrefix → Prop
  | line {line : CodeLine} {layout : Layout} : LineReached text fuel line layout →
      ReadAt text fuel line.margin
  | continued {state : CodeState} : CodeReached text fuel state →
      text.byteIs state.cursor asciiLf = true →
      state.layout.lineEnds text state.cursor state.lastColon = none →
      ReadAt text fuel (text.linePrefix (state.cursor + 1))

/-- The string blocks and documentation blocks of a source, each with the line after it. -/
inductive Block (text : SourceText) (fuel : Nat) : Nat → Nat → Prop
  | string {margin : LinePrefix} {code : ScannedCode} : ReadAt text fuel margin →
      text.lineCode fuel margin = .ok (some code) → Block text fuel margin.stop (code.stop + 1)
  | documentation {margin : LinePrefix} {after : Nat} : LookedAt text fuel margin →
      margin.start = margin.stop → text.fenceAt margin.stop = true →
      text.docBlockEnd fuel margin.stop = .ok after → Block text fuel margin.stop after

/-- The start of a line that is not inside a block. -/
structure BetweenLines (text : SourceText) (fuel position : Nat) : Prop where
  lineFeed : 0 < position ∧ text.byteIs (position - 1) asciiLf = true
  outside : ∀ start stop, Block text fuel start stop → position ≤ start ∨ stop ≤ position

/-! ## The two windows -/

/-- `moved` is `text` with lines of trivia before the line at `position`. -/
structure Inserted (text moved : SourceText) (lines : List TriviaLine) (position : Nat) : Prop where
  admitted : ∀ line ∈ lines, line.Admitted
  stand : StandFrom moved lines position
  lineFeed : 0 < position ∧ text.byteIs (position - 1) asciiLf = true
  earlier : Window text moved 0 (position - 1) 0
  later : Window text moved (position - 1) text.length (triviaBytes lines).length

variable {origin x fuel : Nat} {text : SourceText} {line : CodeLine} {layout : Layout}

theorem byteAt_append_left {first second : Bytes} (h : x < first.length) :
    SourceText.byteAt ⟨origin, first ++ second⟩ x = SourceText.byteAt ⟨origin, first⟩ x := by
  unfold SourceText.byteAt
  rw [List.getElem?_append_left h]

theorem byteAt_append_right {first second : Bytes} (h : first.length ≤ x) :
    SourceText.byteAt ⟨origin, first ++ second⟩ x
      = SourceText.byteAt ⟨origin, second⟩ (x - first.length) := by
  unfold SourceText.byteAt
  rw [List.getElem?_append_right h]

theorem triviaBytes_lineFeed (origin : Nat) : ∀ {lines : List TriviaLine}, lines ≠ [] →
    0 < (triviaBytes lines).length ∧
      SourceText.byteAt ⟨origin, triviaBytes lines⟩ ((triviaBytes lines).length - 1)
        = some asciiLf
  | [line], _ => by
      have hbytes : triviaBytes [line] = line.margin ++ line.text ++ [10] := by
        simp [triviaBytes, TriviaLine.bytes]
      rw [hbytes]
      refine ⟨by rw [List.length_append]; exact Nat.succ_pos _, ?_⟩
      simp [SourceText.byteAt]
  | line :: next :: lines, _ => by
      obtain ⟨hpos, hbyte⟩ := triviaBytes_lineFeed origin (List.cons_ne_nil next lines)
      have hbytes : triviaBytes (line :: next :: lines)
          = line.bytes ++ triviaBytes (next :: lines) := rfl
      rw [hbytes, List.length_append]
      refine ⟨by omega, ?_⟩
      rw [byteAt_append_right (by omega)]
      rw [show line.bytes.length + (triviaBytes (next :: lines)).length - 1 - line.bytes.length
        = (triviaBytes (next :: lines)).length - 1 by omega]
      exact hbyte

theorem inserted {before after : Bytes} {lines : List TriviaLine}
    (hlines : ∀ line ∈ lines, line.Admitted) (hne : lines ≠ [])
    (hlf : 0 < before.length ∧ SourceText.byteIs ⟨origin, before ++ after⟩ (before.length - 1)
      asciiLf = true) :
    Inserted ⟨origin, before ++ after⟩ ⟨origin, before ++ triviaBytes lines ++ after⟩ lines
      before.length := by
  have hstand := standFrom_inserted origin after lines before
  obtain ⟨hpos, hbyte⟩ := triviaBytes_lineFeed origin hne
  have hlength : SourceText.length ⟨origin, before ++ after⟩ = before.length + after.length :=
    List.length_append
  have hlength' : SourceText.length ⟨origin, before ++ triviaBytes lines ++ after⟩
      = before.length + (triviaBytes lines).length + after.length := by
    show (before ++ triviaBytes lines ++ after).length = _
    rw [List.length_append, List.length_append]
  refine ⟨hlines, hstand, hlf, ⟨by omega, fun x _ hlast => ?_, fun x _ hlast => by omega,
    .inr hlf.2, fun _ => ?_⟩, ⟨Nat.le_refl _, fun x hfirst hlast => ?_, fun x _ _ => by omega,
    .inl rfl, fun hend => ?_⟩⟩
  · rw [Nat.add_zero, List.append_assoc, byteAt_append_left (by omega),
      byteAt_append_left (by omega)]
  · obtain ⟨line, rest, rfl⟩ := List.exists_cons_of_ne_nil hne
    have hline := hlines line List.mem_cons_self
    have hprefix := hstand.1.linePrefix hline
    have hstop : SourceText.runEnd ⟨origin, before ++ triviaBytes (line :: rest) ++ after⟩
        before.length .indentationByte = before.length + line.margin.length :=
      congrArg LinePrefix.stop hprefix
    rw [Nat.add_zero, show before.length - 1 + 1 = before.length by omega, hstop]
    exact hstand.1.not_bar
  · by_cases hx : before.length ≤ x
    · rw [byteAt_append_right (by rw [List.length_append]; omega), byteAt_append_right hx,
        List.length_append]
      rw [show x + (triviaBytes lines).length - (before.length + (triviaBytes lines).length)
        = x - before.length by omega]
    · obtain rfl : x = before.length - 1 := by omega
      rw [SourceText.byteIs_iff.mp hlf.2, List.append_assoc, byteAt_append_right (by omega),
        byteAt_append_left (by omega)]
      rw [show before.length - 1 + (triviaBytes lines).length - before.length
        = (triviaBytes lines).length - 1 by omega]
      exact hbyte
  · have := SourceText.lt_length_of_byteIs hend
    omega

/-! ## A line after the insertion, a line before it -/

/-- A line of the first source and the line of the second that it is read as. -/
structure LineMoves (text : SourceText) (first last shift : Nat) (margin margin' : LinePrefix) :
    Prop where
  within : MarginIn text first last margin
  moved : margin' = margin.later shift

/-- A code line found in the one source, and its like in the other. -/
structure CodeLineMoves (text : SourceText) (first last shift : Nat) (line line' : CodeLine) :
    Prop where
  margin : LineMoves text first last shift line.margin line'.margin
  level : line'.level = line.level

theorem Window.nextCodeLine {moved : SourceText} {first last shift fuel' x' : Nat}
    (w : Window text moved first last shift) {margin margin' : LinePrefix}
    (hmargin : turns (text.codeLineTurn fuel) fuel (text.linePrefix x) = .ok margin)
    (hmargin' : turns (moved.codeLineTurn fuel') fuel' (moved.linePrefix x') = .ok margin')
    (hmoves : LineMoves text first last shift margin margin')
    (h : text.nextCodeLine fuel x = .ok line) :
    ∃ line', moved.nextCodeLine fuel' x' = .ok line' ∧
      CodeLineMoves text first last shift line line' := by
  obtain ⟨hwithin, rfl⟩ := hmoves
  have hfirst : first ≤ margin.stop := Nat.le_trans hwithin.start hwithin.le
  have hends := w.ends margin.stop hfirst hwithin.stop
  have hends : (margin.later shift).stop = moved.length ↔ margin.stop = text.length := hends
  unfold SourceText.nextCodeLine at h ⊢
  rw [hmargin] at h
  rw [hmargin']
  simp only [Outcome.ok_bind, hends] at h ⊢
  split at h
  · rename_i hend
    cases h
    rw [if_pos hend]
    have hlength : moved.length = text.length + shift := by
      rw [← hend]
      exact (hends.mpr hend).symm
    have hlast := hwithin.stop
    refine ⟨_, rfl, ⟨⟨by simp only; omega, Nat.le_refl _, by simp only; omega, fun i hle hlt => ?_⟩,
      ?_⟩, rfl⟩
    · simp only at hle hlt
      omega
    · show LinePrefix.mk moved.length moved.length = _
      rw [hlength]
      rfl
  · rename_i hinside
    obtain ⟨level, hlevel, h⟩ := Outcome.peel h
    cases h
    rw [if_neg hinside, w.indentationLevel hwithin.start hwithin.le hwithin.stop
      (Outcome.liftM_eq_ok.mp hlevel)]
    exact ⟨_, rfl, ⟨hwithin, rfl⟩, rfl⟩

/-- A line at or after the insertion, and its like past the inserted lines. -/
def AfterInsertion (text moved : SourceText) (lines : List TriviaLine) (position : Nat)
    (margin margin' : LinePrefix) : Prop :=
  ∃ x, margin = text.linePrefix x ∧ position ≤ x ∧ x ≤ text.length ∧
    margin' = moved.linePrefix (x + (triviaBytes lines).length)

/-- The end of a code line, before the insertion or after it. -/
inductive EndMoves (text : SourceText) (lines : List TriviaLine) (position : Nat) :
    Nat × Layout → Nat × Layout → Prop
  | earlier {cursor : Nat} {ended ended' : Layout} : cursor < position →
      LayoutMoves 0 (position - 1) 0 ended ended' →
      EndMoves text lines position (cursor, ended) (cursor, ended')
  | later {cursor : Nat} {ended ended' : Layout} : position ≤ cursor + 1 →
      LayoutMoves position text.length (triviaBytes lines).length ended ended' →
      EndMoves text lines position (cursor, ended) (cursor + (triviaBytes lines).length, ended')

/-- The state before a code line, before the insertion or after it. -/
inductive LinesMove (text : SourceText) (lines : List TriviaLine) (position : Nat)
    (state state' : CodeLine × Layout) : Prop
  | earlier : CodeLineMoves text 0 (position - 1) 0 state.1 state'.1 →
      LayoutMoves 0 (position - 1) 0 state.2 state'.2 → LinesMove text lines position state state'
  | later : CodeLineMoves text (position - 1) text.length (triviaBytes lines).length state.1 state'.1 →
      LayoutMoves position text.length (triviaBytes lines).length state.2 state'.2 →
      LinesMove text lines position state state'

theorem lineTurn_inside {next : CodeLine × Layout}
    (h : text.lineTurn fuel (line, layout) = .ok (.again next)) :
    line.margin.stop ≠ text.length := by
  intro hend
  obtain ⟨opened, -, h⟩ := Outcome.peel h
  rw [if_pos hend] at h
  cases h

theorem lineTurn_eq {nextLine : CodeLine} {opened : Layout} {start : CodeState}
    {ended : Nat × Layout} (hopened : layout.layOut text fuel line = .ok opened)
    (hinside : line.margin.stop ≠ text.length)
    (hstart : text.startLine fuel line.margin false opened = .ok start)
    (hended : turns (text.codeTurn fuel) fuel start = .ok ended)
    (hnext : text.nextCodeLine fuel (min (ended.1 + 1) text.length) = .ok nextLine) :
    text.lineTurn fuel (line, layout) = .ok (.again (nextLine, ended.2.emit [.readyToken
      (text.symbol .newline ended.1 (min (ended.1 + 1) text.length))])) := by
  unfold SourceText.lineTurn
  simp only [hopened, Outcome.ok_bind]
  rw [if_neg hinside]
  simp [hstart, hended, hnext, Outcome.ok_bind]

theorem codeTurn_lineFeed {state next : CodeState} (hlf : text.byteIs state.cursor asciiLf = true)
    (h : text.codeTurn fuel state = .ok (.again next)) :
    state.layout.lineEnds text state.cursor state.lastColon = none ∧
      text.startLine fuel (text.linePrefix (state.cursor + 1)) state.lastColon state.layout
        = .ok next := by
  unfold SourceText.codeTurn at h
  simp only at h
  split at h
  · cases h
  split at h
  · cases h
  rename_i hnone
  refine ⟨hnone, ?_⟩
  split at h
  · cases h
  obtain ⟨started, hstarted, h⟩ := Outcome.peel h
  cases h
  exact hstarted

theorem BetweenLines.startLine_lt {position : Nat} {margin : LinePrefix} {lastColon : Bool}
    {state : CodeState} (h : BetweenLines text fuel position) (hread : ReadAt text fuel margin)
    (hmargin : margin.stop < position)
    (hstart : text.startLine fuel margin lastColon layout = .ok state) :
    state.cursor < position := by
  obtain ⟨found, hfound, hstart⟩ := Outcome.peel hstart
  cases found with
  | none =>
    cases hstart
    exact hmargin
  | some code =>
    cases hstart
    obtain hbefore | hpassed := h.outside _ _ (.string hread hfound)
    · omega
    · exact hpassed

namespace Inserted

variable {text moved : SourceText} {lines : List TriviaLine} {position : Nat}
    (ins : Inserted text moved lines position)
include ins

theorem le_length : position ≤ text.length := by
  have := SourceText.lt_length_of_byteIs ins.lineFeed.2
  omega

theorem laterTurn {fuel fuel' : Nat} {margin margin' next : LinePrefix} (hfuel : fuel ≤ fuel')
    (hmargin : AfterInsertion text moved lines position margin margin')
    (h : text.codeLineTurn fuel margin = .ok (.again next)) :
    ∃ next', moved.codeLineTurn fuel' margin' = .ok (.again next') ∧
      AfterInsertion text moved lines position next next' := by
  obtain ⟨x, rfl, hx, hbound, rfl⟩ := hmargin
  obtain ⟨following, rfl, hlt, hle, hmoved, -⟩ := ins.later.codeLineTurn hfuel (by omega) hbound h
  exact ⟨_, hmoved (by omega), following, rfl, by omega, hle, rfl⟩

theorem laterTurn_ends {fuel fuel' : Nat} {margin margin' found : LinePrefix}
    (hmargin : AfterInsertion text moved lines position margin margin')
    (h : text.codeLineTurn fuel margin = .ok (.done found)) :
    ∃ found', moved.codeLineTurn fuel' margin' = .ok (.done found') ∧
      LineMoves text (position - 1) text.length (triviaBytes lines).length found found' := by
  obtain ⟨x, rfl, hx, hbound, rfl⟩ := hmargin
  obtain ⟨rfl, hmoved⟩ := ins.later.codeLineTurn_ends (by omega) hbound h
  exact ⟨_, hmoved, ins.later.linePrefix_margin (by omega) hbound, rfl⟩

theorem laterLines {fuel fuel' inner inner' : Nat} {margin margin' found : LinePrefix}
    (hfuel : fuel ≤ fuel') (hinner : inner ≤ inner')
    (hmargin : AfterInsertion text moved lines position margin margin')
    (h : turns (text.codeLineTurn inner) fuel margin = .ok found) :
    ∃ found', turns (moved.codeLineTurn inner') fuel' margin' = .ok found' ∧
      LineMoves text (position - 1) text.length (triviaBytes lines).length found found' :=
  turns_follow (R := AfterInsertion text moved lines position)
    (Q := LineMoves text (position - 1) text.length (triviaBytes lines).length found)
    (fun _ _ _ _ hlines hturn _ => ins.laterTurn hinner hlines hturn)
    (fun _ _ hlines hturn => ins.laterTurn_ends hlines hturn) hfuel hmargin h

theorem earlierLines {fuel fuel' inner inner' x : Nat} {margin : LinePrefix}
    (hfuel : fuel + lines.length ≤ fuel') (hinner : inner ≤ inner') (hx : x ≤ position)
    (houtside : ∀ margin after, Reaches (text.codeLineTurn inner) (text.linePrefix x) margin →
      margin.start = margin.stop → text.fenceAt margin.stop = true →
      text.docBlockEnd inner margin.stop = .ok after → position ≤ margin.stop ∨ after ≤ position)
    (h : turns (text.codeLineTurn inner) fuel (text.linePrefix x) = .ok margin) :
    ∃ margin', turns (moved.codeLineTurn inner') fuel' (moved.linePrefix x) = .ok margin' ∧
      (LineMoves text 0 (position - 1) 0 margin margin' ∨
        LineMoves text (position - 1) text.length (triviaBytes lines).length margin margin') := by
  have hle := ins.le_length
  obtain hlt | rfl := Nat.lt_or_eq_of_le hx
  · refine turns_cross
      (R := fun margin margin' => ∃ y, Reaches (text.codeLineTurn inner) (text.linePrefix x) margin ∧
        margin = text.linePrefix y ∧ y < position ∧ margin' = moved.linePrefix y)
      (S := AfterInsertion text moved lines position)
      (Q := fun margin' => LineMoves text 0 (position - 1) 0 margin margin' ∨
        LineMoves text (position - 1) text.length (triviaBytes lines).length margin margin')
      ?_ ?_ ?_ ?_ hfuel ⟨x, .refl, rfl, hlt, rfl⟩ h
    · rintro _ _ next fuel ⟨y, hreaches, rfl, hy, rfl⟩ hturn _
      obtain ⟨following, rfl, hafter, hin, hmoved, hblock⟩ :=
        ins.earlier.codeLineTurn hinner (Nat.zero_le _) (by omega : y ≤ position - 1) hturn
      have hfollowing : following ≤ position := by
        refine Nat.le_of_not_lt fun hpast => ?_
        obtain ⟨hcolumn, hfence, hend⟩ := hblock (by omega)
        have hstop := (ins.earlier.linePrefix_margin (Nat.zero_le y) (by omega)).stop
        obtain hbefore | hpassed := houtside _ _ hreaches hcolumn hfence hend
        · omega
        · omega
      have hturn' : moved.codeLineTurn inner' (moved.linePrefix y)
          = .ok (.again (moved.linePrefix following)) := hmoved (by omega)
      obtain hnext | rfl := Nat.lt_or_eq_of_le hfollowing
      · exact .inl ⟨_, hturn', following, hreaches.tail hturn, rfl, hnext, rfl⟩
      · refine .inr ⟨lines.length, Nat.le_refl _, _, ⟨following, rfl, Nat.le_refl _, hin, rfl⟩,
          fun fuel' => ?_⟩
        rw [turns_again hturn']
        exact passes_lines _ ins.admitted ins.stand fuel'
    · rintro _ _ ⟨y, -, rfl, hy, rfl⟩ hturn
      obtain ⟨rfl, hmoved⟩ :=
        ins.earlier.codeLineTurn_ends (Nat.zero_le _) (by omega : y ≤ position - 1) hturn
      exact ⟨_, hmoved, .inl ⟨ins.earlier.linePrefix_margin (Nat.zero_le _) (by omega), rfl⟩⟩
    · exact fun _ _ _ _ hlines hturn _ => ins.laterTurn hinner hlines hturn
    · intro _ _ hlines hturn
      obtain ⟨found', hmoved, hmoves⟩ := ins.laterTurn_ends hlines hturn
      exact ⟨found', hmoved, .inr hmoves⟩
  · obtain ⟨more, rfl⟩ : ∃ more, fuel' = more + lines.length := ⟨fuel' - lines.length, by omega⟩
    obtain ⟨margin', hmargin', hmoves⟩ :=
      ins.laterLines (by omega : fuel ≤ more) hinner ⟨x, rfl, Nat.le_refl _, hle, rfl⟩ h
    refine ⟨margin', ?_, .inr hmoves⟩
    rw [passes_lines _ ins.admitted ins.stand more]
    exact hmargin'

theorem laterCodeLine {fuel fuel' x : Nat} {line : CodeLine} (hfuel : fuel ≤ fuel')
    (hx : position ≤ x) (hbound : x ≤ text.length) (h : text.nextCodeLine fuel x = .ok line) :
    ∃ line', moved.nextCodeLine fuel' (x + (triviaBytes lines).length) = .ok line' ∧
      CodeLineMoves text (position - 1) text.length (triviaBytes lines).length line line' := by
  obtain ⟨margin, hmargin, -⟩ := Outcome.peel h
  obtain ⟨margin', hmargin', hmoves⟩ :=
    ins.laterLines hfuel hfuel ⟨x, rfl, hx, hbound, rfl⟩ hmargin
  exact ins.later.nextCodeLine hmargin hmargin' hmoves h

theorem earlierCodeLine {fuel fuel' x : Nat} {line : CodeLine}
    (hfuel : fuel + lines.length ≤ fuel') (hx : x ≤ position)
    (houtside : ∀ margin after, Reaches (text.codeLineTurn fuel) (text.linePrefix x) margin →
      margin.start = margin.stop → text.fenceAt margin.stop = true →
      text.docBlockEnd fuel margin.stop = .ok after → position ≤ margin.stop ∨ after ≤ position)
    (h : text.nextCodeLine fuel x = .ok line) :
    ∃ line', moved.nextCodeLine fuel' x = .ok line' ∧
      (CodeLineMoves text 0 (position - 1) 0 line line' ∨
        CodeLineMoves text (position - 1) text.length (triviaBytes lines).length line line') := by
  obtain ⟨margin, hmargin, -⟩ := Outcome.peel h
  obtain ⟨margin', hmargin', hmoves | hmoves⟩ :=
    ins.earlierLines hfuel (Nat.le_trans (Nat.le_add_right _ _) hfuel) hx houtside hmargin
  · obtain ⟨line', hline', hlineMoves⟩ := ins.earlier.nextCodeLine hmargin hmargin' hmoves h
    exact ⟨line', hline', .inl hlineMoves⟩
  · obtain ⟨line', hline', hlineMoves⟩ := ins.later.nextCodeLine hmargin hmargin' hmoves h
    exact ⟨line', hline', .inr hlineMoves⟩

/-! ## Code lines -/

theorem laterCode {fuel fuel' : Nat} {state state' next : CodeState} (hfuel : fuel ≤ fuel')
    (hstate : StateMoves position text.length (triviaBytes lines).length state state')
    (hcursor : position - 1 ≤ state.cursor) (h : text.codeTurn fuel state = .ok (.again next)) :
    ∃ next', moved.codeTurn fuel' state' = .ok (.again next') ∧
      StateMoves position text.length (triviaBytes lines).length next next' ∧
      position - 1 ≤ next.cursor := by
  obtain ⟨more, -, hscans⟩ := (codeTurn_reads hstate.bound h).scans
  have hfrom : ∀ cursor, position - 1 ≤ cursor → text.byteIs cursor asciiMinus = true →
      position ≤ cursor := by
    intro cursor hcursor hminus
    by_contra hbefore
    obtain rfl : cursor = position - 1 := by omega
    exact absurd (SourceText.byteIs_unique hminus ins.lineFeed.2) (by decide)
  obtain ⟨next', hturn', hnext⟩ := ins.later.codeTurn hfuel hfrom hcursor hstate h
    fun hlf => ⟨SourceText.lt_length_of_byteIs hlf, hscans.bound⟩
  exact ⟨next', hturn', hnext, Nat.le_trans hcursor hscans.le⟩

theorem laterCode_ends {fuel fuel' : Nat} {state state' : CodeState} {ended : Nat × Layout}
    (hstate : StateMoves position text.length (triviaBytes lines).length state state')
    (hcursor : position - 1 ≤ state.cursor) (h : text.codeTurn fuel state = .ok (.done ended)) :
    ∃ ended', moved.codeTurn fuel' state' = .ok (.done ended') ∧
      EndMoves text lines position ended ended' := by
  obtain ⟨cursor, layout⟩ := ended
  have hends : cursor = state.cursor ∧ ∃ ended', moved.codeTurn fuel' state'
      = .ok (.done (cursor + (triviaBytes lines).length, ended')) ∧
        LayoutMoves position text.length (triviaBytes lines).length layout ended' :=
    ins.later.codeTurn_ends hcursor hstate h
  obtain ⟨rfl, ended', hturn', hmoves⟩ := hends
  exact ⟨_, hturn', .later (by omega) hmoves⟩

/-- Code after the insertion is read alike. -/
theorem laterTurns {fuel fuel' inner inner' : Nat} {state state' : CodeState}
    {ended : Nat × Layout} (hfuel : fuel ≤ fuel') (hinner : inner ≤ inner')
    (hstate : StateMoves position text.length (triviaBytes lines).length state state')
    (hcursor : position - 1 ≤ state.cursor)
    (h : turns (text.codeTurn inner) fuel state = .ok ended) :
    ∃ ended', turns (moved.codeTurn inner') fuel' state' = .ok ended' ∧
      EndMoves text lines position ended ended' :=
  turns_follow
    (R := fun state state' =>
      StateMoves position text.length (triviaBytes lines).length state state' ∧
        position - 1 ≤ state.cursor)
    (Q := EndMoves text lines position ended)
    (fun _ _ _ _ hstate hturn _ => ins.laterCode hinner hstate.1 hstate.2 hturn)
    (fun _ _ hstate hturn => ins.laterCode_ends hstate.1 hstate.2 hturn) hfuel ⟨hstate, hcursor⟩ h

theorem crossing {fuel fuel' : Nat} {state state' next : CodeState} (hfuel : fuel ≤ fuel')
    (hstate : StateMoves 0 (position - 1) 0 state state') (hcursor : state.cursor = position - 1)
    (h : text.codeTurn fuel state = .ok (.again next)) :
    ∃ count ≤ 2 * lines.length, ∃ next',
      (StateMoves position text.length (triviaBytes lines).length next next' ∧
        position - 1 ≤ next.cursor) ∧
      ∀ more, turns (moved.codeTurn fuel') (more + count + 1) state'
        = turns (moved.codeTurn fuel') more next' := by
  obtain ⟨cursor', lastColon', layout'⟩ := state'
  obtain ⟨rfl, rfl, hlayout, hbound⟩ := hstate
  have hlayout : LayoutMoves 0 (position - 1) 0 state.layout layout' := hlayout
  have hle := ins.le_length
  have hpos := ins.lineFeed.1
  have hlf : text.byteIs state.cursor asciiLf = true := hcursor ▸ ins.lineFeed.2
  have hlf' : moved.byteIs state.cursor asciiLf = true := by
    have hsame := ins.earlier.byteIs (Nat.zero_le _) hbound asciiLf
    rw [Nat.add_zero] at hsame
    rw [hsame]
    exact hlf
  have hnone := (codeTurn_lineFeed hlf h).1
  have hnone' : layout'.lineEnds moved state.cursor state.lastColon = none := by
    have hends : Option.Rel (LayoutMoves 0 (position - 1) 0)
        (state.layout.lineEnds text state.cursor state.lastColon)
        (layout'.lineEnds moved state.cursor state.lastColon) :=
      hlayout.lineEnds (hlf'.trans hlf.symm)
    rw [hnone] at hends
    generalize layout'.lineEnds moved state.cursor state.lastColon = ended at hends ⊢
    cases hends
    rfl
  have hvalue : ∀ position, state.cursor < position →
      SourceText.afterValue layout'.tokens.getLast? position = false := by
    intro later hlater
    have hsame := hlayout.afterValue (Nat.zero_le later)
    rw [Nat.add_zero] at hsame
    rw [hsame]
    exact hlayout.afterValue_past (by omega)
  obtain ⟨count, hcount, hturns⟩ := passes_breaks fuel' ins.admitted
    (show StandFrom moved lines (state.cursor + 1) by
      rw [hcursor, show position - 1 + 1 = position by omega]
      exact ins.stand) hlf' hnone' hvalue
  have hpassed : StateMoves position text.length (triviaBytes lines).length state
      ⟨state.cursor + (triviaBytes lines).length, state.lastColon, layout'⟩ :=
    ⟨rfl, rfl, hlayout.past (by omega) (by omega), by omega⟩
  obtain ⟨next', hturn', hnext⟩ := ins.laterCode hfuel hpassed (by omega) h
  refine ⟨count, hcount, next', hnext, fun more => ?_⟩
  rw [Nat.add_right_comm]
  exact (hturns (more + 1)).trans (turns_again hturn' more)

/-- Code that starts before the insertion. -/
theorem earlierTurns {fuel fuel' inner inner' : Nat} {state state' : CodeState}
    {ended : Nat × Layout} (hfuel : fuel + 2 * lines.length ≤ fuel') (hinner : inner ≤ inner')
    (hbetween : BetweenLines text inner position) (hreached : CodeReached text inner state)
    (hstate : StateMoves 0 (position - 1) 0 state state')
    (h : turns (text.codeTurn inner) fuel state = .ok ended) :
    ∃ ended', turns (moved.codeTurn inner') fuel' state' = .ok ended' ∧
      EndMoves text lines position ended ended' := by
  have hpos := ins.lineFeed.1
  refine turns_cross
    (R := fun state state' => CodeReached text inner state ∧
      StateMoves 0 (position - 1) 0 state state')
    (S := fun state state' =>
      StateMoves position text.length (triviaBytes lines).length state state' ∧
        position - 1 ≤ state.cursor)
    (Q := EndMoves text lines position ended) ?_ ?_ ?_ ?_ hfuel ⟨hreached, hstate⟩ h
  · rintro state state' next fuel ⟨hreached, hstate⟩ hturn -
    have hbound := hstate.bound
    by_cases hcrosses : text.byteIs state.cursor asciiLf = true ∧ state.cursor = position - 1
    · exact .inr (ins.crossing hinner hstate hcrosses.2 hturn)
    · refine .inl ?_
      have hcontinues : text.byteIs state.cursor asciiLf = true →
          state.cursor < position - 1 ∧ next.cursor ≤ position - 1 := by
        intro hlf
        have hlt : state.cursor ≠ position - 1 := fun heq => hcrosses ⟨hlf, heq⟩
        obtain ⟨hnone, hstarted⟩ := codeTurn_lineFeed hlf hturn
        have hmargin := (ins.earlier.linePrefix_margin (Nat.zero_le (state.cursor + 1))
          (by omega)).stop
        have hnext := hbetween.startLine_lt (.continued hreached hlf hnone) (by omega) hstarted
        omega
      obtain ⟨next', hturn', hnext⟩ := ins.earlier.codeTurn hinner
        (fun cursor _ _ => Nat.zero_le cursor) (Nat.zero_le _) hstate hturn hcontinues
      obtain ⟨line, layout, opened, start, hline, hopened, hstart, hreaches⟩ := hreached
      exact ⟨next', hturn', ⟨line, layout, opened, start, hline, hopened, hstart,
        hreaches.tail hturn⟩, hnext⟩
  · rintro state state' ⟨-, hstate⟩ hturn
    obtain ⟨cursor, layout⟩ := ended
    have hbound := hstate.bound
    have hends : cursor = state.cursor ∧ ∃ ended', moved.codeTurn inner' state'
        = .ok (.done (cursor, ended')) ∧ LayoutMoves 0 (position - 1) 0 layout ended' :=
      ins.earlier.codeTurn_ends (Nat.zero_le _) hstate hturn
    obtain ⟨rfl, ended', hturn', hmoves⟩ := hends
    exact ⟨_, hturn', .earlier (by omega) hmoves⟩
  · exact fun _ _ _ _ hstate hturn _ => ins.laterCode hinner hstate.1 hstate.2 hturn
  · exact fun _ _ hstate hturn => ins.laterCode_ends hstate.1 hstate.2 hturn

/-! ## Lines -/

theorem length_moved : moved.length = text.length + (triviaBytes lines).length :=
  ((ins.later.ends text.length (by have := ins.le_length; omega) (Nat.le_refl _)).mpr rfl).symm

theorem nextLine {fuel fuel' : Nat} {state : CodeState} {ended ended' : Nat × Layout}
    {line : CodeLine} (hfuel : fuel + 2 * lines.length ≤ fuel')
    (hbetween : BetweenLines text fuel position) (hreached : CodeReached text fuel state)
    (hturn : text.codeTurn fuel state = .ok (.done ended))
    (hends : EndMoves text lines position ended ended')
    (h : text.nextCodeLine fuel (min (ended.1 + 1) text.length) = .ok line) :
    ∃ line', moved.nextCodeLine fuel' (min (ended'.1 + 1) moved.length) = .ok line' ∧
      LinesMove text lines position
        (line, ended.2.emit [.readyToken
          (text.symbol .newline ended.1 (min (ended.1 + 1) text.length))])
        (line', ended'.2.emit [.readyToken
          (moved.symbol .newline ended'.1 (min (ended'.1 + 1) moved.length))]) := by
  have hlength := ins.length_moved
  have hle := ins.le_length
  cases hends with
  | @earlier cursor layout layout' hcursor hlayout =>
    have hnext : min (cursor + 1) text.length = cursor + 1 := by omega
    have hnext' : min (cursor + 1) moved.length = cursor + 1 := by omega
    simp only [hnext, hnext'] at h ⊢
    have hlooked : ∀ margin, Reaches (text.codeLineTurn fuel) (text.linePrefix (cursor + 1)) margin →
        LookedAt text fuel margin := fun margin hreaches =>
      ⟨cursor + 1, hreaches, .inr ⟨state, cursor, layout, hreached, hturn, hnext.symm⟩⟩
    obtain ⟨line', hline', hmoves⟩ := ins.earlierCodeLine (by omega : fuel + lines.length ≤ fuel')
      (by omega : cursor + 1 ≤ position)
      (fun margin after hreaches hcolumn hfence hend =>
        hbetween.outside _ _ (.documentation (hlooked margin hreaches) hcolumn hfence hend)) h
    have hemit := hlayout.emit (.cons (.layout (text.symbol .newline cursor (cursor + 1))
      (moved.symbol .newline cursor (cursor + 1)) rfl rfl) .nil)
    refine ⟨line', hline', ?_⟩
    obtain hearlier | hlater := hmoves
    · exact .earlier hearlier hemit
    · exact .later hlater (hemit.past (by omega) (by omega))
  | @later cursor layout layout' hcursor hlayout =>
    have hnext' : min (cursor + (triviaBytes lines).length + 1) moved.length
        = min (cursor + 1) text.length + (triviaBytes lines).length := by omega
    simp only [hnext'] at h ⊢
    obtain ⟨line', hline', hmoves⟩ := ins.laterCodeLine (by omega : fuel ≤ fuel')
      (by omega : position ≤ min (cursor + 1) text.length) (Nat.min_le_right _ _) h
    exact ⟨line', hline', .later hmoves (hlayout.emit (.cons (.layout _ _ rfl rfl) .nil))⟩

theorem lineTurn {fuel fuel' : Nat} {state state' next : CodeLine × Layout}
    (hfuel : fuel + 2 * lines.length ≤ fuel') (hbetween : BetweenLines text fuel position)
    (hreached : LineReached text fuel state.1 state.2)
    (hstate : LinesMove text lines position state state')
    (h : text.lineTurn fuel state = .ok (.again next)) :
    ∃ next', moved.lineTurn fuel' state' = .ok (.again next') ∧
      LinesMove text lines position next next' := by
  obtain ⟨line, layout⟩ := state
  obtain ⟨⟨margin', level'⟩, layout'⟩ := state'
  obtain ⟨nextLine, nextLayout⟩ := next
  have hinside := lineTurn_inside h
  obtain ⟨opened, start, lineEnd, ended, hopened, hstart, hended, hnext, rfl⟩ := lineTurn_again h
  obtain ⟨last, hreaches, hlast⟩ := turns_eq_ok hended
  have hcode : CodeReached text fuel start := ⟨line, layout, opened, start, hreached, hopened,
    hstart, .refl⟩
  have hpos := ins.lineFeed.1
  have hmoved : ∃ opened' start' ended', layout'.layOut moved fuel' ⟨margin', level'⟩ = .ok opened' ∧
      margin'.stop ≠ moved.length ∧ moved.startLine fuel' margin' false opened' = .ok start' ∧
      turns (moved.codeTurn fuel') fuel' start' = .ok ended' ∧
      EndMoves text lines position (lineEnd, ended) ended' := by
    cases hstate with obtain ⟨⟨hwithin, rfl⟩, rfl⟩ := hline
    | earlier hline hlayout =>
      have hopens : ∃ opened', layout'.layOut moved fuel' ⟨line.margin, line.level⟩ = .ok opened' ∧
          LayoutMoves 0 (position - 1) 0 opened opened' := hlayout.layOut (by rfl) (by omega) hopened
      obtain ⟨opened', hopened', hlaid⟩ := hopens
      have hstop := hwithin.stop
      have hwithin' := hbetween.startLine_lt (.line hreached) (by omega) hstart
      obtain ⟨start', hstart', hmoves⟩ := ins.earlier.startLine hwithin (by omega : fuel ≤ fuel')
        hlaid hstart (by omega)
      obtain ⟨ended', hended', hends⟩ :=
        ins.earlierTurns hfuel (by omega : fuel ≤ fuel') hbetween hcode hmoves hended
      refine ⟨opened', start', ended', hopened', ?_, hstart', hended', hends⟩
      have hends := ins.earlier.ends line.margin.stop (Nat.zero_le _) hstop
      exact fun heq => hinside (hends.mp heq)
    | later hline hlayout =>
      have hopens : ∃ opened', layout'.layOut moved fuel'
          ⟨line.margin.later (triviaBytes lines).length, line.level⟩ = .ok opened' ∧
          LayoutMoves position text.length (triviaBytes lines).length opened opened' :=
        hlayout.layOut (by rfl) (by omega) hopened
      obtain ⟨opened', hopened', hlaid⟩ := hopens
      have hok := hreached.wellNested.1
      obtain ⟨more, -, hscans⟩ := (startLine_reads hok.1.line hok.1.scans.bound hstart).scans
      obtain ⟨start', hstart', hmoves⟩ := ins.later.startLine hwithin (by omega : fuel ≤ fuel')
        hlaid hstart hscans.bound
      have hstop : position - 1 ≤ line.margin.stop := Nat.le_trans hwithin.start hwithin.le
      obtain ⟨ended', hended', hends⟩ := ins.laterTurns (by omega : fuel ≤ fuel')
        (by omega : fuel ≤ fuel') hmoves (Nat.le_trans hstop hscans.le) hended
      refine ⟨opened', start', ended', hopened', ?_, hstart', hended', hends⟩
      have hends := ins.later.ends line.margin.stop hstop hwithin.stop
      exact fun heq => hinside (hends.mp heq)
  obtain ⟨opened', start', ended', hopened', hinside', hstart', hended', hends⟩ := hmoved
  have hlastReached : CodeReached text fuel last :=
    ⟨line, layout, opened, start, hreached, hopened, hstart, hreaches⟩
  obtain ⟨nextLine', hnextLine', hmoves⟩ :=
    ins.nextLine hfuel hbetween hlastReached hlast hends hnext
  exact ⟨_, lineTurn_eq hopened' hinside' hstart' hended' hnextLine', hmoves⟩

theorem lineTurn_ends {fuel fuel' : Nat} {state state' : CodeLine × Layout} {last : Layout}
    (hfuel : fuel ≤ fuel') (hstate : LinesMove text lines position state state')
    (h : text.lineTurn fuel state = .ok (.done last)) :
    ∃ last', moved.lineTurn fuel' state' = .ok (.done last') ∧
      List.Forall₂ ScannedToken.Same last.tokens last'.tokens := by
  obtain ⟨line, layout⟩ := state
  obtain ⟨⟨margin', level'⟩, layout'⟩ := state'
  obtain ⟨hopened, hend⟩ := lineTurn_done h
  have hle := ins.le_length
  have hpos := ins.lineFeed.1
  cases hstate with
  | earlier hline hlayout =>
    have hstop := hline.margin.within.stop
    simp only at hstop
    omega
  | later hline hlayout =>
    obtain ⟨⟨hwithin, rfl⟩, rfl⟩ := hline
    have hopens : ∃ last', layout'.layOut moved fuel'
        ⟨line.margin.later (triviaBytes lines).length, line.level⟩ = .ok last' ∧
        LayoutMoves position text.length (triviaBytes lines).length last last' :=
      hlayout.layOut (by rfl) hfuel hopened
    obtain ⟨last', hopened', hlaid⟩ := hopens
    have hstop : position - 1 ≤ line.margin.stop := Nat.le_trans hwithin.start hwithin.le
    have hend' : (line.margin.later (triviaBytes lines).length).stop = moved.length :=
      (ins.later.ends line.margin.stop hstop hwithin.stop).mpr hend
    refine ⟨last', ?_, hlaid.tokens.imp fun _ _ hcarries => hcarries.same⟩
    unfold SourceText.lineTurn
    simp only [hopened', Outcome.ok_bind]
    rw [if_pos hend']

end Inserted

/-! ## The whole source -/

theorem wordSpellings_same {tokens tokens' : List ScannedToken}
    (h : List.Forall₂ ScannedToken.Same tokens tokens') :
    wordSpellings tokens' = wordSpellings tokens := by
  induction h with
  | nil => rfl
  | @cons scanned scanned' rest rest' hsame _ ih =>
    unfold wordSpellings at ih ⊢
    cases scanned <;> cases scanned'
    · rw [List.filterMap_cons, List.filterMap_cons, ih]
      simp [show _ = _ from hsame]
    · exact hsame.elim
    · exact hsame.elim
    · exact ih

variable {text : SourceText}

theorem lexedTokens_same (moved : SourceText) {ids : List Nat}
    {scanned scanned' : List ScannedToken} (h : List.Forall₂ ScannedToken.Same scanned scanned') :
    ∀ {state state' result : List Token × Nat}, state'.2 = state.2 →
      state'.1.map (·.kind) = state.1.map (·.kind) →
      scanned.foldlM (lexedToken text ids) state = .ok result →
      ∃ result', scanned'.foldlM (lexedToken moved ids) state' = .ok result' ∧
        result'.1.map (·.kind) = result.1.map (·.kind) := by
  induction h with
  | nil =>
    intro state state' result _ hkinds hresult
    cases hresult
    exact ⟨state', rfl, hkinds⟩
  | @cons token token' rest rest' hsame _ ih =>
    intro state state' result hwords hkinds hresult
    obtain ⟨next, hnext, hresult⟩ := Except.peel hresult
    have hstep : ∃ next', lexedToken moved ids state' token' = .ok next' ∧ next'.2 = next.2 ∧
        next'.1.map (·.kind) = next.1.map (·.kind) := by
      cases token <;> cases token'
      · unfold lexedToken at hnext ⊢
        simp only [hwords] at hnext ⊢
        split at hnext
        · cases hnext
          refine ⟨_, rfl, rfl, ?_⟩
          rw [List.map_append, List.map_append, hkinds]
          rfl
        · cases hnext
      · exact hsame.elim
      · exact hsame.elim
      · rename_i ready ready'
        have hkind : ready'.kind = ready.kind := hsame
        cases hnext
        refine ⟨_, rfl, hwords, ?_⟩
        rw [List.map_append, List.map_append, hkinds, List.map_singleton, List.map_singleton, hkind]
    obtain ⟨next', hnext', hwords', hkinds'⟩ := hstep
    obtain ⟨result', hresult', hall⟩ := ih hwords' hkinds' hresult
    exact ⟨result', Except.bind_eq_ok.mpr ⟨next', hnext', hresult'⟩, hall⟩

theorem Inserted.tokens {moved : SourceText} {lines : List TriviaLine} {position : Nat}
    (ins : Inserted text moved lines position) {fuel fuel' : Nat} {first : CodeLine} {last : Layout}
    (hfuel : fuel + 2 * lines.length ≤ fuel') (hbetween : BetweenLines text fuel position)
    (hfirst : text.nextCodeLine fuel 0 = .ok first)
    (hlast : turns (text.lineTurn fuel) fuel (first, emptyLayout) = .ok last) :
    ∃ first' last', moved.nextCodeLine fuel' 0 = .ok first' ∧
      turns (moved.lineTurn fuel') fuel' (first', emptyLayout) = .ok last' ∧
      List.Forall₂ ScannedToken.Same last.tokens last'.tokens := by
  obtain ⟨first', hfirst', hmoves⟩ := ins.earlierCodeLine (by omega : fuel + lines.length ≤ fuel')
    (Nat.zero_le position) (fun margin after hreaches hcolumn hfence hend =>
      hbetween.outside _ _ (.documentation ⟨0, hreaches, .inl rfl⟩ hcolumn hfence hend)) hfirst
  have hempty : ∀ from_ last shift, LayoutMoves from_ last shift emptyLayout emptyLayout :=
    fun _ _ _ => ⟨.nil, rfl, rfl, rfl⟩
  have hstart : LinesMove text lines position (first, emptyLayout) (first', emptyLayout) := by
    obtain hearlier | hlater := hmoves
    · exact .earlier hearlier (hempty ..)
    · exact .later hlater (hempty ..)
  have hlines := turns_follow
    (R := fun state state' => LineReached text fuel state.1 state.2 ∧
      LinesMove text lines position state state')
    (Q := fun last' : Layout => List.Forall₂ ScannedToken.Same last.tokens last'.tokens)
    (fun state state' next _ hstate hturn _ => by
      obtain ⟨next', hturn', hnext⟩ := ins.lineTurn hfuel hbetween hstate.1 hstate.2 hturn
      obtain ⟨found, hfound, hreaches⟩ := hstate.1
      exact ⟨next', hturn', ⟨found, hfound, hreaches.tail hturn⟩, hnext⟩)
    (fun state state' hstate hturn => ins.lineTurn_ends (by omega : fuel ≤ fuel') hstate.2 hturn)
    (by omega : fuel ≤ fuel') ⟨⟨first, hfirst, .refl⟩, hstart⟩ hlast
  obtain ⟨last', hlast', hsame⟩ := hlines
  exact ⟨first', last', hfirst', hlast', hsame⟩

/-- **Trivia lines are invisible.**  Blank and comment-only lines of any indentation,
inserted between two lines of a lexed source and outside its string and documentation
blocks, leave it lexed, with the same sequence of token kinds. -/
theorem lex_ignores_trivia (fuel origin : Nat) (names : NameTable) (before after : Bytes)
    (program : LexedProgram) (lines : List TriviaLine) (hne : lines ≠ [])
    (hlines : ∀ line ∈ lines, line.Admitted)
    (hbetween : BetweenLines ⟨origin, before ++ after⟩ fuel before.length)
    (h : lex fuel origin (before ++ after) names = .ok program) :
    ∀ fuel', fuel + 2 * lines.length ≤ fuel' →
      ∃ program', lex fuel' origin (before ++ triviaBytes lines ++ after) names = .ok program' ∧
        program'.tokens.map (·.kind) = program.tokens.map (·.kind) := by
  intro fuel' hfuel
  unfold lex at h
  obtain ⟨first, hfirst, h⟩ := Outcome.peel h
  obtain ⟨last, hlast, h⟩ := Outcome.peel h
  obtain ⟨⟨tokens, words⟩, htokens, h⟩ := Outcome.peel h
  cases h
  have ins : Inserted ⟨origin, before ++ after⟩ ⟨origin, before ++ triviaBytes lines ++ after⟩ lines
      before.length := inserted hlines hne hbetween.lineFeed
  obtain ⟨first', last', hfirst', hlast', hsame⟩ := ins.tokens hfuel hbetween hfirst hlast
  obtain ⟨⟨tokens', words'⟩, htokens', hkinds⟩ :=
    lexedTokens_same ⟨origin, before ++ triviaBytes lines ++ after⟩ hsame
      (rfl : (([], 0) : List Token × Nat).2 = 0) rfl (Outcome.liftM_eq_ok.mp htokens)
  have hwords := wordSpellings_same hsame
  unfold lex
  simp only [hfirst', hlast', hwords, Outcome.ok_bind]
  unfold lexedTokens
  rw [htokens']
  exact ⟨_, rfl, hkinds⟩

/-! ## Sources without blocks -/

theorem BetweenLines.plain {fuel position : Nat}
    (hlf : 0 < position ∧ text.byteIs (position - 1) asciiLf = true)
    (hplain : ∀ byte ∈ text.bytes, byte ≠ 124 ∧ byte ≠ 45) : BetweenLines text fuel position := by
  have hnot : ∀ (x : Nat) (byte : UInt8), text.byteIs x byte.toNat = true → byte ∈ text.bytes := by
    intro x byte hbyte
    obtain ⟨found, hfound, heq⟩ := Option.map_eq_some_iff.mp (SourceText.byteIs_iff.mp hbyte)
    rw [UInt8.toNat_inj.mp heq] at hfound
    exact List.mem_of_getElem? hfound
  have hbar : ∀ x, ¬ text.byteIs x asciiBar = true :=
    fun x hbyte => (hplain 124 (hnot x 124 hbyte)).1 rfl
  refine ⟨hlf, fun start stop hblock => ?_⟩
  exfalso
  cases hblock with
  | @string margin code _ hcode =>
    unfold SourceText.lineCode at hcode
    rw [if_neg (hbar _)] at hcode
    split at hcode
    · rename_i markerLine hmarker
      exact hbar _ (SourceText.rawBlockMarkerLine_spec hmarker).2
    · cases hcode
  | documentation _ _ hfence _ =>
    unfold SourceText.fenceAt at hfence
    simp only [Bool.and_eq_true] at hfence
    exact (hplain 45 (hnot _ 45 hfence.1.1.1)).2 rfl

/-- A blank line and a comment left of the block, inserted into `bracketedBlock`. -/
theorem lex_ignores_trivia_bracketedBlock :
    ∃ program, lex 30 0 bracketedBlock ⟨[]⟩ = .ok program ∧ ∀ fuel, 34 ≤ fuel →
      ∃ program', lex fuel 0 ([102, 40, 120, 58, 10] ++ [10, 32, 45, 45, 32, 99, 10] ++
          [32, 32, 32, 32, 97, 41, 10]) ⟨[]⟩ = .ok program' ∧
        program'.tokens.map (·.kind) = program.tokens.map (·.kind) := by
  have hok : (match lex 30 0 bracketedBlock ⟨[]⟩ with
    | .ok _ => true
    | _ => false) = true := by decide +kernel
  have hadmitted : ∀ line ∈ [TriviaLine.mk [] none, ⟨[32], some [32, 99]⟩], line.Admitted := by
    intro line hline
    rcases List.mem_pair.mp hline with rfl | rfl
    · exact ⟨by simp, by simp, by simp⟩
    · refine ⟨by simp, fun comment hcomment => ?_, by simp⟩
      cases hcomment
      decide +kernel
  cases h : lex 30 0 bracketedBlock ⟨[]⟩ with
  | ok program =>
    exact ⟨program, rfl, lex_ignores_trivia 30 0 ⟨[]⟩ [102, 40, 120, 58, 10]
      [32, 32, 32, 32, 97, 41, 10] program _ (List.cons_ne_nil _ _) hadmitted
      (.plain ⟨by decide, by decide⟩ (by decide +kernel)) h⟩
  | err error =>
    rw [h] at hok
    cases hok
  | timeout =>
    rw [h] at hok
    cases hok

/-- Not every comment-only line may be inserted: a comment holds ASCII bytes only, and
three dashes alone at column 1 open a documentation block. -/
theorem comment_line_rejected : BetweenLines ⟨0, [97, 10] ++ [98, 10]⟩ 10 2 ∧
      (∃ program, lex 10 0 ([97, 10] ++ [98, 10]) ⟨[]⟩ = .ok program) ∧
      (∃ error, lex 10 0 ([97, 10] ++ [45, 45, 32, 195, 169, 10] ++ [98, 10]) ⟨[]⟩ = .err error) ∧
      ∃ error, lex 10 0 ([97, 10] ++ [45, 45, 45, 10] ++ [98, 10]) ⟨[]⟩ = .err error := by
  refine ⟨.plain ⟨by decide, by decide⟩ (by decide +kernel), ⟨_, rfl⟩, ⟨_, rfl⟩, ⟨_, rfl⟩⟩

end Blorp.Lex
