import Blorp.Lex.Coverage
import Blorp.Lib.Nested

/-!
# Layout tokens are well nested

At every turn of the lexer the open levels increase from 0, each open bracketed block
starts at one of them, inner blocks no shallower than outer ones, and as many Indents as
there are levels above 0 are open in the tokens.
-/

namespace Blorp.Lex

open Fuel
open SourceText (LinePrefix CodeLine)

variable {text : SourceText}

def isIndent (kind : TokenKind) : Bool := kind == .symbolToken .indent

def isDedent (kind : TokenKind) : Bool := kind == .symbolToken .dedent

namespace ScannedToken

def isIndent : ScannedToken → Bool
  | .wordToken .. => false
  | .readyToken ready => Lex.isIndent ready.kind

def isDedent : ScannedToken → Bool
  | .wordToken .. => false
  | .readyToken ready => Lex.isDedent ready.kind

theorem code_plain {scanned : ScannedToken} (h : scanned.isIndentation = false) :
    scanned.isIndent = false ∧ scanned.isDedent = false := by
  cases scanned with
  | wordToken => exact ⟨rfl, rfl⟩
  | readyToken ready =>
    have hkind : Lex.isIndentation ready.kind = false := h
    constructor
    all_goals
      show (ready.kind == _) = false
      rw [beq_eq_false_iff_ne]
      intro heq
      rw [heq] at hkind
      cases hkind

end ScannedToken

/-! ## The invariant -/

/-- The open levels increase from 0, and each above 0 is an Indent not yet closed. -/
structure Stacked (layout : Layout) : Prop where
  bottom : layout.levels.head? = some 0
  increasing : layout.levels.Pairwise (· < ·)
  nested : layout.tokens.Nested ScannedToken.isIndent ScannedToken.isDedent
    (layout.levels.length - 1)

/-- Each open bracketed block starts at an open level, inner blocks no shallower than
outer ones. -/
structure WellNested (layout : Layout) : Prop extends Stacked layout where
  bases : ∀ block ∈ layout.bodies, block.base ∈ layout.levels
  ordered : layout.bodies.Pairwise fun outer inner => outer.base ≤ inner.base

theorem Stacked.ne_nil {layout : Layout} (h : Stacked layout) : layout.levels ≠ [] := by
  intro hnil
  have := h.bottom
  rw [hnil] at this
  cases this

variable {levels : List Nat} {line : CodeLine} {margin : LinePrefix} {target fuel : Nat}
variable {next : Layout} {state : CodeState}

theorem topLevel_mem (h : levels ≠ []) : topLevel levels ∈ levels := by
  unfold topLevel
  rw [List.getLast?_eq_getLast_of_ne_nil h]
  exact List.getLast_mem h

theorem le_topLevel (h : levels.Pairwise (· < ·)) {level : Nat} (hmem : level ∈ levels) :
    level ≤ topLevel levels := by
  induction levels using List.reverseRecOn with
  | nil => cases hmem
  | append_singleton levels last _ =>
    have htop : topLevel (levels ++ [last]) = last := by simp [topLevel]
    rw [htop]
    rcases List.mem_append.mp hmem with hearlier | hlast
    · exact Nat.le_of_lt ((List.pairwise_append.mp h).2.2 level hearlier last (by simp))
    · exact Nat.le_of_eq (List.mem_singleton.mp hlast)

/-! ## Laying out a line -/

theorem Stacked.indent {layout : Layout} (h : Stacked layout)
    (hdeeper : topLevel layout.levels < line.level) : Stacked (layout.indent text line) := by
  obtain ⟨bottom, rest, hlevels⟩ := List.exists_cons_of_ne_nil h.ne_nil
  refine ⟨?_, ?_, ?_⟩
  · show (layout.levels ++ [line.level]).head? = some 0
    have hbottom := h.bottom
    rw [hlevels] at hbottom ⊢
    exact hbottom
  · show (layout.levels ++ [line.level]).Pairwise (· < ·)
    refine List.pairwise_append.mpr ⟨h.increasing, List.pairwise_singleton .., ?_⟩
    intro level hlevel new hnew
    rw [List.mem_singleton.mp hnew]
    exact Nat.lt_of_le_of_lt (le_topLevel h.increasing hlevel) hdeeper
  · show (layout.tokens ++ [_]).Nested _ _ ((layout.levels ++ [line.level]).length - 1)
    have hdepth : (layout.levels ++ [line.level]).length - 1 = layout.levels.length - 1 + 1 := by
      rw [hlevels]
      simp
    rw [hdepth]
    exact h.nested.opener rfl rfl

theorem Stacked.dedent {layout : Layout} (h : Stacked layout) (hopen : 0 < topLevel layout.levels) :
    Stacked (layout.dedent text margin) := by
  obtain ⟨bottom, rest, hlevels⟩ := List.exists_cons_of_ne_nil h.ne_nil
  have hbottom : bottom = 0 := by
    have := h.bottom
    rw [hlevels] at this
    exact Option.some.inj this
  cases rest with
  | nil =>
    rw [hlevels, hbottom] at hopen
    simp [topLevel] at hopen
  | cons second rest =>
    refine ⟨?_, ?_, ?_⟩
    · show layout.levels.dropLast.head? = some 0
      rw [hlevels, hbottom]
      rfl
    · show layout.levels.dropLast.Pairwise (· < ·)
      exact h.increasing.sublist (List.dropLast_sublist _)
    · show (layout.tokens ++ [_]).Nested _ _ (layout.levels.dropLast.length - 1)
      have hdepth : layout.levels.length - 1 = layout.levels.dropLast.length - 1 + 1 := by
        rw [hlevels]
        simp
      exact (hdepth ▸ h.nested).closer rfl rfl

theorem mem_dropLast_of_le {level : Nat} (hdeeper : target < topLevel levels)
    (hmem : level ∈ levels) (hle : level ≤ target) : level ∈ levels.dropLast := by
  induction levels using List.reverseRecOn with
  | nil => cases hmem
  | append_singleton levels last _ =>
    have htop : topLevel (levels ++ [last]) = last := by simp [topLevel]
    rw [htop] at hdeeper
    rw [List.dropLast_concat]
    rcases List.mem_append.mp hmem with hearlier | hlast
    · exact hearlier
    · have := List.mem_singleton.mp hlast
      omega

/-- One turn of the loop that closes levels above a target. -/
def Dedents (text : SourceText) (margin : LinePrefix) (target : Nat) (layout next : Layout) : Prop :=
  target < topLevel layout.levels ∧ next = layout.dedent text margin

theorem dedents_stacked {layout state : Layout} (hlayout : Stacked layout)
    (h : Relation.ReflTransGen (Dedents text margin target) layout state) :
    Stacked state ∧ state.bodies = layout.bodies ∧
      ∀ level ∈ layout.levels, level ≤ target → level ∈ state.levels := by
  induction h with
  | refl => exact ⟨hlayout, rfl, fun _ hlevel _ => hlevel⟩
  | tail _ hturn ih =>
    obtain ⟨hdeeper, rfl⟩ := hturn
    obtain ⟨hstacked, hbodies, hkept⟩ := ih
    refine ⟨hstacked.dedent (by omega), hbodies, fun level hlevel hle => ?_⟩
    exact mem_dropLast_of_le hdeeper (hkept level hlevel hle) hle

theorem repeatWhile_dedents : ∀ {fuel : Nat} {layout closed : Layout},
      repeatWhile (ε := Diagnostic) (fun state : Layout => topLevel state.levels > target)
        (fun state => .ok (state.dedent text margin)) fuel layout = .ok closed →
      Relation.ReflTransGen (Dedents text margin target) layout closed := by
  intro fuel
  induction fuel with intro layout closed h
  | zero => cases h
  | succ fuel ih =>
    unfold repeatWhile at h
    split at h
    · rename_i hdeeper
      exact .head ⟨of_decide_eq_true hdeeper, rfl⟩ (ih h)
    · cases h
      exact .refl

theorem layOut_wellNested {layout : Layout} (hlayout : WellNested layout)
    (h : layout.layOut text fuel line = .ok next) : WellNested next := by
  unfold Layout.layOut at h
  split at h
  · rename_i hdeeper
    cases h
    refine ⟨hlayout.toStacked.indent hdeeper, fun block hblock => ?_, hlayout.ordered⟩
    exact List.mem_append_left _ (hlayout.bases block hblock)
  split at h
  · obtain ⟨closed, hclosed, h⟩ := Outcome.peel h
    obtain ⟨hstacked, hbodies, hkept⟩ :=
      dedents_stacked hlayout.toStacked (repeatWhile_dedents hclosed)
    split at h
    · cases h
    · cases h
      refine ⟨⟨hstacked.bottom, hstacked.increasing, hstacked.nested⟩, fun block hblock => ?_, ?_⟩
      · obtain ⟨hin, hbelow⟩ := List.mem_filter.mp hblock
        rw [hbodies] at hin
        exact hkept block.base (hlayout.bases block hin)
          (Nat.le_of_lt (of_decide_eq_true hbelow))
      · show (closed.bodies.filter _).Pairwise _
        rw [hbodies]
        exact hlayout.ordered.sublist List.filter_sublist
  · cases h
    exact hlayout

theorem layOut_closed {layout : Layout} (hlayout : WellNested layout) (hline : line.level = 0)
    (h : layout.layOut text fuel line = .ok next) : next.levels = [0] := by
  have hnext := layOut_wellNested hlayout h
  have htop : topLevel next.levels = 0 := by
    unfold Layout.layOut at h
    split at h
    · omega
    split at h
    · obtain ⟨closed, -, h⟩ := Outcome.peel h
      split at h
      · cases h
      · rename_i htarget
        cases h
        have htarget : topLevel closed.levels = layout.target line := by simpa using htarget
        show topLevel closed.levels = 0
        rw [htarget]
        unfold Layout.target closesBracketedBlock
        -- No block's base is below level 0.
        split
        · exact hline
        · rw [if_neg (by omega)]
          exact hline
    · cases h
      omega
  obtain ⟨bottom, rest, hlevels⟩ := List.exists_cons_of_ne_nil hnext.ne_nil
  have hbottom : bottom = 0 := by
    have := hnext.bottom
    rw [hlevels] at this
    exact Option.some.inj this
  cases rest with
  | nil => rw [hlevels, hbottom]
  | cons second rest =>
    have hsecond : second ≤ topLevel next.levels :=
      le_topLevel hnext.increasing (by rw [hlevels]; simp)
    have hincreasing := hnext.increasing
    rw [hlevels] at hincreasing
    have := (List.pairwise_cons.mp hincreasing).1 second List.mem_cons_self
    omega

/-! ## A code line -/

theorem ReadsOn.wellNested {layout : Layout} {a b : Nat} (h : ReadsOn text layout a next b)
    (hlayout : WellNested layout) : WellNested next := by
  obtain ⟨more, htokens, hmore⟩ := h.scans
  refine ⟨⟨?_, ?_, ?_⟩, ?_, ?_⟩
  · rw [h.levels]
    exact hlayout.bottom
  · rw [h.levels]
    exact hlayout.increasing
  · rw [h.levels, htokens]
    exact hlayout.nested.append fun scanned hscanned =>
      ScannedToken.code_plain (hmore.code scanned hscanned)
  · rw [h.levels, h.bodies]
    exact hlayout.bases
  · rw [h.bodies]
    exact hlayout.ordered

theorem lineEnds_wellNested {cursor : Nat} {lastColon : Bool} {layout ended : Layout}
    (hlayout : WellNested layout) (h : layout.lineEnds text cursor lastColon = some ended) :
    WellNested ended := by
  unfold Layout.lineEnds at h
  split at h
  · cases h
  split at h
  · cases h
    exact hlayout
  split at h
  · -- A new innermost block, at the innermost level.
    cases h
    have hlevels := hlayout.ne_nil
    refine ⟨⟨hlayout.bottom, hlayout.increasing, hlayout.nested⟩, fun block hblock => ?_, ?_⟩
    · rcases List.mem_append.mp hblock with hearlier | hlast
      · exact hlayout.bases block hearlier
      · rw [List.mem_singleton.mp hlast]
        exact topLevel_mem hlevels
    · refine List.pairwise_append.mpr ⟨hlayout.ordered, List.pairwise_singleton .., ?_⟩
      intro outer houter inner hinner
      rw [List.mem_singleton.mp hinner]
      exact le_topLevel hlayout.increasing (hlayout.bases outer houter)
  split at h
  · cases h
  · cases h
    exact hlayout

/-! ## The whole source -/

/-- The code lines the lexer comes to, with the layout before each. -/
def LineReached (text : SourceText) (fuel : Nat) (line : CodeLine) (layout : Layout) : Prop :=
  ∃ first, text.nextCodeLine fuel 0 = .ok first ∧
    Reaches (text.lineTurn fuel) (first, emptyLayout) (line, layout)

/-- The turns of the lexer on its code lines. -/
def CodeReached (text : SourceText) (fuel : Nat) (state : CodeState) : Prop :=
  ∃ line layout opened start, LineReached text fuel line layout ∧
    layout.layOut text fuel line = .ok opened ∧
    text.startLine fuel line.margin false opened = .ok start ∧
    Reaches (text.codeTurn fuel) start state

/-- The layouts of a run: before and after a line is laid out, at each turn on a code
line, and where the line ends. -/
inductive Visited (text : SourceText) (fuel : Nat) : Layout → Prop
  | line {line : CodeLine} {layout : Layout} : LineReached text fuel line layout →
      Visited text fuel layout
  | laidOut {line : CodeLine} {layout opened : Layout} : LineReached text fuel line layout →
      layout.layOut text fuel line = .ok opened → Visited text fuel opened
  | code {state : CodeState} : CodeReached text fuel state → Visited text fuel state.layout
  | ended {state : CodeState} {cursor : Nat} {layout : Layout} : CodeReached text fuel state →
      text.codeTurn fuel state = .ok (.done (cursor, layout)) → Visited text fuel layout

theorem emptyLayout_wellNested : WellNested emptyLayout := by
  refine ⟨⟨rfl, List.pairwise_singleton .., .nil⟩, fun block hblock => ?_, .nil⟩
  cases hblock

theorem code_wellNested {layout opened : Layout} {start : CodeState}
    (hline : LineOk text (line, layout)) (hlayout : WellNested layout)
    (hopened : layout.layOut text fuel line = .ok opened)
    (hstart : text.startLine fuel line.margin false opened = .ok start)
    (hreaches : Reaches (text.codeTurn fuel) start state) : WellNested state.layout := by
  have hopen : WellNested start.layout :=
    (startLine_reads hline.1.line hline.1.scans.bound hstart).wellNested (layOut_wellNested hlayout hopened)
  have hall := hreaches.keeps
    (I := fun state => Scans text 0 (codeTokens state.layout.tokens) state.cursor ∧
      WellNested state.layout)
    (fun state next hstate hturn =>
      have hreads := codeTurn_reads hstate.1.bound hturn
      ⟨hreads.append hstate.1, hreads.wellNested hstate.2⟩)
    ⟨hline.start hopened hstart, hopen⟩
  exact hall.2

theorem codeTurn_done_wellNested {cursor : Nat} {ended : Layout} (hstate : WellNested state.layout)
    (h : text.codeTurn fuel state = .ok (.done (cursor, ended))) : WellNested ended := by
  obtain ⟨-, ⟨-, rfl⟩ | hends⟩ := codeTurn_done h
  · exact hstate
  · exact lineEnds_wellNested hstate hends

theorem lineTurn_wellNested {state next : CodeLine × Layout}
    (hstate : LineOk text state ∧ WellNested state.2)
    (h : text.lineTurn fuel state = .ok (.again next)) : LineOk text next ∧ WellNested next.2 := by
  refine ⟨lineTurn_ok hstate.1 h, ?_⟩
  obtain ⟨line, layout⟩ := state
  obtain ⟨opened, start, lineEnd, ended, hopened, hstart, hended, -, hnext⟩ := lineTurn_again h
  obtain ⟨state, hreaches, hturn⟩ := turns_eq_ok hended
  have hscans := Reaches.scans (hstate.1.start hopened hstart) hreaches
  have hstate' := code_wellNested hstate.1 hstate.2 hopened hstart hreaches
  obtain ⟨hcursor, -⟩ := codeTurn_done hturn
  have hbound : lineEnd ≤ text.length := hcursor ▸ hscans.bound
  rw [hnext]
  exact (ReadsOn.emit ended (.token (by omega) (by omega) rfl)).wellNested
    (codeTurn_done_wellNested hstate' hturn)

theorem LineReached.wellNested {layout : Layout} (h : LineReached text fuel line layout) :
    LineOk text (line, layout) ∧ WellNested layout := by
  obtain ⟨first, hfirst, hreaches⟩ := h
  refine hreaches.keeps (I := fun state => LineOk text state ∧ WellNested state.2)
    (fun _ _ hstate hturn => lineTurn_wellNested hstate hturn) ⟨?_, emptyLayout_wellNested⟩
  exact SourceText.nextCodeLine_found (.nil (Nat.zero_le _)) (.inl rfl) rfl hfirst

theorem CodeReached.wellNested (h : CodeReached text fuel state) :
    Scans text 0 (codeTokens state.layout.tokens) state.cursor ∧ WellNested state.layout := by
  obtain ⟨line, layout, opened, start, hline, hopened, hstart, hreaches⟩ := h
  obtain ⟨hok, hlayout⟩ := hline.wellNested
  exact ⟨Reaches.scans (hok.start hopened hstart) hreaches,
    code_wellNested hok hlayout hopened hstart hreaches⟩

theorem nextCodeLine_level {a : Nat} (h : text.nextCodeLine fuel a = .ok line)
    (hend : line.margin.stop = text.length) : line.level = 0 := by
  unfold SourceText.nextCodeLine at h
  obtain ⟨margin, -, h⟩ := Outcome.peel h
  split at h
  · cases h
    rfl
  · rename_i hinside
    obtain ⟨level, -, h⟩ := Outcome.peel h
    cases h
    exact absurd hend hinside

theorem LineReached.level {layout : Layout} (h : LineReached text fuel line layout)
    (hend : line.margin.stop = text.length) : line.level = 0 := by
  obtain ⟨first, hfirst, hreaches⟩ := h
  have hfound : ∃ a, text.nextCodeLine fuel a = .ok line :=
    hreaches.keeps (I := fun state => ∃ a, text.nextCodeLine fuel a = .ok state.1)
      (fun _ _ _ hturn => by
        obtain ⟨_, _, lineEnd, _, _, _, _, hnext, _⟩ := lineTurn_again hturn
        exact ⟨_, hnext⟩) ⟨0, hfirst⟩
  obtain ⟨a, hfound⟩ := hfound
  exact nextCodeLine_level hfound hend

theorem Named.layout {scanned : ScannedToken} {token : Token} (h : Named scanned token) :
    isIndent token.kind = scanned.isIndent ∧ isDedent token.kind = scanned.isDedent := by
  cases scanned with
  | wordToken =>
    obtain ⟨id, hkind⟩ := h.kind
    rw [hkind]
    exact ⟨rfl, rfl⟩
  | readyToken ready => exact ⟨congrArg isIndent h.kind, congrArg isDedent h.kind⟩

/-- **Layout tokens are well nested.**  Throughout a run the open levels increase from 0,
also while levels close; every open block starts at an open level, inner blocks no
shallower than outer ones; code on a line, its closing brackets included, closes no level
and no block; and the tokens of a lexed source close each Indent by a later Dedent. -/
theorem lex_nests (origin : Nat) (source : Bytes) :
    (∀ fuel layout, Visited ⟨origin, source⟩ fuel layout → WellNested layout) ∧
    (∀ fuel line layout state, LineReached ⟨origin, source⟩ fuel line layout →
      Relation.ReflTransGen (Dedents ⟨origin, source⟩ line.margin (layout.target line)) layout
        state → Stacked state) ∧
    (∀ fuel state next, CodeReached ⟨origin, source⟩ fuel state →
      SourceText.codeTurn ⟨origin, source⟩ fuel state = .ok (.again next) →
      next.layout.levels = state.layout.levels ∧ next.layout.bodies = state.layout.bodies) ∧
    ∀ fuel names program, lex fuel origin source names = .ok program →
      (program.tokens.map (·.kind)).Nested isIndent isDedent 0 := by
  refine ⟨?_, ?_, ?_, ?_⟩
  · intro fuel layout hvisited
    cases hvisited with
    | line hline => exact hline.wellNested.2
    | laidOut hline hopened => exact layOut_wellNested hline.wellNested.2 hopened
    | code hcode => exact hcode.wellNested.2
    | ended hcode hturn => exact codeTurn_done_wellNested hcode.wellNested.2 hturn
  · intro fuel line layout state hline hdedents
    exact (dedents_stacked hline.wellNested.2.toStacked hdedents).1
  · intro fuel state next hcode hturn
    have hreads := codeTurn_reads hcode.wellNested.1.bound hturn
    exact ⟨hreads.levels, hreads.bodies⟩
  · intro fuel names program h
    unfold lex at h
    obtain ⟨first, hfirst, h⟩ := Outcome.peel h
    obtain ⟨last, hlast, h⟩ := Outcome.peel h
    obtain ⟨⟨tokens, words⟩, htokens, h⟩ := Outcome.peel h
    cases h
    obtain ⟨⟨line, layout⟩, hreaches, hturn⟩ := turns_eq_ok hlast
    have hline : LineReached ⟨origin, source⟩ fuel line layout := ⟨first, hfirst, hreaches⟩
    obtain ⟨hopened, hend⟩ := lineTurn_done hturn
    have hnested := (layOut_wellNested hline.wellNested.2 hopened).nested
    rw [layOut_closed hline.wellNested.2 (hline.level hend) hopened] at hnested
    refine hnested.congr ?_
    rw [List.forall₂_map_right_iff]
    exact (lexedTokens_named (Outcome.liftM_eq_ok.mp htokens)).imp fun _ _ hnamed => hnamed.layout

/-- The tokens of `bracketedBlock` nest. -/
theorem lex_nests_bracketedBlock : ∃ program, lex 30 0 bracketedBlock ⟨[]⟩ = .ok program ∧
      (program.tokens.map (·.kind)).Nested isIndent isDedent 0 := by
  have hok : (match lex 30 0 bracketedBlock ⟨[]⟩ with
    | .ok _ => true
    | _ => false) = true := by decide +kernel
  cases h : lex 30 0 bracketedBlock ⟨[]⟩ with
  | ok program => exact ⟨program, rfl, (lex_nests 0 bracketedBlock).2.2.2 30 ⟨[]⟩ program h⟩
  | err error =>
    rw [h] at hok
    cases hok
  | timeout =>
    rw [h] at hok
    cases hok

/-- Whether every bracket closes at an indentation no deeper than it was opened at, given
the indentation so far and that of the open brackets, innermost first. -/
def closesOutdented : Nat → List Nat → List TokenKind → Bool
  | _, _, [] => true
  | depth, opened, kind :: kinds =>
      match kind with
      | .symbolToken .indent => closesOutdented (depth + 1) opened kinds
      | .symbolToken .dedent => closesOutdented (depth - 1) opened kinds
      | .symbolToken .leftParen | .symbolToken .leftBracket | .symbolToken .leftBrace =>
          closesOutdented depth (depth :: opened) kinds
      | .symbolToken .rightParen | .symbolToken .rightBracket | .symbolToken .rightBrace =>
          match opened with
          | [] => closesOutdented depth [] kinds
          | outer :: opened => depth ≤ outer && closesOutdented depth opened kinds
      | _ => closesOutdented depth opened kinds

/-- The `)` of `bracketedBlock` closes while the block inside it is still indented. -/
theorem closing_bracket_leaves_indented : ∃ program, lex 30 0 bracketedBlock ⟨[]⟩ = .ok program ∧
      closesOutdented 0 [] (program.tokens.map (·.kind)) = false := by
  have hcloses : (match lex 30 0 bracketedBlock ⟨[]⟩ with
    | .ok program => closesOutdented 0 [] (program.tokens.map (·.kind))
    | _ => true) = false := by decide +kernel
  cases h : lex 30 0 bracketedBlock ⟨[]⟩ with rw [h] at hcloses
  | ok program => exact ⟨program, rfl, hcloses⟩
  | err error => cases hcloses
  | timeout => cases hcloses

end Blorp.Lex
