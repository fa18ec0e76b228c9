import Blorp.Lex.Scanners
import Blorp.Lib.While

/-!
# The lexer

The layout algorithm of `lex` in `lex/lex.brp`, over levels counted in tabs or four-space
groups.  Each code line is laid out against the open levels, its code is scanned up to the
LF that ends it, and the next code line is found; inside an open bracket a LF is trivia
unless a bracketed block is open at that depth.
-/

namespace Blorp.Lex

open Check (compilerSpan)
open Library (Text)
open SourceText (ErrorText LinePrefix CodeLine)
open Fuel

def inconsistentIndentation : ErrorText :=
  ⟨"inconsistent indentation", "indent every line of a block by the same amount, and dedent only to the indentation of an enclosing block (a tab counts as 4 columns)"⟩

def docBlockInBrackets : ErrorText :=
  ⟨"documentation block inside brackets",
    "close the bracket before the --- fence, or put the block before a declaration"⟩

/-! ## Bracketed blocks -/

/-- An open bracketed block: `group` is the bracket depth whose line breaks it makes
significant, `base` the indentation level of the line that opened it with a `:`. -/
structure BracketedBlock where
  group : Nat
  base : Nat
  deriving DecidableEq, Repr

/-- A line break inside brackets is trivia unless a bracketed block is open at exactly this
depth. -/
def insignificantBreak (brackets : Nat) (bodies : List BracketedBlock) : Bool :=
  match bodies.getLast? with
  | none => true
  | some block => brackets != block.group

/-- A `:` ending a line inside brackets opens a bracketed block, unless one is already open
at this depth or deeper. -/
def opensBracketedBlock (brackets : Nat) (lastColon : Bool) (bodies : List BracketedBlock) : Bool :=
  lastColon && match bodies.getLast? with
    | none => true
    | some block => brackets > block.group

/-- A line dedented to `level` closes every bracketed block whose base is at or above it. -/
def blocksOpenBelow (bodies : List BracketedBlock) (level : Nat) : List BracketedBlock :=
  bodies.filter fun block => block.base < level

/-- The innermost open level; `levels` always holds 0. -/
def topLevel (levels : List Nat) : Nat := levels.getLast?.getD 0

/-- A line indented strictly between the open bracketed block's base and the block's own
level, at the block's bracket depth, closes the block: the base it dedents to. -/
def closesBracketedBlock (bodies : List BracketedBlock) (brackets level : Nat)
    (levels : List Nat) : Option Nat :=
  match bodies.getLast? with
  | none => none
  | some block =>
      if brackets = block.group ∧ block.base < level ∧ level < topLevel levels ∧ level ∉ levels then
        some block.base
      else none

def isColon : TokenKind → Bool
  | .symbolToken .colon => true
  | _ => false

/-- Open brackets raise the depth and closing ones lower it, never below zero. -/
def bracketDepth (depth : Nat) : TokenKind → Nat
  | .symbolToken .leftParen | .symbolToken .leftBracket | .symbolToken .leftBrace => depth + 1
  | .symbolToken .rightParen | .symbolToken .rightBracket | .symbolToken .rightBrace => depth - 1
  | _ => depth

/-! ## Laying out lines -/

/-- What persists across code lines: the tokens, the open indentation levels, innermost
last, the bracket depth and the open bracketed blocks. -/
structure Layout where
  tokens : List ScannedToken
  levels : List Nat
  brackets : Nat
  bodies : List BracketedBlock

namespace Layout

def emit (layout : Layout) (tokens : List ScannedToken) : Layout :=
  { layout with tokens := layout.tokens ++ tokens }

def dedent (text : SourceText) (margin : LinePrefix) (layout : Layout) : Layout :=
  { layout.emit [.readyToken (text.symbol .dedent margin.start margin.stop)] with
    levels := layout.levels.dropLast }

def indent (text : SourceText) (line : CodeLine) (layout : Layout) : Layout :=
  { layout.emit [.readyToken (text.symbol .indent line.margin.start line.margin.stop)] with
    levels := layout.levels ++ [line.level] }

/-- The level a shallower line dedents to: its own, or the base of the bracketed block it
closes. -/
def target (layout : Layout) (line : CodeLine) : Nat :=
  (closesBracketedBlock layout.bodies layout.brackets line.level layout.levels).getD line.level

def layOut (text : SourceText) (fuel : Nat) (line : CodeLine) (layout : Layout) :
    Outcome Diagnostic Layout :=
  if line.level > topLevel layout.levels then .ok (layout.indent text line)
  else if line.level < topLevel layout.levels then do
    let target := layout.target line
    let closed ← repeatWhile (fun state : Layout => topLevel state.levels > target)
      (fun state => .ok (state.dedent text line.margin)) fuel layout
    if topLevel closed.levels ≠ target then
      .err (text.errorAt line.margin.start line.margin.stop inconsistentIndentation)
    else .ok { closed with bodies := blocksOpenBelow closed.bodies target }
  else .ok layout

/-- The layout after a LF that ends the code line: at depth zero, when it opens a bracketed
block, or when it is inside the one open at this depth. -/
def lineEnds (text : SourceText) (cursor : Nat) (lastColon : Bool) (layout : Layout) :
    Option Layout :=
  if !text.byteIs cursor asciiLf then none
  else if layout.brackets = 0 then some layout
  else if opensBracketedBlock layout.brackets lastColon layout.bodies then
    some { layout with bodies := layout.bodies ++ [⟨layout.brackets, topLevel layout.levels⟩] }
  else if insignificantBreak layout.brackets layout.bodies then none
  else some layout

def scan (layout : Layout) : ScannedToken → Layout
  | .wordToken spelling start stop => layout.emit [.wordToken spelling start stop]
  | .readyToken ready =>
      { layout.emit [.readyToken ready] with brackets := bracketDepth layout.brackets ready.kind }

end Layout

/-! ## Scanning a code line -/

/-- The cursor on a code line, and whether the last token scanned on it is a `:`. -/
structure CodeState where
  cursor : Nat
  lastColon : Bool
  layout : Layout

def endsWithColon : ScannedToken → Bool
  | .wordToken .. => false
  | .readyToken ready => isColon ready.kind

namespace SourceText

/-- The code a line starts with: a pipe String's tokens, or ordinary code at the end of its
indentation. -/
def startLine (text : SourceText) (fuel : Nat) (margin : LinePrefix) (lastColon : Bool)
    (layout : Layout) : Outcome Diagnostic CodeState := do
  match ← text.lineCode fuel margin with
  | some pipe => .ok ⟨pipe.stop, false, layout.emit pipe.tokens⟩
  | none => .ok ⟨margin.stop, lastColon, layout⟩

/-- One turn on a code line: the LF or EOF that ends it, a continuation line inside
brackets, or the next trivia or token. -/
def codeTurn (text : SourceText) (fuel : Nat) (state : CodeState) :
    Outcome Diagnostic (Turn CodeState (Nat × Layout)) :=
  let cursor := state.cursor
  if cursor = text.length then .ok (.done (cursor, state.layout))
  else
    match state.layout.lineEnds text cursor state.lastColon with
    | some ended => .ok (.done (cursor, ended))
    | none =>
        if text.byteIs cursor asciiLf then
          let continued := text.linePrefix (cursor + 1)
          if continued.start = continued.stop ∧ text.fenceAt continued.stop then
            .err (text.errorAt continued.stop (continued.stop + docFenceWidth) docBlockInBrackets)
          else do
            let next ← text.startLine fuel continued state.lastColon state.layout
            .ok (.again next)
        else if text.byteIs cursor asciiSpace then .ok (.again { state with cursor := cursor + 1 })
        else if text.commentStarts cursor then do
          let stop ← text.codeCommentEnd state.layout.tokens.getLast? cursor
          .ok (.again { state with cursor := stop })
        else if text.byteIs cursor asciiDoubleQuote then do
          let quoted ← text.quotedTokens fuel cursor
          .ok (.again ⟨quoted.stop, false, state.layout.emit quoted.tokens⟩)
        else do
          let scanned ← text.codeToken fuel cursor
          .ok (.again ⟨scanned.stop, endsWithColon scanned, state.layout.scan scanned⟩)

/-- One code line: laid out, scanned to its end, and the next code line found. -/
def lineTurn (text : SourceText) (fuel : Nat) (state : CodeLine × Layout) :
    Outcome Diagnostic (Turn (CodeLine × Layout) Layout) := do
  let (line, layout) := state
  let opened ← layout.layOut text fuel line
  if line.margin.stop = text.length then .ok (.done opened)
  else do
    let start ← text.startLine fuel line.margin false opened
    let (lineEnd, ended) ← turns (text.codeTurn fuel) fuel start
    let next := min (lineEnd + 1) text.length
    let nextLine ← text.nextCodeLine fuel next
    .ok (.again (nextLine, ended.emit [.readyToken (text.symbol .newline lineEnd next)]))

end SourceText

/-! ## Names -/

def wordSpellings (tokens : List ScannedToken) : List Text :=
  tokens.filterMap fun
    | .wordToken spelling _ _ => some spelling
    | .readyToken _ => none

/-- One scanned token with its ID, after the tokens so far and the words they hold. -/
def lexedToken (text : SourceText) (ids : List Nat) (state : List Token × Nat) :
    ScannedToken → Except Diagnostic (List Token × Nat)
  | .readyToken ready => .ok (state.1 ++ [ready], state.2)
  | .wordToken _ start stop =>
      match ids[state.2]? with
      | some id => .ok (state.1 ++ [text.token (.identifierToken id) start stop], state.2 + 1)
      | none => .error (internalError compilerSpan "a scanned identifier has no interned ID")

def lexedTokens (text : SourceText) (ids : List Nat) (tokens : List ScannedToken) :
    Except Diagnostic (List Token × Nat) :=
  tokens.foldlM (lexedToken text ids) ([], 0)

def emptyLayout : Layout := ⟨[], [0], 0, []⟩

def lex (fuel origin : Nat) (source : Bytes) (names : NameTable) :
    Outcome Diagnostic LexedProgram := do
  let text : SourceText := ⟨origin, source⟩
  let first ← text.nextCodeLine fuel 0
  let last ← turns (text.lineTurn fuel) fuel (first, emptyLayout)
  let interned := internNames names (wordSpellings last.tokens)
  let (tokens, _) ← lexedTokens text interned.2 last.tokens
  .ok ⟨source, tokens, ⟨origin, source.length, source.length⟩, names, interned.1⟩

end Blorp.Lex
