import Blorp.Check.Selection
import Blorp.Check.ResolvedRows

/-!
# A compiled match takes its first matching arm

The rows of a match come from `resolveArm`, one arm after the other, and
`finishSelection` compiles them.  A row fits the subject when its pattern has the
subject's type and its arguments read through that pattern (`resolveArm_fits`).

    finishSelection … = ok selection →  walking `selection` on a typed subject enters the
                                        first row that matches, and its arguments exist
-/

namespace Blorp.Check

open Fuel Outcome NodeGraph

variable {σ : Type}

/-! ## Rows of a match -/

/-- One row of a match on a subject of the type. -/
structure RowFits (unions : List CheckedUnion) (type : TypeRef) (row : PatternRow) : Prop where
  pattern : ∃ p, row.patterns = [p] ∧ PatternFits unions p type ∧
    ∀ argument ∈ row.arguments, ArgumentFits unions (.mk type .matchRoot) p argument

variable {unions : List CheckedUnion} {type : TypeRef} {span : Span} {root : Column}

theorem RowFits.rowsFit {rows : List PatternRow} (h : ∀ row ∈ rows, RowFits unions type row) :
    RowsFit unions [type] rows := by
  intro row hrow
  obtain ⟨p, hp, hfit, -⟩ := (h row hrow).pattern
  rw [hp]
  exact .cons hfit .nil

/-! ## Rows resolution makes -/

theorem orderedArguments_captured {required actual : List Capture}
    {arguments : List CheckedPatternArgument}
    (h : orderedArguments required actual span = .ok arguments) :
    ∀ argument ∈ arguments, ∃ cap ∈ actual, cap.argument = argument := by
  intro argument hmem
  obtain ⟨wanted, -, hfound⟩ := (List.exists_of_mapM_eq_ok h).2 argument hmem
  split at hfound
  · next cap hcap =>
    cases hfound
    exact ⟨cap, List.mem_of_find?_eq_some hcap, rfl⟩
  · cases hfound

theorem acceptedRow_fits {arm : MatchArmId} {required : List Capture} {candidate : PatternCase}
    {row : PatternRow} (hc : CaseFits unions (.mk type .matchRoot) candidate)
    (h : acceptedRow span arm required candidate = .ok row) : RowFits unions type row := by
  obtain ⟨arguments, harguments, h⟩ := Except.peel h
  cases h
  refine ⟨candidate.pattern, rfl, hc.pattern, fun argument hmem => ?_⟩
  obtain ⟨cap, hcap, rfl⟩ := orderedArguments_captured harguments argument hmem
  exact hc.captures cap hcap

theorem resolveArm_fits {context : ResolutionContext} {fuel ordinal : Nat}
    {pattern : ParsedPattern} {scope : List ScopedValue} {arm : MatchArmId}
    {previous : List PatternRow} {accepted : ResolvedArmPattern}
    (hroot : prepareSubject context.unions span type = .ok root)
    (h : resolveArm context fuel pattern root scope ordinal arm previous = .ok accepted) :
    ∀ row ∈ accepted.rows, RowFits context.unions type row := by
  obtain ⟨resolved, hresolved, h⟩ := Outcome.peel h
  obtain ⟨rows, hrows, h⟩ := Outcome.peel h
  cases h
  have hplace : root.cursor.rootPlace = .mk type .matchRoot := by
    rw [(column_spec hroot).1]
    rfl
  have hcases := resolvePattern_fits pattern _ _ _ _ _ _ (Outcome.liftM_eq_ok.mp hresolved)
  rw [hplace] at hcases
  obtain ⟨⟨reached, anyUseful⟩, -, hrows⟩ := Outcome.peel hrows
  obtain ⟨-, -, hrows⟩ := Outcome.peel hrows
  split at hrows
  · cases hrows
  · split at hrows
    · intro row hmem
      obtain ⟨candidate, hcandidate, hrow⟩ :=
        (List.exists_of_mapM_eq_ok (Outcome.liftM_eq_ok.mp hrows)).2 row hmem
      exact acceptedRow_fits (hcases candidate hcandidate) hrow
    · cases hrows

/-! ## The compiled match -/

theorem prepareSubject_fresh (h : prepareSubject unions span type = .ok root) :
    FreshColumn unions type root :=
  freshColumn_of_column h

theorem prepareSubject_holds {scalar : σ → TypeRef → Prop}
    (h : prepareSubject unions span type = .ok root) {x : Value σ}
    (hx : HasType unions scalar x type) : ColumnHolds unions scalar x root x := by
  refine (prepareSubject_fresh h).holds ?_ hx
  unfold Located
  rw [(column_spec h).1]
  rfl

theorem finishSelection_ok {fuel : Nat} {rows : List PatternRow} {selection : CheckedSelection}
    (h : finishSelection unions span fuel rows root = .ok selection) :
    useful unions span fuel rows [.anything] [root] = .ok none ∧
      compileRows unions span fuel rows [root] [] = .ok selection := by
  obtain ⟨missing, huseful, h⟩ := bind_eq_ok.mp h
  cases missing with
  | none => exact ⟨huseful, h⟩
  | some witnesses =>
    obtain ⟨witness, -, h⟩ := bind_eq_ok.mp h
    obtain ⟨error, -, h⟩ := bind_eq_ok.mp h
    cases h

/-- **A compiled match takes its first matching arm.**  Walked on any value of the
subject's type the selection ends, at the arm and with the arguments of the first
row that matches; no test on the way is stuck at a place the value does not have,
and what the arguments read exists. -/
theorem finishSelection_decides {unions : List CheckedUnion} (hd : DeclarationsValid unions)
    {scalar : σ → TypeRef → Prop} {span : Span} {fuel : Nat} {type : TypeRef} {root : Column}
    {rows : List PatternRow} {selection : CheckedSelection}
    (hroot : prepareSubject unions span type = .ok root)
    (hrows : ∀ row ∈ rows, RowFits unions type row)
    (h : finishSelection unions span fuel rows root = .ok selection) {x : Value σ}
    (hx : HasType unions scalar x type) :
    ∃ row, firstMatch rows [x] = some row ∧
      (∃ steps, walk x selection steps = some (row.arm, row.arguments)) ∧
      ∀ argument ∈ row.arguments, ArgumentExists x argument := by
  obtain ⟨huseful, hcompile⟩ := finishSelection_ok h
  have hfresh := prepareSubject_fresh hroot
  have hvalues : List.Forall₂ (HasType unions scalar) [x] [type] := .cons hx .nil
  have hsome := useful_none_covers hd fuel rows [.anything] [root] [type] (.cons hfresh .nil)
    (RowFits.rowsFit hrows) (.cons (.anything _) .nil) huseful [x] hvalues rfl
  obtain ⟨choice, hchoice⟩ := Option.isSome_iff_exists.mp hsome
  have hinv : Compiling unions scalar x rows [root] [x] := by
    refine ⟨fun c hc => ?_, fun row hrow => ?_, .cons (prepareSubject_holds hroot hx) .nil⟩
    · obtain rfl := List.mem_singleton.mp hc
      exact hfresh.within
    · obtain ⟨p, hp, hfit, -⟩ := (hrows row hrow).pattern
      rw [hp]
      exact .cons (hfresh.pattern hfit) .nil
  obtain ⟨steps, hsteps⟩ := compileRows_walk hd x fuel rows [root] [] selection [x] choice hinv
    hchoice hcompile
  obtain ⟨row, hfirst, rfl⟩ := Option.map_eq_some_iff.mp hchoice
  refine ⟨row, hfirst, ⟨steps, hsteps⟩, fun argument hmem => ?_⟩
  obtain ⟨p, hp, hfit, hargs⟩ := (hrows row (List.mem_of_find?_eq_some hfirst)).pattern
  have hmatch := List.find?_some (p := fun row : PatternRow => row.matches [x]) hfirst
  simp only [PatternRow.matches, hp, Pattern.matchesAll, Bool.and_true] at hmatch
  exact (hargs argument hmem).exists hd rfl hx hmatch

/-! One match with a constructor, a list prefix and a captured suffix:

    union Batch: Empty; Many(List(Int))
    match batch: Empty → …; Many([3, ...rest]) → …; Many(_) → …
-/

def batchUnions : List CheckedUnion :=
  let many : TypeUse := ⟨.listType .intType, compilerSpan⟩
  [⟨0, [], [⟨⟨0, 0⟩, ⟨0, compilerSpan⟩, []⟩, ⟨⟨0, 1⟩, ⟨1, compilerSpan⟩, [many]⟩]⟩]

def batchSuffix : CheckedPatternArgument :=
  .copyListSuffix (.mk (.listType .intType)
    (.unionField (.mk (unionType 0 []) .matchRoot) ⟨0, 1⟩ 0)) 1

def batchRows : List PatternRow :=
  [⟨0, [.variantPattern ⟨0, 0⟩ []], []⟩,
    ⟨1, [.variantPattern ⟨0, 1⟩ [.consListPattern (.exactPattern (.exactInt 3)) .anything]],
      [batchSuffix]⟩,
    ⟨2, [.variantPattern ⟨0, 1⟩ [.anything]], []⟩]

theorem batchUnions_valid : DeclarationsValid batchUnions := by
  constructor
  · intro owner declaration ho position variant hv
    match owner with
    | 0 =>
      cases ho
      match position with
      | 0 => cases hv; rfl
      | 1 => cases hv; rfl
      | n + 2 => simp at hv
    | n + 1 => simp [batchUnions] at ho
  · intro owner declaration ho variant hv field hf
    match owner with
    | 0 =>
      cases ho
      simp only [List.mem_cons, List.not_mem_nil, or_false] at hv
      rcases hv with rfl | rfl
      · cases hf
      · obtain rfl := List.mem_singleton.mp hf
        trivial
    | n + 1 => simp [batchUnions] at ho

theorem batchUnions_empty : DeclaredAt batchUnions ⟨0, []⟩ ⟨0, 0⟩ [] :=
  ⟨_, _, [], rfl, List.mem_cons_self, rfl, rfl, rfl⟩

theorem batchUnions_many : DeclaredAt batchUnions ⟨0, []⟩ ⟨0, 1⟩ [.listType .intType] :=
  ⟨_, _, [⟨.listType .intType, compilerSpan⟩], rfl, List.mem_cons_of_mem _ List.mem_cons_self, rfl,
    rfl, rfl⟩

theorem batchRows_fit : ∀ row ∈ batchRows, RowFits batchUnions (unionType 0 []) row := by
  intro row hrow
  simp only [batchRows, List.mem_cons, List.not_mem_nil, or_false] at hrow
  rcases hrow with rfl | rfl | rfl
  · exact ⟨_, rfl, .variant batchUnions_empty .nil, by simp⟩
  · refine ⟨_, rfl, .variant batchUnions_many (.cons (.consList (.int 3) (.anything _)) .nil),
      fun argument hmem => ?_⟩
    obtain rfl := List.mem_singleton.mp hmem
    exact ⟨_, .intType, .unionField .here rfl batchUnions_many rfl rfl, rfl, rfl⟩
  · exact ⟨_, rfl, .variant batchUnions_many (.cons (.anything _) .nil), by simp⟩

def batchValue : Value Unit :=
  .variant ⟨0, 1⟩ [.list [.literal (.exactInt 3), .literal (.exactInt 4)]]

theorem batchValue_typed : HasType batchUnions (fun _ _ => False) batchValue (unionType 0 []) := by
  refine .variant batchUnions_many (.cons (.list fun x hx => ?_) .nil)
  simp only [List.mem_cons, List.not_mem_nil, or_false] at hx
  rcases hx with rfl | rfl
  · exact .int 3
  · exact .int 4

/-- `Many([3, 4])` takes the second arm, with the suffix after its first element. -/
theorem finishSelection_decides_batch :
    ∃ root selection, prepareSubject batchUnions compilerSpan (unionType 0 []) = .ok root ∧
      finishSelection batchUnions compilerSpan 9 batchRows root = .ok selection ∧
      ∃ row, firstMatch batchRows [batchValue] = some row ∧
        (∃ steps, walk batchValue selection steps = some (row.arm, row.arguments)) ∧
        ∀ argument ∈ row.arguments, ArgumentExists batchValue argument := by
  refine ⟨_, _, rfl, rfl, ?_⟩
  exact @finishSelection_decides Unit batchUnions batchUnions_valid _ compilerSpan 9
    (unionType 0 []) _ batchRows _ rfl batchRows_fit rfl batchValue batchValue_typed

end Blorp.Check
