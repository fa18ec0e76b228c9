import Blorp.Check.Rejections

/-!
# Which arms are reported unreachable

`usefulCases` asks for each case of an arm, in order, whether the rows before it
leave it a value.  An alternative is reported when none of its cases is left one,
and an arm when no case is; the first failing check of the arm wins.

Resolution itself never reports an unreachable arm (`Reports`), so that error can
only come from here.
-/

namespace Blorp.Check

open Fuel Outcome

variable {σ : Type}

/-! ## Resolution never says unreachable -/

def CheckError.IsUnreachable (error : CheckError) : Prop :=
  error.kind = .matchRejection .unreachableArm

/-- An error that is about something else. -/
def CheckError.Ordinary (error : CheckError) : Prop := ¬error.IsUnreachable

theorem CheckError.IsInvariant.ordinary {error : CheckError} (h : error.IsInvariant) :
    error.Ordinary := by
  obtain ⟨invariant, hi⟩ := h
  intro hu
  rw [CheckError.IsUnreachable, hi] at hu
  cases hu

/-- The rejections and the failure an arm carries are ordinary errors. -/
structure Reports (checks : List AlternativeCheck) (failure : Option CheckError) : Prop where
  rejections : ∀ check ∈ checks, ∀ error, check.rejection = some error → error.Ordinary
  late : ∀ error, failure = some error → error.Ordinary

/-- A resolved pattern keeps a failure only for the sake of earlier alternatives. -/
structure Deferred (checks : List AlternativeCheck) (failure : Option CheckError) : Prop
    extends Reports checks failure where
  pending : failure ≠ none → checks ≠ []

theorem Reports.quiet : Reports [] none := ⟨by simp, by simp⟩

theorem Deferred.quiet : Deferred [] none := ⟨Reports.quiet, by simp⟩

theorem Reports.append {front back : List AlternativeCheck} {before after : Option CheckError}
    (hfront : Reports front before) (hback : Reports back after) : Reports (front ++ back) after := by
  refine ⟨fun check hc => ?_, hback.late⟩
  rcases List.mem_append.mp hc with hc | hc
  · exact hfront.rejections check hc
  · exact hback.rejections check hc

theorem earlierAlternatives_meets {checks : List AlternativeCheck} {failure : Option CheckError}
    (h : Reports checks failure) :
    Except.Meets (fun _ => Deferred checks failure) CheckError.Ordinary
      (earlierAlternatives checks failure) := by
  unfold earlierAlternatives
  cases failure with
  | none => exact ⟨h, by simp⟩
  | some error =>
    simp only
    split
    · exact h.late error rfl
    · next hne =>
      refine ⟨h, fun _ hnil => ?_⟩
      rw [hnil] at hne
      exact hne rfl

theorem bindLocal_errorsIn (scope : List ScopedValue) (names : Namespace) (module : ModuleId)
    (owner : BodyOwner) (name : WrittenName) (id : BindingId) (definition : BindingDefinition) :
    Except.ErrorsIn CheckError.Ordinary
      (bindLocal scope names module owner name id definition) := by
  unfold bindLocal
  split
  · intro h; cases h
  · split
    · intro h; cases h
    · next previous _ =>
      show (callableConflict name.span previous).Ordinary
      unfold callableConflict
      dsimp only
      split
      · intro h; cases h
      · intro h; cases h
    · trivial

/-- Resolving a pattern: an ordinary error, or a pattern that defers only failures. -/
abbrev ResolvesQuietly (x : Except CheckError ResolvedPattern) : Prop :=
  x.Meets (fun resolved => Deferred resolved.checks resolved.pendingFailure) CheckError.Ordinary

abbrev FieldsQuietly (x : Except CheckError ResolvedFields) : Prop :=
  x.Meets (fun resolved => Deferred resolved.checks resolved.pendingFailure) CheckError.Ordinary

def ResolverQuiet (fields : FieldResolver) : Prop :=
  ∀ places scope ordinal next, FieldsQuietly (fields places scope ordinal next)

section Quiet

variable {context : ResolutionContext} {place : CheckedPatternPlace} {scope : List ScopedValue}
variable {ordinal next : Nat}

theorem capture_quiet (name : WrittenName) (valueType : TypeRef)
    (argument : CheckedPatternArgument) :
    ResolvesQuietly (capture context name valueType argument scope ordinal next) :=
  (bindLocal_errorsIn scope _ _ _ name ordinal _).bind fun _ _ => Deferred.quiet

variable {count : Nat} {fields : FieldResolver}

theorem finishFields_quiet {state : FieldsState} (h : Reports state.checks state.failure) :
    FieldsQuietly (finishFields count state) :=
  (earlierAlternatives_meets h).bind fun _ hdeferred => hdeferred

theorem resolveVariant_quiet {contract : VariantContract} (hfields : ResolverQuiet fields)
    (span : Span) :
    ResolvesQuietly (resolveVariant contract count fields place span scope ordinal next) := by
  unfold resolveVariant
  split
  · exact (hfields _ _ _ _).bind fun _ hdeferred => hdeferred
  · intro h; cases h

theorem resolveTuple_quiet (hfields : ResolverQuiet fields) (span : Span) :
    ResolvesQuietly (resolveTuple count fields span place scope ordinal next) := by
  unfold resolveTuple
  cases place.valueType with
  | tupleType types =>
    show ResolvesQuietly (if types.length = count then _ else _)
    split
    · exact (hfields _ _ _ _).bind fun _ hdeferred => hdeferred
    · intro h; cases h
  | _ => intro h; cases h

theorem resolveListTail_quiet {rest : Option SpreadTarget} {skip : Nat} {resolved : ResolvedFields}
    (hdeferred : Deferred resolved.checks resolved.pendingFailure) :
    Except.Meets (fun tail => tail.checks = [] ∧ Deferred resolved.checks tail.pendingFailure)
      CheckError.Ordinary (resolveListTail context rest place skip resolved ordinal) := by
  unfold resolveListTail
  cases hfailure : resolved.pendingFailure with
  | some error => exact ⟨rfl, hfailure ▸ hdeferred⟩
  | none =>
    rw [hfailure] at hdeferred
    cases rest with
    | none => exact ⟨rfl, hdeferred⟩
    | some target =>
      cases target with
      | spreadWildcard span => exact ⟨rfl, hdeferred⟩
      | spreadName name =>
        simp only
        split
        · next tail hcapture =>
          unfold capture at hcapture
          obtain ⟨binding, -, hcapture⟩ := Except.peel hcapture
          cases hcapture
          exact ⟨rfl, hdeferred⟩
        · next error hcapture =>
          have herror := (capture_quiet name place.valueType _).of_error hcapture
          have hreports : Reports resolved.checks (some error) :=
            ⟨hdeferred.rejections, fun e he => by cases he; exact herror⟩
          exact (earlierAlternatives_meets hreports).bind fun _ hlate => ⟨rfl, hlate⟩

theorem resolveList_quiet (hfields : ResolverQuiet fields) (rest : Option SpreadTarget)
    (span : Span) :
    ResolvesQuietly (resolveList context count fields rest span place scope ordinal next) := by
  unfold resolveList
  split
  · refine (hfields _ _ _ _).bind fun resolved hdeferred => ?_
    refine (resolveListTail_quiet hdeferred).bind fun tail htail => ?_
    obtain ⟨hnil, htail⟩ := htail
    show Deferred (resolved.checks ++ tail.checks) tail.pendingFailure
    rw [hnil, List.append_nil]
    exact htail
  · intro h; cases h

theorem noFields_quiet : ResolverQuiet noFields := fun _ _ _ _ => finishFields_quiet Reports.quiet

theorem resolveCaptureName_quiet (name : WrittenName) (position : PatternPosition) :
    ResolvesQuietly (resolveCaptureName context name place position scope ordinal next) := by
  cases position with
  | wholeArm => intro h; cases h
  | payload => exact capture_quiet name _ _

theorem declaredVariantContract_errorsIn (owner : UnionId) (variant : VariantId) (span : Span) :
    Except.ErrorsIn CheckError.Ordinary (declaredVariantContract context owner variant span) := by
  refine ((orCheckerInvariant_errorsIn _ span _).mono fun _ h => h.ordinary).bind
    fun declaration _ => ?_
  split
  · split <;> trivial
  · trivial

theorem instantiated_errorsIn (variant : VariantContract) (occurrence : UnionOccurrence) :
    Except.ErrorsIn CheckError.Ordinary (do
      let contract ← instantiatePatternVariant variant occurrence
      return some contract) := by
  have hfields := (occurrenceFields_errorsIn variant.fields occurrence).mono
    fun _ h => h.ordinary
  have hcontract : Except.ErrorsIn CheckError.Ordinary
      (instantiatePatternVariant variant occurrence) := hfields.bind fun _ _ => trivial
  exact hcontract.bind fun _ _ => trivial

theorem findVariant_errorsIn (occurrence : UnionOccurrence) (name : WrittenName) :
    Except.ErrorsIn CheckError.Ordinary (findVariant context occurrence name) := by
  have hdeclared : Except.ErrorsIn CheckError.Ordinary
      (findDeclaredVariant context occurrence.owner name) := by
    unfold findDeclaredVariant
    split
    · exact declaredVariantContract_errorsIn _ _ _
    · trivial
  refine hdeclared.bind fun found _ => ?_
  cases found with
  | none =>
    refine ((orCheckerInvariant_errorsIn _ _ _).mono fun _ h => h.ordinary).bind
      fun declaration _ => ?_
    split
    · intro h; cases h
    · trivial
  | some variant => exact instantiated_errorsIn variant occurrence

theorem findQualifiedVariant_errorsIn (occurrence : UnionOccurrence) (name : ParsedQualified) :
    Except.ErrorsIn CheckError.Ordinary (findQualifiedVariant context occurrence name) := by
  have haliased : Except.ErrorsIn CheckError.Ordinary (aliasedModule context name.module) := by
    unfold aliasedModule
    split
    · trivial
    · intro h; cases h
  refine haliased.bind fun aliased _ => ?_
  dsimp only
  split
  · refine (declaredVariantContract_errorsIn _ _ _).bind fun declared _ => ?_
    cases declared with
    | none => trivial
    | some variant => exact instantiated_errorsIn variant occurrence
  · trivial
  · intro h; cases h

theorem resolveName_quiet (name : WrittenName) (position : PatternPosition) :
    ResolvesQuietly (resolveName context name place position scope ordinal next) := by
  unfold resolveName
  split
  · next occurrence _ =>
    split
    · next error herror => exact (findVariant_errorsIn occurrence name).of_error herror
    · exact resolveVariant_quiet noFields_quiet name.span
    · exact resolveCaptureName_quiet name position
  · exact resolveCaptureName_quiet name position

theorem resolveConstructor_quiet {head : PatternHead} (hfields : ResolverQuiet fields)
    (span : Span) :
    ResolvesQuietly
      (resolveConstructor context head count fields span place scope ordinal next) := by
  unfold resolveConstructor
  cases place.valueType.unionOccurrence with
  | none => cases head <;> (intro h; cases h)
  | some occurrence =>
    cases head with
    | bareHead name =>
      refine (findVariant_errorsIn occurrence name).bind fun found _ => ?_
      cases found with
      | some resolved => exact resolveVariant_quiet hfields span
      | none => intro h; cases h
    | qualifiedHead name =>
      refine (findQualifiedVariant_errorsIn occurrence name).bind fun found _ => ?_
      cases found with
      | some resolved => exact resolveVariant_quiet hfields span
      | none => intro h; cases h

theorem captureAgreementFrom_ordinary {actual : List Capture} {span : Span} {error : CheckError} :
    ∀ {expected : List Capture}, captureAgreementFrom actual span expected = some error →
      error.Ordinary := by
  intro expected
  induction expected with
  | nil => intro h; cases h
  | cons required rest ih =>
    intro h
    unfold captureAgreementFrom at h
    split at h
    · cases h
      intro hu
      cases hu
    · split at h
      · exact ih h
      · cases h
        intro hu
        cases hu

theorem captureAgreement_ordinary {expected actual : List Capture} {span : Span}
    {error : CheckError} (h : captureAgreement expected actual span = some error) :
    error.Ordinary := by
  unfold captureAgreement at h
  split at h
  · exact captureAgreementFrom_ordinary h
  · cases h
    intro hu
    cases hu

theorem AlternativesState.add_reports {state : AlternativesState}
    (h : Reports state.checks state.failure) (span : Span) {resolved : ResolvedPattern}
    (hr : Deferred resolved.checks resolved.pendingFailure) :
    Reports (state.add span resolved).checks (state.add span resolved).failure := by
  unfold AlternativesState.add
  dsimp only
  refine Reports.append ⟨?_, h.late⟩ hr.toReports
  cases resolved.pendingFailure with
  | some error => exact h.rejections
  | none =>
    intro check hc
    rcases List.mem_append.mp hc with hc | hc
    · exact h.rejections check hc
    · obtain rfl := List.mem_singleton.mp hc
      intro error he
      dsimp only at he
      split at he
      · cases he
      · exact captureAgreement_ordinary he

mutual

/-- **Resolution never reports an unreachable arm**, now or later. -/
theorem resolvePattern_quiet : ∀ (pattern : ParsedPattern) (place : CheckedPatternPlace)
    (position : PatternPosition) (scope : List ScopedValue) (ordinal next : Nat),
    ResolvesQuietly (resolvePattern context pattern place position scope ordinal next)
  | .patternTuple fields span, place, position, scope, ordinal, next => by
      rw [resolvePattern]
      exact resolveTuple_quiet (resolveFields_quiet fields) span
  | .patternWildcard span, place, position, scope, ordinal, next => by
      rw [resolvePattern]
      exact Deferred.quiet
  | .patternName name, place, position, scope, ordinal, next => by
      rw [resolvePattern]
      exact resolveName_quiet name position
  | .patternConstructor head fields span, place, position, scope, ordinal, next => by
      rw [resolvePattern]
      exact resolveConstructor_quiet (resolveFields_quiet fields) span
  | .patternOr alternatives span, place, position, scope, ordinal, next => by
      rw [resolvePattern]
      have hreports := resolveAlternatives_reports alternatives place position scope ordinal
        ⟨none, [], [], next, none⟩ Reports.quiet
      refine (earlierAlternatives_meets hreports).bind fun _ hdeferred => ?_
      refine ((orCheckerInvariant_errorsIn _ _ _).mono fun _ h => h.ordinary).bind
        fun canonical _ => hdeferred
  | .patternList fields rest span, place, position, scope, ordinal, next => by
      rw [resolvePattern]
      exact resolveList_quiet (resolveFields_quiet fields) rest span
  | .patternLiteral literal span, place, position, scope, ordinal, next => by
      rw [resolvePattern]
      split
      · exact Deferred.quiet
      · intro h; cases h
  | .patternChar span, place, position, scope, ordinal, next => by
      rw [resolvePattern]
      intro h
      cases h

theorem resolveFields_quiet (fields : List ParsedPattern) :
    ResolverQuiet fun places scope ordinal next =>
      finishFields fields.length
        (resolveFields context fields places ordinal (.start scope next)) := by
  intro places scope ordinal next
  exact finishFields_quiet (resolveFields_reports fields places ordinal _ Reports.quiet)

theorem resolveFields_reports : ∀ (fields : List ParsedPattern) (places : List CheckedPatternPlace)
    (ordinal : Nat) (state : FieldsState), Reports state.checks state.failure →
    Reports (resolveFields context fields places ordinal state).checks
      (resolveFields context fields places ordinal state).failure
  | [], places, ordinal, state, h => by
      rw [resolveFields]
      exact h
  | field :: rest, places, ordinal, state, h => by
      rw [resolveFields]
      split
      · refine ⟨h.rejections, fun error he => ?_⟩
        cases he
        intro hu
        cases hu
      · next place hplace =>
        have hquiet := resolvePattern_quiet field place .payload state.scope
          (ordinal + state.bindings.length) state.cursor
        split
        · next error herror =>
          refine ⟨h.rejections, fun e he => ?_⟩
          cases he
          exact hquiet.of_error herror
        · next resolved hresolved =>
          have hadd : Reports (state.add resolved).checks (state.add resolved).failure :=
            h.append (hquiet.of_ok hresolved).toReports
          dsimp only
          split
          · exact hadd
          · exact resolveFields_reports rest places ordinal _ hadd

theorem resolveAlternatives_reports : ∀ (alternatives : List ParsedPattern)
    (place : CheckedPatternPlace) (position : PatternPosition) (scope : List ScopedValue)
    (ordinal : Nat) (state : AlternativesState), Reports state.checks state.failure →
    Reports (resolveAlternatives context alternatives place position scope ordinal state).checks
      (resolveAlternatives context alternatives place position scope ordinal state).failure
  | [], place, position, scope, ordinal, state, h => by
      rw [resolveAlternatives]
      exact h
  | alternative :: rest, place, position, scope, ordinal, state, h => by
      rw [resolveAlternatives]
      have hquiet := resolvePattern_quiet alternative place position scope ordinal (state.cursor + 1)
      split
      · next error herror =>
        refine ⟨h.rejections, fun e he => ?_⟩
        cases he
        exact hquiet.of_error herror
      · next resolved hresolved =>
        have hadd := AlternativesState.add_reports h alternative.span (hquiet.of_ok hresolved)
        dsimp only
        split
        · exact hadd
        · exact resolveAlternatives_reports rest place position scope ordinal _ hadd

end

end Quiet

/-! ## Cases that are left a value -/

def caseRow (arm : MatchArmId) (candidate : PatternCase) : PatternRow :=
  ⟨arm, [candidate.pattern], []⟩

/-- Every value matched by a selected case is matched by an earlier row: one of the
rows `previous`, or a case before it in the same arm. -/
def CoveredEarlier (unions : List CheckedUnion) (scalar : σ → TypeRef → Prop) (type : TypeRef)
    (previous : List PatternRow) (cases : List PatternCase) (selected : PatternCase → Prop) : Prop :=
  ∀ (front back : List PatternCase) (candidate : PatternCase), cases = front ++ candidate :: back →
    selected candidate → ∀ x : Value σ, HasType unions scalar x type →
    candidate.pattern.matches x = true →
      (∃ row ∈ previous, row.matches [x] = true) ∨ ∃ c ∈ front, c.pattern.matches x = true

variable {unions : List CheckedUnion} {scalar : σ → TypeRef → Prop} {type : TypeRef}
variable {previous : List PatternRow} {selected : PatternCase → Prop}

theorem CoveredEarlier.mono {cases : List PatternCase} {fewer : PatternCase → Prop}
    (hsub : ∀ c, fewer c → selected c)
    (h : CoveredEarlier unions scalar type previous cases selected) :
    CoveredEarlier unions scalar type previous cases fewer :=
  fun front back candidate hsplit hsel => h front back candidate hsplit (hsub candidate hsel)

theorem coveredEarlier_nil : CoveredEarlier unions scalar type previous [] selected := by
  intro front back candidate hsplit
  simp at hsplit

theorem matches_caseRow (arm : MatchArmId) (candidate : PatternCase) (x : Value σ) :
    (caseRow arm candidate).matches [x] = candidate.pattern.matches x := by
  simp [caseRow, PatternRow.matches, Pattern.matchesAll]

theorem coveredEarlier_cons {first : PatternCase} {rest : List PatternCase} (arm : MatchArmId) :
    CoveredEarlier unions scalar type previous (first :: rest) selected ↔
      (selected first → ¬Uncovered unions scalar [type] previous [first.pattern]) ∧
        CoveredEarlier unions scalar type (previous ++ [caseRow arm first]) rest selected := by
  have hfirst : ¬Uncovered unions scalar [type] previous [first.pattern] ↔
      ∀ x : Value σ, HasType unions scalar x type → first.pattern.matches x = true →
        ∃ row ∈ previous, row.matches [x] = true := by
    constructor
    · intro h x hx hm
      by_contra hnone
      refine h ⟨[x], .cons hx .nil, by simp [Pattern.matchesAll, hm], fun row hrow => ?_⟩
      cases hrm : row.matches [x] with
      | false => rfl
      | true => exact absurd ⟨row, hrow, hrm⟩ hnone
    · rintro h ⟨values, htyped, hm, hnone⟩
      cases htyped with
      | @cons x _ _ _ hx hrest =>
        cases hrest
        simp only [Pattern.matchesAll, Bool.and_true] at hm
        obtain ⟨row, hrow, hrm⟩ := h x hx hm
        rw [hnone row hrow] at hrm
        cases hrm
  rw [hfirst]
  constructor
  · intro h
    refine ⟨fun hsel x hx hm => ?_, fun front back candidate hsplit hsel x hx hm => ?_⟩
    · rcases h [] rest first rfl hsel x hx hm with hrow | ⟨c, hc, -⟩
      · exact hrow
      · cases hc
    · rcases h (first :: front) back candidate (by rw [hsplit]; rfl) hsel x hx hm with
        ⟨row, hrow, hrm⟩ | ⟨c, hc, hcm⟩
      · exact .inl ⟨row, List.mem_append_left _ hrow, hrm⟩
      · rcases List.mem_cons.mp hc with rfl | hc
        · exact .inl ⟨caseRow arm c, by simp, by rw [matches_caseRow]; exact hcm⟩
        · exact .inr ⟨c, hc, hcm⟩
  · rintro ⟨hhead, htail⟩ front back candidate hsplit hsel x hx hm
    cases front with
    | nil =>
      cases hsplit
      exact .inl (hhead hsel x hx hm)
    | cons c front =>
      cases hsplit
      rcases htail front back candidate rfl hsel x hx hm with ⟨row, hrow, hrm⟩ | ⟨c', hc, hcm⟩
      · rcases List.mem_append.mp hrow with hrow | hrow
        · exact .inl ⟨row, hrow, hrm⟩
        · obtain rfl := List.mem_singleton.mp hrow
          exact .inr ⟨first, List.mem_cons_self, by rw [← matches_caseRow arm]; exact hrm⟩
      · exact .inr ⟨c', List.mem_cons_of_mem _ hc, hcm⟩

/-! ## The first failing check -/

theorem checkAlternatives_eq_ok {reached : List Nat} : ∀ {checks : List AlternativeCheck},
    checkAlternatives checks reached = .ok () ↔
      ∀ c ∈ checks, c.id ∈ reached ∧ c.rejection = none := by
  intro checks
  induction checks with
  | nil => simp [checkAlternatives]
  | cons check rest ih =>
    unfold checkAlternatives
    by_cases hreached : check.id ∈ reached
    · cases hrejection : check.rejection with
      | some error => simp [hreached, hrejection]
      | none => simp [hreached, hrejection, ih]
    · simp [hreached]

theorem checkAlternatives_unreachable {reached : List Nat} {s : Span} :
    ∀ {checks : List AlternativeCheck}, Reports checks none →
    (checkAlternatives checks reached = .error (matchError s .unreachableArm) ↔
      ∃ before check after, checks = before ++ check :: after ∧
        (∀ c ∈ before, c.id ∈ reached ∧ c.rejection = none) ∧ check.id ∉ reached ∧
        s = check.span) := by
  intro checks
  induction checks with
  | nil => intro _; simp [checkAlternatives]
  | cons check rest ih =>
    intro hreports
    have hrest : Reports rest none :=
      ⟨fun c hc => hreports.rejections c (List.mem_cons_of_mem _ hc), by simp⟩
    unfold checkAlternatives
    by_cases hreached : check.id ∈ reached
    · simp only [hreached, if_true]
      cases hrejection : check.rejection with
      | some error =>
        have hordinary := hreports.rejections check List.mem_cons_self error hrejection
        constructor
        · intro h
          cases h
          exact absurd rfl hordinary
        · rintro ⟨before, c, after, hsplit, hpassed, hmissed, -⟩
          cases before with
          | nil => cases hsplit; exact absurd hreached hmissed
          | cons b before =>
            cases hsplit
            have := (hpassed check List.mem_cons_self).2
            rw [hrejection] at this
            cases this
      | none =>
        simp only
        rw [ih hrest]
        constructor
        · rintro ⟨before, c, after, rfl, hpassed, hmissed, hs⟩
          refine ⟨check :: before, c, after, rfl, fun d hdmem => ?_, hmissed, hs⟩
          rcases List.mem_cons.mp hdmem with rfl | hdmem
          · exact ⟨hreached, hrejection⟩
          · exact hpassed d hdmem
        · rintro ⟨before, c, after, hsplit, hpassed, hmissed, hs⟩
          cases before with
          | nil => cases hsplit; exact absurd hreached hmissed
          | cons b before =>
            cases hsplit
            exact ⟨before, c, after, rfl, fun d hdmem => hpassed d (List.mem_cons_of_mem _ hdmem),
              hmissed, hs⟩
    · simp only [hreached, if_false]
      constructor
      · intro h
        cases h
        exact ⟨[], check, rest, rfl, by simp, hreached, rfl⟩
      · rintro ⟨before, c, after, hsplit, hpassed, -, hs⟩
        cases before with
        | nil => cases hsplit; rw [hs]
        | cons b before =>
          cases hsplit
          exact absurd (hpassed check List.mem_cons_self).1 hreached

/-! ## Reports -/

section Report

variable (unions : List CheckedUnion) (scalar : σ → TypeRef → Prop) (type : TypeRef)
variable (previous : List PatternRow) (resolved : ResolvedPattern)

/-- The alternative is left a value and its captures agree. -/
def AlternativePasses (check : AlternativeCheck) : Prop :=
  ¬CoveredEarlier unions scalar type previous resolved.cases (fun c => check.id ∈ c.alternatives) ∧
    check.rejection = none

/-- What an arm written at `written` is reported unreachable for: the first
alternative that does not pass, when earlier rows take all its values; or, when all
pass and nothing else is wrong, the whole arm. -/
inductive UnreachableAt (written : Span) : Span → Prop where
  | alternative {before after : List AlternativeCheck} {check : AlternativeCheck}
      (split : resolved.checks = before ++ check :: after)
      (passed : ∀ c ∈ before, AlternativePasses unions scalar type previous resolved c)
      (covered : CoveredEarlier unions scalar type previous resolved.cases
        fun c => check.id ∈ c.alternatives) : UnreachableAt written check.span
  | arm (passed : ∀ c ∈ resolved.checks, AlternativePasses unions scalar type previous resolved c)
      (complete : resolved.pendingFailure = none)
      (covered : CoveredEarlier unions scalar type previous resolved.cases fun _ => True) :
      UnreachableAt written written

end Report

theorem acceptedRows_errorsIn (span : Span) (arm : MatchArmId) (required : List Capture)
    (cases : List PatternCase) :
    Except.ErrorsIn CheckError.Ordinary (cases.mapM (acceptedRow span arm required)) := by
  refine Except.ErrorsIn.mapM fun candidate _ => ?_
  have harguments : Except.ErrorsIn CheckError.Ordinary
      (orderedArguments required candidate.captures span) := by
    refine Except.ErrorsIn.mapM fun wanted _ => ?_
    split
    · trivial
    · intro h; cases h
  exact harguments.bind fun _ _ => trivial

section Arm

variable {context : ResolutionContext} (hd : DeclarationsValid context.unions) (span : Span)
variable {scalar : σ → TypeRef → Prop} {type : TypeRef} {root : Column}
variable (hfresh : FreshColumn context.unions type root) (hscope : type.InScope context.unions)
variable (hinh : HereditarilyInhabited context.unions scalar type)

include hd hfresh hscope hinh

/-- The loop of `useful_cases` keeps exactly the alternatives that are left a value. -/
theorem reachedCases_settles (arm : MatchArmId) : ∀ (cases : List PatternCase)
    (rows : List PatternRow) (reached : List Nat) (anyUseful : Bool),
    RowsFit context.unions [type] rows →
    (∀ c ∈ cases, PatternFits context.unions c.pattern type) →
    ∃ found, Settles
        (fun n => reachedCases context span n root arm cases rows reached anyUseful) (.ok found) ∧
      (∀ id, id ∈ found.1 ↔ id ∈ reached ∨
        ¬CoveredEarlier context.unions scalar type rows cases fun c => id ∈ c.alternatives) ∧
      (found.2 = true ↔ anyUseful = true ∨
        ¬CoveredEarlier context.unions scalar type rows cases fun _ => True) := by
  intro cases
  induction cases with
  | nil =>
    intro rows reached anyUseful _ _
    refine ⟨(reached, anyUseful), Settles.ok, fun id => ?_, ?_⟩
    all_goals simp [coveredEarlier_nil]
  | cons candidate rest ih =>
    intro rows reached anyUseful hrows hcases
    have hcand := hcases candidate List.mem_cons_self
    obtain ⟨answer, hanswer, hexact⟩ := useful_settles_exactly hd span (.cons hfresh .nil) hrows
      (.cons hcand .nil) (by simpa using hscope) (by simpa using hinh)
    have hrows' : RowsFit context.unions [type] (rows ++ [caseRow arm candidate]) := by
      intro row hrow
      rcases List.mem_append.mp hrow with hrow | hrow
      · exact hrows row hrow
      · obtain rfl := List.mem_singleton.mp hrow
        exact .cons hcand .nil
    have hrest : ∀ c ∈ rest, PatternFits context.unions c.pattern type := fun c hc =>
      hcases c (List.mem_cons_of_mem _ hc)
    cases answer with
    | some witness =>
      have hleft : Uncovered context.unions scalar [type] rows [candidate.pattern] :=
        hexact.mp rfl
      obtain ⟨found, hfound, hreached, hany⟩ :=
        ih _ (reached ++ candidate.alternatives) true hrows' hrest
      refine ⟨found, Settles.bind_ok hanswer hfound, fun id => ?_, ?_⟩
      · rw [hreached, coveredEarlier_cons arm, List.mem_append]
        simp only [hleft, not_true_eq_false, imp_false]
        tauto
      · rw [hany, coveredEarlier_cons arm]
        simp [hleft]
    | none =>
      have hleft : ¬Uncovered context.unions scalar [type] rows [candidate.pattern] := by
        rw [← hexact]
        simp
      obtain ⟨found, hfound, hreached, hany⟩ := ih _ reached anyUseful hrows' hrest
      refine ⟨found, Settles.bind_ok hanswer hfound, fun id => ?_, ?_⟩
      · rw [hreached, coveredEarlier_cons arm]
        simp [hleft]
      · rw [hany, coveredEarlier_cons arm]
        simp [hleft]

theorem usefulCases_unreachable {resolved : ResolvedPattern} {previous : List PatternRow}
    (hprevious : RowsFit context.unions [type] previous)
    (hcases : ∀ c ∈ resolved.cases, PatternFits context.unions c.pattern type)
    (hreports : Reports resolved.checks resolved.pendingFailure) (arm : MatchArmId) :
    ∃ outcome, Settles (fun n => usefulCases context span n resolved previous root arm) outcome ∧
      ∀ s, outcome = .err (matchError s .unreachableArm) ↔
        UnreachableAt context.unions scalar type previous resolved span s := by
  obtain ⟨⟨reached, anyUseful⟩, hfound, hreached, hany⟩ := reachedCases_settles hd span hfresh hscope
    hinh arm resolved.cases previous [] false hprevious hcases
  simp only [List.not_mem_nil, false_or] at hreached
  simp only [Bool.false_eq_true, false_or] at hany
  have hquiet : Reports resolved.checks none := ⟨hreports.rejections, by simp⟩
  have hpasses : ∀ c : AlternativeCheck, (c.id ∈ reached ∧ c.rejection = none) ↔
      AlternativePasses context.unions scalar type previous resolved c := by
    intro c
    rw [hreached]
    rfl
  cases hchecked : checkAlternatives resolved.checks reached with
  | error error =>
    refine ⟨.err error, Settles.bind_ok hfound ?_, fun s => ?_⟩
    · simp only [hchecked]
      exact Settles.err
    · have hspec := @checkAlternatives_unreachable reached s _ hquiet
      constructor
      · intro h
        cases h
        obtain ⟨before, check, after, hsplit, hpassed, hmissed, rfl⟩ := hspec.mp hchecked
        rw [hreached, not_not] at hmissed
        exact .alternative hsplit (fun c hc => (hpasses c).mp (hpassed c hc)) hmissed
      · intro h
        cases h with
        | @alternative before after check hsplit hpassed hcovered =>
          have := hspec.mpr ⟨before, check, after, hsplit,
            fun c hc => (hpasses c).mpr (hpassed c hc), by rw [hreached, not_not]; exact hcovered,
            rfl⟩
          rw [hchecked] at this
          cases this
          rfl
        | arm hpassed hcomplete hcovered =>
          have := checkAlternatives_eq_ok.mpr fun c hc => (hpasses c).mpr (hpassed c hc)
          rw [hchecked] at this
          cases this
  | ok checked =>
    have hpassed : ∀ c ∈ resolved.checks,
        AlternativePasses context.unions scalar type previous resolved c := fun c hc =>
      (hpasses c).mp (checkAlternatives_eq_ok.mp hchecked c hc)
    -- no alternative fails, so only the arm itself can be reported
    have harm : ∀ s, UnreachableAt context.unions scalar type previous resolved span s ↔
        resolved.pendingFailure = none ∧ anyUseful = false ∧ s = span := by
      intro s
      rw [← Bool.not_eq_true, hany, not_not]
      constructor
      · intro h
        cases h with
        | @alternative before after check hsplit _ hcovered =>
          exact absurd hcovered (hpassed check (by rw [hsplit]; simp)).1
        | arm _ hcomplete hcovered => exact ⟨hcomplete, hcovered, rfl⟩
      · rintro ⟨hcomplete, hcovered, rfl⟩
        exact .arm hpassed hcomplete hcovered
    cases hpending : resolved.pendingFailure with
    | some error =>
      refine ⟨.err error, Settles.bind_ok hfound ?_, fun s => ?_⟩
      · simp only [hchecked, hpending]
        exact Settles.err
      rw [harm, hpending]
      have hordinary := hreports.late error hpending
      constructor
      · intro h
        cases h
        exact absurd rfl hordinary
      · rintro ⟨h, -, -⟩
        cases h
    | none =>
      cases anyUseful with
      | false =>
        refine ⟨.err (matchError span .unreachableArm), Settles.bind_ok hfound ?_, fun s => ?_⟩
        · simp only [hchecked, hpending]
          exact Settles.err
        rw [harm, hpending]
        constructor
        · intro h
          cases h
          exact ⟨rfl, rfl, rfl⟩
        · rintro ⟨-, -, rfl⟩
          rfl
      | true =>
        have hordinary := acceptedRows_errorsIn span arm (firstCaptures resolved.cases)
          resolved.cases
        cases haccepted : resolved.cases.mapM
            (acceptedRow span arm (firstCaptures resolved.cases)) with
        | ok rows =>
          refine ⟨.ok rows, Settles.bind_ok hfound ?_, fun s => ?_⟩
          · simp only [hchecked, hpending, haccepted, ↓reduceIte]
            exact Settles.ok
          rw [harm]
          simp
        | error error =>
          refine ⟨.err error, Settles.bind_ok hfound ?_, fun s => ?_⟩
          · simp only [hchecked, hpending, haccepted, ↓reduceIte]
            exact Settles.err
          rw [harm]
          constructor
          · intro h
            cases h
            exact absurd rfl (hordinary.of_error haccepted)
          · rintro ⟨-, h, -⟩
            cases h

/-- **An arm is reported unreachable exactly when earlier rows take its values.**
Given enough fuel `resolveArm` ends; an arm whose pattern resolves is reported for
the first alternative, or the whole arm, that is left no value, and an arm that does
not resolve is rejected for what is wrong with it. -/
theorem resolveArm_unreachable (hroot : root.cursor.rootPlace = .mk type .matchRoot)
    {previous : List PatternRow} (hprevious : RowsFit context.unions [type] previous)
    (pattern : ParsedPattern) (scope : List ScopedValue) (ordinal : Nat) (arm : MatchArmId) :
    ∃ outcome, Settles
        (fun n => resolveArm context n pattern root scope ordinal arm previous) outcome ∧
      ∀ s, outcome = .err (matchError s .unreachableArm) ↔
        ∃ resolved, resolvePattern context pattern root.cursor.rootPlace .wholeArm scope ordinal 0 =
          .ok resolved ∧
        UnreachableAt context.unions scalar type previous resolved pattern.span s := by
  have hquiet := @resolvePattern_quiet context pattern root.cursor.rootPlace .wholeArm scope
    ordinal 0
  cases hresolved : resolvePattern context pattern root.cursor.rootPlace .wholeArm scope ordinal 0
    with
  | error error =>
    refine ⟨.err error, ?_, fun s => ?_⟩
    · simp only [resolveArm, hresolved]
      exact Settles.err
    · have hordinary := hquiet.of_error hresolved
      constructor
      · intro h
        cases h
        exact absurd rfl hordinary
      · rintro ⟨resolved, h, -⟩
        cases h
  | ok resolved =>
    have hcases : ∀ c ∈ resolved.cases, PatternFits context.unions c.pattern type := by
      intro c hc
      have hfit := (resolvePattern_fits pattern _ _ _ _ _ _ hresolved c hc).pattern
      rwa [hroot] at hfit
    obtain ⟨outcome, hsettles, hiff⟩ := usefulCases_unreachable hd pattern.span hfresh hscope hinh
      hprevious hcases (hquiet.of_ok hresolved).toReports arm
    have hexists : ∀ s, (∃ other, (.ok resolved : Except CheckError ResolvedPattern) = .ok other ∧
        UnreachableAt context.unions scalar type previous other pattern.span s) ↔
        UnreachableAt context.unions scalar type previous resolved pattern.span s := by
      intro s
      constructor
      · rintro ⟨other, hother, h⟩
        cases hother
        exact h
      · exact fun h => ⟨resolved, rfl, h⟩
    simp only [hexists]
    cases outcome with
    | timeout => exact absurd rfl hsettles.1
    | err error =>
      refine ⟨.err error, ?_, fun s => ?_⟩
      · simp only [resolveArm, hresolved, liftM_ok, ok_bind]
        exact hsettles.bind_err _
      · rw [← hiff]
        constructor
        all_goals
          intro h
          cases h
          rfl
    | ok accepted =>
      have hnot : ∀ s, ¬UnreachableAt context.unions scalar type previous resolved pattern.span s :=
        fun s h => by cases (hiff s).mpr h
      refine ⟨.ok ⟨accepted, resolved.scope, resolved.bindings,
        (List.range resolved.bindings.length).map (ordinal + ·)⟩, ?_,
        fun s => ⟨?_, fun h => absurd h (hnot s)⟩⟩
      · simp only [resolveArm, hresolved, liftM_ok, ok_bind]
        exact Settles.bind_ok hsettles Settles.ok
      · intro h
        cases h

end Arm

theorem UnreachableAt.of_covered {resolved : ResolvedPattern} (written : Span)
    (hdeferred : Deferred resolved.checks resolved.pendingFailure)
    (h : CoveredEarlier unions scalar type previous resolved.cases fun _ => True) :
    ∃ s, UnreachableAt unions scalar type previous resolved written s := by
  cases hchecks : resolved.checks with
  | nil =>
    refine ⟨written, .arm (by simp [hchecks]) ?_ h⟩
    by_contra hne
    exact hdeferred.pending hne hchecks
  | cons check rest =>
    have hsplit : resolved.checks = [] ++ check :: rest := hchecks
    exact ⟨check.span, .alternative hsplit (by simp) (h.mono fun _ _ => trivial)⟩

/-! ## All of it -/

/-- **Usefulness is exact**, and so are the rejections made from it, over types
whose parts all have values.  The fuel is only a bound: every answer below is the
answer from some amount on. -/
theorem usefulness_exact {context : ResolutionContext} (hd : DeclarationsValid context.unions)
    (span : Span) (scalar : σ → TypeRef → Prop) :
    -- the recurrence, and the witnesses of an all-wildcard candidate
    (∀ (types : List TypeRef) (columns : List Column) (rows : List PatternRow)
      (candidate : List Pattern), List.Forall₂ (FreshColumn context.unions) types columns →
      RowsFit context.unions types rows →
      List.Forall₂ (PatternFits context.unions) candidate types →
      (∀ type ∈ types, type.InScope context.unions) →
      (∀ type ∈ types, HereditarilyInhabited context.unions scalar type) →
      ∃ answer, Settles (fun n => useful context.unions span n rows candidate columns)
          (.ok answer) ∧
        (answer.isSome = true ↔ Uncovered context.unions scalar types rows candidate) ∧
        (candidate = List.replicate types.length .anything → ∀ witnesses, answer = some witnesses →
          witnesses.length = types.length ∧ ∀ values : List (Value σ),
            List.Forall₂ (Yields (rowLiterals rows)) witnesses values →
              ∀ row ∈ rows, row.matches values = false)) ∧
    -- non-exhaustive matches
    (∀ (type : TypeRef) (root : Column) (rows : List PatternRow),
      prepareSubject context.unions span type = .ok root → RowsFit context.unions [type] rows →
      type.InScope context.unions → HereditarilyInhabited context.unions scalar type →
      ∃ outcome, Settles (fun n => finishSelection context.unions span n rows root) outcome ∧
        ((∃ error : CheckError, outcome = .err error ∧ error.IsNonExhaustive) ↔
          ∃ x : Value σ, HasType context.unions scalar x type ∧
            ∀ row ∈ rows, row.matches [x] = false)) ∧
    -- unreachable arms and alternatives
    (∀ (type : TypeRef) (root : Column) (previous : List PatternRow) (pattern : ParsedPattern)
      (scope : List ScopedValue) (ordinal : Nat) (arm : MatchArmId),
      prepareSubject context.unions span type = .ok root →
      RowsFit context.unions [type] previous → type.InScope context.unions →
      HereditarilyInhabited context.unions scalar type →
      ∃ outcome, Settles
          (fun n => resolveArm context n pattern root scope ordinal arm previous) outcome ∧
        (∀ s, outcome = .err (matchError s .unreachableArm) ↔
          ∃ resolved, resolvePattern context pattern root.cursor.rootPlace .wholeArm scope ordinal
              0 = .ok resolved ∧
            UnreachableAt context.unions scalar type previous resolved pattern.span s) ∧
        ∀ resolved, resolvePattern context pattern root.cursor.rootPlace .wholeArm scope ordinal 0 =
            .ok resolved →
          CoveredEarlier context.unions scalar type previous resolved.cases (fun _ => True) →
          ∃ s, outcome = .err (matchError s .unreachableArm)) := by
  refine ⟨?_, ?_, ?_⟩
  · intro types columns rows candidate hcols hrows hcand hscope hinh
    obtain ⟨answer, hsettles, hiff⟩ := useful_settles_exactly hd span hcols hrows hcand hscope hinh
    refine ⟨answer, hsettles, hiff, ?_⟩
    rintro rfl witnesses rfl
    obtain ⟨-, n, hn⟩ := hsettles
    obtain ⟨hlen, hnone⟩ := @useful_witnesses_uncovered σ _ span hd (rowLiterals rows) n rows
      columns types witnesses hcols hrows (fun _ h => h) (hn n (Nat.le_refl n))
    exact ⟨hlen, fun values hv => (chosen_eq_none_iff rows values).mp (hnone values hv)⟩
  · intro type root rows hroot hrows hscope hinh
    exact finishSelection_rejects hd span hroot hrows hscope hinh
  · intro type root previous pattern scope ordinal arm hroot hprevious hscope hinh
    have hplace : root.cursor.rootPlace = .mk type .matchRoot := by
      rw [(column_spec hroot).1]
      rfl
    obtain ⟨outcome, hsettles, hiff⟩ := resolveArm_unreachable hd (prepareSubject_fresh hroot)
      hscope hinh hplace hprevious pattern scope ordinal arm
    refine ⟨outcome, hsettles, hiff, fun resolved hresolved hcovered => ?_⟩
    obtain ⟨s, hs⟩ := UnreachableAt.of_covered pattern.span
      ((resolvePattern_quiet pattern _ _ _ _ _).of_ok hresolved) hcovered
    exact ⟨s, (hiff s).mpr ⟨resolved, hresolved, hs⟩⟩

/-! On the batches of `MatchCompilation`: every part of the type has a value. -/

theorem batch_inhabited :
    HereditarilyInhabited batchUnions (fun (_ : Unit) _ => False) (unionType 0 []) := by
  have hparts : ∀ source part, Reaches batchUnions source part →
      source = unionType 0 [] ∨ source = .listType .intType ∨ source = .intType →
      part = unionType 0 [] ∨ part = .listType .intType ∨ part = .intType := by
    intro source part hreach
    induction hreach with
    | refl type => exact fun h => h
    | step fits mem _ ih =>
      intro hsource
      refine ih ?_
      rcases hsource with rfl | rfl | rfl
      · cases fits with
        | union declared =>
          obtain ⟨declaration, variant, uses, hfound, hv, -, huses, rfl⟩ := declared
          cases hfound
          simp only [List.mem_cons, List.not_mem_nil, or_false] at hv
          rcases hv with rfl | rfl
          · cases huses
            simp at mem
          · cases huses
            exact .inr (.inl (List.mem_singleton.mp mem))
      · cases fits with
        | nil => simp at mem
        | cons =>
          simp only [List.mem_cons, List.not_mem_nil, or_false] at mem
          rcases mem with rfl | rfl
          · exact .inr (.inr rfl)
          · exact .inr (.inl rfl)
      · cases fits
        simp at mem
  intro part hreach
  rcases hparts _ _ hreach (.inl rfl) with rfl | rfl | rfl
  · exact ⟨_, batchValue_typed⟩
  · exact ⟨.list [], .list (by simp)⟩
  · exact ⟨_, .int 0⟩

theorem batch_inScope : (unionType 0 []).InScope batchUnions := by
  refine ⟨fun id hid => ?_, trivial⟩
  cases hid
  exact ⟨_, rfl, rfl⟩

def batchContext : ResolutionContext :=
  ⟨0, ⟨fun _ _ => none, fun _ _ => none, fun _ _ => .error .unknownName⟩, .declaredBody 0,
    batchUnions⟩

/-- Dropping the last arm leaves out `Many` of any list that does not start with 3. -/
theorem usefulness_exact_batch :
    ∃ outcome, Settles (fun n => finishSelection batchUnions compilerSpan n (batchRows.take 2)
        ⟨.valueCursor (.mk (unionType 0 []) .matchRoot),
          .closedDomain [.unionHead ⟨0, 0⟩ [], .unionHead ⟨0, 1⟩ [.listType .intType]]⟩) outcome ∧
      ∃ error : CheckError, outcome = .err error ∧ error.IsNonExhaustive := by
  have hrows : RowsFit batchUnions [unionType 0 []] (batchRows.take 2) :=
    RowFits.rowsFit fun row hrow => batchRows_fit row (List.mem_of_mem_take hrow)
  obtain ⟨outcome, hsettles, hiff⟩ := (@usefulness_exact Unit batchContext batchUnions_valid
    compilerSpan fun _ _ => False).2.1 (unionType 0 []) _ (batchRows.take 2) rfl hrows
    batch_inScope batch_inhabited
  refine ⟨outcome, hsettles, hiff.mpr ⟨.variant ⟨0, 1⟩ [.list []],
    .variant batchUnions_many (.cons (.list (by simp)) .nil), ?_⟩⟩
  decide

/-! ## Keeping an unreachable case

`usefulCases` keeps an unreachable case among the rows, and an arm reached by another case
hands it on to the later arms and the exhaustiveness check.  -/

section

variable {unions : List CheckedUnion} {scalar : σ → TypeRef → Prop} {types : List TypeRef}
  {before after : List PatternRow} {row : PatternRow} {candidate : List Pattern}

theorem Uncovered.drop (hrow : ¬Uncovered unions scalar types before row.patterns) :
    Uncovered unions scalar types (before ++ row :: after) candidate ↔
      Uncovered unions scalar types (before ++ after) candidate := by
  simp only [Uncovered, List.forall_mem_append, List.forall_mem_cons]
  constructor
  · rintro ⟨values, htyped, hmatch, hbefore, -, hafter⟩
    exact ⟨values, htyped, hmatch, hbefore, hafter⟩
  · rintro ⟨values, htyped, hmatch, hbefore, hafter⟩
    -- a value of the row that no row before it takes would make the row reachable
    have hno : row.matches values = false :=
      Bool.eq_false_of_not_eq_true fun hyes => hrow ⟨values, htyped, hyes, hbefore⟩
    exact ⟨values, htyped, hmatch, hbefore, hno, hafter⟩

/-- **An unreachable row never matters.**  With or without it, a later row, or the wildcard of the
exhaustiveness check, is useful alike. -/
theorem useful_ignores_unreachable (hd : DeclarationsValid unions) (span : Span)
    {columns : List Column} (hcols : List.Forall₂ (FreshColumn unions) types columns)
    (hrows : RowsFit unions types (before ++ row :: after))
    (hcand : List.Forall₂ (PatternFits unions) candidate types)
    (hscope : ∀ type ∈ types, type.InScope unions)
    (hinh : ∀ type ∈ types, HereditarilyInhabited unions scalar type)
    (hunreachable : Settles (fun n => useful unions span n before row.patterns columns)
      (.ok none)) :
    ∃ full rest,
      Settles (fun n => useful unions span n (before ++ row :: after) candidate columns)
        (.ok full) ∧
      Settles (fun n => useful unions span n (before ++ after) candidate columns) (.ok rest) ∧
      full.isSome = rest.isSome := by
  obtain ⟨hbefore, hrow, hafter⟩ := by
    simpa only [RowsFit, List.forall_mem_append, List.forall_mem_cons] using hrows
  obtain ⟨answer, hanswer, hreached⟩ :=
    useful_settles_exactly hd span hcols hbefore hrow hscope hinh
  cases hanswer.unique hunreachable
  obtain ⟨full, hfull, hfulliff⟩ := useful_settles_exactly hd span hcols hrows hcand hscope hinh
  obtain ⟨rest, hrest, hrestiff⟩ := useful_settles_exactly hd span hcols
    (List.forall_mem_append.mpr ⟨hbefore, hafter⟩) hcand hscope hinh
  refine ⟨full, rest, hfull, hrest, Bool.eq_iff_iff.mpr ?_⟩
  rw [hfulliff, hrestiff]
  exact Uncovered.drop fun h => by simpa using hreached.mpr h

end

/-- A second row on `Empty`. -/
theorem useful_ignores_unreachable_batch :
    let root : Column := ⟨.valueCursor (.mk (unionType 0 []) .matchRoot),
      .closedDomain [.unionHead ⟨0, 0⟩ [], .unionHead ⟨0, 1⟩ [.listType .intType]]⟩
    ∃ full rest, Settles (fun n => useful batchUnions compilerSpan n
        (batchRows.take 1 ++ batchRows) [.anything] [root]) (.ok full) ∧
      Settles (fun n => useful batchUnions compilerSpan n batchRows [.anything] [root])
        (.ok rest) ∧ full.isSome = rest.isSome := by
  have hcols := List.Forall₂.cons (prepareSubject_fresh (rfl : prepareSubject batchUnions
    compilerSpan (unionType 0 []) = .ok _)) .nil
  have hfits := RowFits.rowsFit batchRows_fit
  have hfirst : RowsFit batchUnions _ (batchRows.take 1) :=
    fun row hrow => hfits row (List.mem_of_mem_take hrow)
  have hscope := List.forall_mem_singleton.mpr batch_inScope
  have hinh := List.forall_mem_singleton.mpr batch_inhabited
  obtain ⟨answer, hanswer, hreached⟩ := useful_settles_exactly batchUnions_valid compilerSpan
    hcols hfirst (hfits _ List.mem_cons_self) hscope hinh
  cases answer with
  | none =>
    exact useful_ignores_unreachable batchUnions_valid compilerSpan hcols
      (List.forall_mem_append.mpr ⟨hfirst, hfits⟩) (.cons (.anything _) .nil) hscope hinh hanswer
  | some missing =>
    obtain ⟨values, -, hmatch, hno⟩ := hreached.mp rfl
    cases hmatch.symm.trans (hno _ List.mem_cons_self)

/-! ## Uninhabited payloads

    union Endless: Again(Endless)
    union Choice: Done; More(Endless)

`Choice` has one value, `Done`, and a match on `Done` alone covers it; the matrix
still asks for `More`. -/

def endlessUnions : List CheckedUnion :=
  let endless : TypeUse := ⟨unionType 0 [], compilerSpan⟩
  [⟨0, [], [⟨⟨0, 0⟩, ⟨0, compilerSpan⟩, [endless]⟩]⟩,
    ⟨1, [], [⟨⟨1, 0⟩, ⟨1, compilerSpan⟩, []⟩, ⟨⟨1, 1⟩, ⟨2, compilerSpan⟩, [endless]⟩]⟩]

def endlessRows : List PatternRow := [⟨0, [.variantPattern ⟨1, 0⟩ []], []⟩]

theorem endlessUnions_valid : DeclarationsValid endlessUnions := by
  constructor
  · intro owner declaration ho position variant hv
    match owner with
    | 0 =>
      cases ho
      match position with
      | 0 => cases hv; rfl
      | n + 1 => simp at hv
    | 1 =>
      cases ho
      match position with
      | 0 => cases hv; rfl
      | 1 => cases hv; rfl
      | n + 2 => simp at hv
    | n + 2 => simp [endlessUnions] at ho
  · have hendless : ∀ bound, (unionType 0 []).Valid endlessUnions bound := by
      refine fun bound => ⟨fun id hid => ?_, trivial⟩
      cases hid
      exact ⟨_, rfl, rfl⟩
    intro owner declaration ho variant hv field hf
    match owner with
    | 0 =>
      cases ho
      obtain rfl := List.mem_singleton.mp hv
      obtain rfl := List.mem_singleton.mp hf
      exact hendless _
    | 1 =>
      cases ho
      simp only [List.mem_cons, List.not_mem_nil, or_false] at hv
      rcases hv with rfl | rfl
      · cases hf
      · obtain rfl := List.mem_singleton.mp hf
        exact hendless _
    | n + 2 => simp [endlessUnions] at ho

/-- A value of `Endless` would contain a smaller one. -/
theorem endless_uninhabited (scalar : σ → TypeRef → Prop) : ∀ (size : Nat) (x : Value σ),
    sizeOf x ≤ size → ¬HasType endlessUnions scalar x (unionType 0 []) := by
  intro size
  induction size with
  | zero => intro x hsize; cases x <;> simp at hsize
  | succ size ih =>
    intro x hsize h
    cases h with
    | variant declared typed =>
      obtain ⟨declaration, variant, uses, hfound, hv, rfl, huses, rfl⟩ := declared
      cases hfound
      obtain rfl := List.mem_singleton.mp hv
      cases huses
      cases typed with
      | cons hy _ =>
        refine ih _ ?_ hy
        simp at hsize
        omega
    | scalar isScalar => cases isScalar

/-- **A field without values still counts.**  The column's type is inhabited and the
rows cover its every value, but `useful` answers that something is missing. -/
theorem useful_counts_uninhabited_payload :
    DeclarationsValid endlessUnions ∧ RowsFit endlessUnions [unionType 1 []] endlessRows ∧
      (∃ x : Value Unit, HasType endlessUnions (fun _ _ => False) x (unionType 1 [])) ∧
      ∃ root, prepareSubject endlessUnions compilerSpan (unionType 1 []) = .ok root ∧
        ¬((∃ n witnesses, useful endlessUnions compilerSpan n endlessRows [.anything] [root] =
            .ok (some witnesses)) ↔
          Uncovered endlessUnions (fun (_ : Unit) _ => False) [unionType 1 []] endlessRows
            [.anything]) := by
  have hdone : DeclaredAt endlessUnions ⟨1, []⟩ ⟨1, 0⟩ [] :=
    ⟨_, _, [], rfl, List.mem_cons_self, rfl, rfl, rfl⟩
  refine ⟨endlessUnions_valid, ?_, ⟨.variant ⟨1, 0⟩ [], .variant hdone .nil⟩, _, rfl, fun h => ?_⟩
  · intro row hrow
    obtain rfl := List.mem_singleton.mp hrow
    exact .cons (.variant hdone .nil) .nil
  · obtain ⟨values, htyped, -, hnone⟩ := h.mp ⟨9, _, rfl⟩
    cases htyped with
    | @cons x _ _ _ hx hrest =>
      cases hrest
      cases hx with
      | variant declared typed =>
        obtain ⟨declaration, variant, uses, hfound, hv, rfl, huses, rfl⟩ := declared
        cases hfound
        simp only [List.mem_cons, List.not_mem_nil, or_false] at hv
        rcases hv with rfl | rfl
        · cases huses
          cases typed
          have := hnone _ List.mem_cons_self
          revert this
          decide
        · cases huses
          cases typed with
          | cons hy _ => exact endless_uninhabited _ _ _ (Nat.le_refl _) hy
      | scalar isScalar => cases isScalar

end Blorp.Check
