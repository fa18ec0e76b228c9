import Blorp.Check.Exactness

/-!
# What a match is rejected for

`finishSelection` rejects a match as non-exhaustive exactly when some value of the
subject matches no row, and `resolveArm` reports an arm or an alternative
unreachable exactly when every value it matches is matched by an earlier row.
Every other error has another kind: a failed lookup of a type the checker already
accepted is an internal invariant, and resolution reports what is written wrong.
-/

namespace Blorp.Check

open Fuel Outcome

variable {σ : Type}

/-! ## Errors of the compiler itself -/

def CheckError.IsInvariant (error : CheckError) : Prop :=
  ∃ invariant, error.kind = .internalInvariant invariant

def CheckError.IsNonExhaustive (error : CheckError) : Prop :=
  (∃ missing, error.kind = .matchRejection (.nonExhaustiveMatch missing)) ∨
    ∃ witness, error.kind = .matchRejection (.nonExhaustiveStructuralMatch witness)

theorem CheckError.IsInvariant.not_nonExhaustive {error : CheckError} (h : error.IsInvariant) :
    ¬error.IsNonExhaustive := by
  obtain ⟨invariant, hi⟩ := h
  rintro (⟨missing, hm⟩ | ⟨witness, hm⟩)
  · rw [hi] at hm; cases hm
  · rw [hi] at hm; cases hm

theorem orCheckerInvariant_errorsIn {α : Type} (value : Option α) (span : Span)
    (invariant : CheckerInvariant) :
    Except.ErrorsIn CheckError.IsInvariant (orCheckerInvariant value span invariant) := by
  cases value with
  | some present => exact trivial
  | none => exact ⟨invariant, rfl⟩

mutual

theorem substituteType_errorsIn (substitution : Substitution) (span : Span) : ∀ type : TypeRef,
    Except.ErrorsIn CheckError.IsInvariant (substituteType substitution span type)
  | .voidType => trivial
  | .intType => trivial
  | .floatType => trivial
  | .stringType => trivial
  | .listType element => (substituteType_errorsIn substitution span element).bind fun _ _ => trivial
  | .tupleType elements =>
      (substituteTypes_errorsIn substitution span elements).bind fun _ _ => trivial
  | .nominalType _ values =>
      (substituteTypes_errorsIn substitution span values).bind fun _ _ => trivial
  | .parameterType _ => orCheckerInvariant_errorsIn _ span _
  | .callableType _ parameters result =>
      (substituteTypes_errorsIn substitution span parameters).bind fun _ _ =>
        (substituteType_errorsIn substitution span result).bind fun _ _ => trivial

theorem substituteTypes_errorsIn (substitution : Substitution) (span : Span) :
    ∀ types : List TypeRef,
      Except.ErrorsIn CheckError.IsInvariant (substituteTypes substitution span types)
  | [] => trivial
  | type :: types =>
      (substituteType_errorsIn substitution span type).bind fun _ _ =>
        (substituteTypes_errorsIn substitution span types).bind fun _ _ => trivial

end

theorem occurrenceFields_errorsIn (fields : List TypeUse) (occurrence : UnionOccurrence) :
    Except.ErrorsIn CheckError.IsInvariant (occurrenceFields fields occurrence) :=
  Except.ErrorsIn.mapM fun written _ =>
    (substituteType_errorsIn _ written.span written.valueType).bind fun _ _ => trivial

section

variable (unions : List CheckedUnion)

include unions

theorem column_errorsIn (span : Span) (place : CheckedPatternPlace) (cursor : PatternCursor) :
    Except.ErrorsIn CheckError.IsInvariant (column unions span place cursor) := by
  unfold column
  split
  · refine (orCheckerInvariant_errorsIn _ span _).bind fun declaration _ => ?_
    refine Except.Meets.bind (Except.ErrorsIn.mapM fun variant _ => ?_) fun _ _ =>
      trivial
    exact (occurrenceFields_errorsIn _ _).bind fun _ _ => trivial
  · exact trivial

theorem fieldColumnsFrom_errorsIn (span : Span) (route : Nat → CheckedPatternRoute) :
    ∀ (types : List TypeRef) (ordinal : Nat),
    Except.ErrorsIn CheckError.IsInvariant (fieldColumnsFrom unions span route ordinal types) := by
  intro types
  induction types with
  | nil => intro ordinal; exact trivial
  | cons type types ih =>
    intro ordinal
    exact (column_errorsIn unions span _ _).bind fun _ _ =>
      (ih (ordinal + 1)).bind fun _ _ => trivial

theorem childColumns_errorsIn (span : Span) (parent : Column) (head : Head) :
    Except.ErrorsIn CheckError.IsInvariant (childColumns unions span parent head) := by
  cases head with
  | unionHead id fields => exact fieldColumnsFrom_errorsIn unions span _ fields 0
  | tupleHead fields => exact fieldColumnsFrom_errorsIn unions span _ fields 0
  | consHead element => exact (column_errorsIn unions span _ _).bind fun _ _ => trivial
  | nilHead => exact trivial
  | literalHead literal => exact trivial

theorem compileRows_errorsIn (span : Span) :
    ∀ (fuel : Nat) (rows : List PatternRow) (columns : List Column)
      (nodes : List CheckedDecisionNode),
      ErrorsIn CheckError.IsInvariant (compileRows unions span fuel rows columns nodes) := by
  intro fuel
  induction fuel with
  | zero => intro _ _ _; exact ErrorsIn.timeout
  | succ fuel ih =>
    intro rows columns nodes
    refine ErrorsIn.bind (ErrorsIn.liftM (orCheckerInvariant_errorsIn _ span _)) fun first _ => ?_
    split
    · exact ErrorsIn.ok _
    refine ErrorsIn.bind (ErrorsIn.liftM (orCheckerInvariant_errorsIn _ span _)) fun current _ => ?_
    refine ErrorsIn.bind (ErrorsIn.liftM (orCheckerInvariant_errorsIn _ span _)) fun pattern _ => ?_
    refine ErrorsIn.bind (ErrorsIn.liftM (orCheckerInvariant_errorsIn _ span _)) fun head _ => ?_
    refine ErrorsIn.bind (ErrorsIn.liftM (childColumns_errorsIn unions span _ head)) fun fields _ => ?_
    split
    · exact ih _ _ _
    · refine ErrorsIn.bind (ih _ _ _) fun no _ => ErrorsIn.bind (ih _ _ _) fun yes _ => ?_
      refine ErrorsIn.bind (ErrorsIn.liftM ?_) fun test _ => ErrorsIn.ok _
      cases head with
      | tupleHead fields => exact ⟨_, rfl⟩
      | _ => trivial

end

/-! ## A match that misses a value -/

section Missing

variable {unions : List CheckedUnion} (hd : DeclarationsValid unions) (span : Span)
variable {type : TypeRef} {root : Column} {rows : List PatternRow}

include hd

theorem usefulHead_settles_ok {head : Head} {parts : List TypeRef}
    (hfresh : FreshColumn unions type root) (hrows : RowsFit unions [type] rows)
    (hscope : type.InScope unions) (hfits : HeadFits unions type head parts) :
    ∃ answer, Settles (fun n => usefulHead unions span (useful unions span n) rows
      (List.replicate head.arity .anything) root [] head) (.ok answer) := by
  have hends : ∃ outcome, Settles (fun n => usefulHead unions span (useful unions span n) rows
      (List.replicate head.arity .anything) root [] head) outcome :=
    usefulHead_settles fun fields => useful_settles unions span _ _ _
  obtain ⟨outcome, hsettles⟩ := hends
  obtain ⟨answer, rfl⟩ := hsettles.ok_of_errorsIn fun n => by
    refine usefulHead_errorsIn (childColumns_inScope hd span hfits hscope) fun fields hf => ?_
    refine useful_errorsIn hd n _ _ _ (parts ++ [])
      (List.rel_append (childColumns_fresh hfresh.1 hfits hf) .nil) (hrows.specialize hd hfits) ?_ ?_
    · rw [List.append_nil, ← hfits.arity]
      exact replicate_anything_fits unions parts
    · rw [List.append_nil]
      exact hfits.inScope hd hscope
  exact ⟨answer, hsettles⟩

theorem missingFinite_settles (hfresh : FreshColumn unions type root)
    (hrows : RowsFit unions [type] rows) (hscope : type.InScope unions) :
    ∀ (heads : List Head) (missing : List VariantId) (flat : Bool),
      (∀ head ∈ heads, ∃ parts, HeadFits unions type head parts) →
      ∃ found, Settles (fun n => missingFinite unions span n rows root heads missing flat)
        (.ok found) := by
  intro heads
  induction heads with
  | nil => intro missing flat _; exact ⟨_, Settles.ok⟩
  | cons head heads ih =>
    intro missing flat hheads
    have hrest : ∀ missing flat, ∃ found, Settles
        (fun n => missingFinite unions span n rows root heads missing flat) (.ok found) :=
      fun missing flat => ih missing flat fun head hm => hheads head (List.mem_cons_of_mem _ hm)
    cases head with
    | unionHead id fields =>
      obtain ⟨parts, hfits⟩ := hheads (.unionHead id fields) List.mem_cons_self
      obtain ⟨answer, hanswer⟩ := usefulHead_settles_ok hd span hfresh hrows hscope hfits
      refine Exists.imp (fun found hfound => Settles.bind_ok hanswer hfound) ?_
      cases answer with
      | none => exact hrest missing flat
      | some witness =>
        by_cases hempty : (specializeRows rows (.unionHead id fields)).isEmpty = true
        · simp only [hempty, if_true]
          exact hrest (missing ++ [id]) flat
        · simp only [hempty]
          exact hrest missing false
    | tupleHead fields | nilHead | consHead element | literalHead literal =>
      exact hrest missing false

theorem rejectMissing_settles (hfresh : FreshColumn unions type root)
    (hrows : RowsFit unions [type] rows) (hscope : type.InScope unions)
    {witnesses : List PatternWitness} (hlen : witnesses.length = 1) :
    ∃ error : CheckError, error.IsNonExhaustive ∧
      Settles (fun n => rejectMissing unions span n rows root witnesses) (.err error) := by
  obtain ⟨witness, rfl⟩ := List.length_eq_one_iff.mp hlen
  have hmissing : ∃ error : CheckError, error.IsNonExhaustive ∧
      Settles (fun n => missingError unions span n rows root witness) (.ok error) := by
    unfold missingError
    cases hdom : root.domain with
    | openDomain => exact ⟨_, .inr ⟨witness, rfl⟩, Settles.ok⟩
    | scalarDomain => exact ⟨_, .inr ⟨witness, rfl⟩, Settles.ok⟩
    | closedDomain heads =>
      have hfull := hfresh.2
      rw [hdom] at hfull
      obtain ⟨⟨missing, flat⟩, hfound⟩ := missingFinite_settles hd span hfresh hrows hscope heads []
        true fun head hm => hfull.head_fits hm
      cases flat with
      | true => exact ⟨_, .inl ⟨missing, rfl⟩, Settles.bind_ok hfound Settles.ok⟩
      | false => exact ⟨_, .inr ⟨witness, rfl⟩, Settles.bind_ok hfound Settles.ok⟩
  obtain ⟨error, hkind, hsettles⟩ := hmissing
  refine ⟨error, hkind, ?_⟩
  have hreject : Settles (fun n => missingError unions span n rows root witness >>= fun error =>
      (.err error : SelectionResult)) (.err error) :=
    Settles.bind_ok hsettles Settles.err
  exact hreject

/-- **A match is rejected as non-exhaustive exactly when it misses a value.** -/
theorem finishSelection_rejects {scalar : σ → TypeRef → Prop}
    (hroot : prepareSubject unions span type = .ok root) (hrows : RowsFit unions [type] rows)
    (hscope : type.InScope unions) (hinh : HereditarilyInhabited unions scalar type) :
    ∃ outcome, Settles (fun n => finishSelection unions span n rows root) outcome ∧
      ((∃ error : CheckError, outcome = .err error ∧ error.IsNonExhaustive) ↔
        ∃ x : Value σ, HasType unions scalar x type ∧ ∀ row ∈ rows, row.matches [x] = false) := by
  have hfresh := prepareSubject_fresh hroot
  have hcols : List.Forall₂ (FreshColumn unions) [type] [root] := .cons hfresh .nil
  obtain ⟨answer, hsettles, hiff⟩ := useful_settles_exactly hd span hcols hrows
    (.cons (.anything type) .nil) (by simpa using hscope) (by simpa using hinh)
  have hone : Uncovered unions scalar [type] rows [.anything] ↔
      ∃ x : Value σ, HasType unions scalar x type ∧ ∀ row ∈ rows, row.matches [x] = false := by
    constructor
    · rintro ⟨values, htyped, -, hnone⟩
      cases htyped with
      | cons hx hrest => cases hrest; exact ⟨_, hx, hnone⟩
    · rintro ⟨x, hx, hnone⟩
      exact ⟨[x], .cons hx .nil, rfl, hnone⟩
  rw [← hone, ← hiff]
  cases answer with
  | some witnesses =>
    obtain ⟨-, n, hn⟩ := id hsettles
    have hlen := (@useful_witnesses_uncovered σ _ span hd (rowLiterals rows) n rows [root] [type]
      witnesses hcols hrows (fun _ h => h) (hn n (Nat.le_refl n))).1
    obtain ⟨error, hkind, hreject⟩ := rejectMissing_settles hd span hfresh hrows hscope hlen
    exact ⟨.err error, Settles.bind_ok hsettles hreject, fun _ => rfl, fun _ => ⟨error, rfl, hkind⟩⟩
  | none =>
    obtain ⟨outcome, hcompile⟩ := compileRows_settles unions span rows [root] []
    refine ⟨outcome, Settles.bind_ok hsettles hcompile, ?_, fun h => by simp at h⟩
    rintro ⟨error, rfl, hkind⟩
    obtain ⟨-, n, hn⟩ := hcompile
    have := compileRows_errorsIn unions span n rows [root] [] error (hn n (Nat.le_refl n))
    exact absurd hkind this.not_nonExhaustive

end Missing

end Blorp.Check
