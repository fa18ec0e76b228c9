import Blorp.Check.MatrixTermination
import Blorp.Check.Witnesses
import Blorp.Check.MatchCompilation

/-!
# Usefulness answers, and answers exactly

On typed rows over types of the program `useful` ends with an answer, and the
answer says whether some typed value vector is matched by the candidate and by no
row:

    InScope columns  →  useful … settles at `ok answer`
    answer = some _  ↔  some typed vector matches the candidate and no row

The right-hand side needs every type inside the columns to have a value
(`HereditarilyInhabited`): a variant with an uninhabited field counts as missing
for the matrix, and has no value.
-/

namespace Blorp.Check

open Fuel Outcome

variable {σ : Type}

/-! ## Columns of types in scope exist -/

variable {unions : List CheckedUnion}

section

variable (hd : DeclarationsValid unions)

include hd

theorem occurrenceFields_inScope {owner : UnionId} {arguments : List TypeRef}
    {declaration : CheckedUnion} (htype : (unionType owner arguments).InScope unions)
    (hfound : unions[owner]? = some declaration) {variant : CheckedVariant}
    (hv : variant ∈ declaration.variants) :
    ∃ uses, occurrenceFields variant.fields ⟨owner, arguments⟩ = .ok uses ∧
      ∀ type ∈ uses.map TypeUse.valueType, type.InScope unions := by
  obtain ⟨hdecl, hargs⟩ := htype
  obtain ⟨d, hd', hlen⟩ := hdecl owner rfl
  rw [hfound] at hd'
  cases hd'
  have hfields := hd.fields owner declaration hfound variant hv
  unfold occurrenceFields
  generalize variant.fields = fields at hfields
  induction fields with
  | nil => exact ⟨[], rfl, by simp⟩
  | cons field fields ih =>
    obtain ⟨value, hvalue, hok⟩ := substituteType_valid field.span hlen hargs field.valueType
      (hfields field List.mem_cons_self)
    obtain ⟨uses, huses, hin⟩ := ih fun f hf => hfields f (List.mem_cons_of_mem _ hf)
    refine ⟨{ field with valueType := value } :: uses, ?_, ?_⟩
    · rw [List.mapM_eq_ok_iff] at huses ⊢
      refine .cons ?_ huses
      rw [hvalue]
      rfl
    · intro type hmem
      simp only [List.map_cons, List.mem_cons] at hmem
      rcases hmem with rfl | hmem
      · exact hok
      · exact hin type hmem

theorem column_inScope (span : Span) (place : CheckedPatternPlace) (cursor : PatternCursor)
    (h : place.valueType.InScope unions) : ∃ c, column unions span place cursor = .ok c := by
  unfold column
  split
  · next occurrence hocc =>
    have htype := TypeRef.unionOccurrence_some hocc
    rw [htype] at h
    obtain ⟨declaration, hfound, -⟩ := h.1 _ rfl
    have hheads : ∃ heads, unionHeads declaration.variants occurrence = .ok heads := by
      have hall : ∀ variant ∈ declaration.variants, ∃ head, variantHead occurrence variant = .ok head := by
        intro variant hv
        obtain ⟨uses, huses, -⟩ := occurrenceFields_inScope hd h hfound hv
        exact ⟨_, variantHead_eq_ok.mpr ⟨uses, huses, rfl⟩⟩
      unfold unionHeads
      generalize declaration.variants = variants at hall
      induction variants with
      | nil => exact ⟨[], rfl⟩
      | cons variant variants ih =>
        obtain ⟨head, hhead⟩ := hall variant List.mem_cons_self
        obtain ⟨heads, hheads⟩ := ih fun v hv => hall v (List.mem_cons_of_mem _ hv)
        exact ⟨head :: heads, List.mapM_eq_ok_iff.mpr (.cons hhead (List.mapM_eq_ok_iff.mp hheads))⟩
    obtain ⟨heads, hheads⟩ := hheads
    refine ⟨⟨cursor, .closedDomain heads⟩, ?_⟩
    unfold unionColumn
    rw [hfound]
    exact Except.bind_eq_ok.mpr ⟨declaration, rfl, Except.bind_eq_ok.mpr ⟨heads, hheads, rfl⟩⟩
  · exact ⟨_, rfl⟩

theorem fieldColumnsFrom_inScope (span : Span) (route : Nat → CheckedPatternRoute) :
    ∀ (types : List TypeRef) (ordinal : Nat),
    (∀ type ∈ types, type.InScope unions) →
    ∃ columns, fieldColumnsFrom unions span route ordinal types = .ok columns := by
  intro types
  induction types with
  | nil => intro ordinal _; exact ⟨[], rfl⟩
  | cons type types ih =>
    intro ordinal h
    obtain ⟨child, hchild⟩ := column_inScope hd span (.mk type (route ordinal))
      (.valueCursor (.mk type (route ordinal))) (h type List.mem_cons_self)
    obtain ⟨columns, hcolumns⟩ := ih (ordinal + 1) fun t ht => h t (List.mem_cons_of_mem _ ht)
    refine ⟨child :: columns, ?_⟩
    exact Except.bind_eq_ok.mpr ⟨child, hchild, Except.bind_eq_ok.mpr ⟨columns, hcolumns, rfl⟩⟩

theorem HeadFits.inScope {type : TypeRef} {head : Head} {parts : List TypeRef}
    (hhead : HeadFits unions type head parts) (h : type.InScope unions) :
    ∀ part ∈ parts, part.InScope unions := by
  cases hhead with
  | @union owner arguments id types declared =>
    obtain ⟨declaration, variant, uses, hfound, hv, -, huses, rfl⟩ := declared
    obtain ⟨uses', huses', hin⟩ := occurrenceFields_inScope hd h hfound hv
    rw [huses] at huses'
    cases huses'
    exact hin
  | tuple types => exact allValid_iff.mp h
  | nil element => simp
  | cons element =>
    intro part hmem
    simp only [List.mem_cons, List.not_mem_nil, or_false] at hmem
    rcases hmem with rfl | rfl
    · exact h
    · exact h
  | bytes text => simp
  | int value => simp

theorem childColumns_inScope (span : Span) {current : Column} {type : TypeRef} {head : Head}
    {parts : List TypeRef} (hhead : HeadFits unions type head parts) (h : type.InScope unions) :
    ∃ columns, childColumns unions span current head = .ok columns := by
  have hparts := hhead.inScope hd h
  cases hhead with
  | union declared => exact fieldColumnsFrom_inScope hd span _ _ 0 hparts
  | tuple types => exact fieldColumnsFrom_inScope hd span _ _ 0 hparts
  | nil element => exact ⟨[], rfl⟩
  | cons element =>
    obtain ⟨first, hfirst⟩ := column_inScope hd span
      (.mk element (.listElement current.cursor.rootPlace current.cursor.listSkip))
      (.valueCursor (.mk element (.listElement current.cursor.rootPlace current.cursor.listSkip))) h
    exact ⟨_, Except.bind_eq_ok.mpr ⟨first, hfirst, rfl⟩⟩
  | bytes text => exact ⟨[], rfl⟩
  | int value => exact ⟨[], rfl⟩

end

/-! ## No invariant of the checker is hit -/

section Errors

variable {unions : List CheckedUnion} {span : Span}
variable {self : List PatternRow → List Pattern → List Column → UsefulResult}

variable {P : CheckError → Prop} {rows : List PatternRow}

theorem option_errorsIn {x : UsefulResult} (hx : ErrorsIn P x)
    (f : List PatternWitness → List PatternWitness) :
    ErrorsIn P (do match ← x with
      | some witness => return some (f witness)
      | none => return none : UsefulResult) := by
  refine ErrorsIn.bind hx fun answer _ => ?_
  cases answer with
  | none => exact ErrorsIn.ok none
  | some witness => exact ErrorsIn.ok _

theorem usefulHead_errorsIn {candidate : List Pattern} {current : Column} {following : List Column}
    {head : Head} (hchild : ∃ fields, childColumns unions span current head = .ok fields)
    (h : ∀ fields, childColumns unions span current head = .ok fields →
      ErrorsIn P (self (specializeRows rows head) candidate (fields ++ following))) :
    ErrorsIn P (usefulHead unions span self rows candidate current following head) := by
  obtain ⟨fields, hf⟩ := hchild
  unfold usefulHead
  rw [hf]
  exact option_errorsIn (h fields hf) _

theorem usefulClosed_errorsIn {rest : List Pattern} {current : Column} {following : List Column} :
    ∀ {heads : List Head},
    (∀ head ∈ heads, ErrorsIn P (usefulHead unions span self rows
      (List.replicate head.arity .anything ++ rest) current following head)) →
    ErrorsIn P (usefulClosed unions span self rows rest current following heads) := by
  intro heads
  induction heads with
  | nil => intro _; exact ErrorsIn.ok none
  | cons head heads ih =>
    intro h
    unfold usefulClosed
    refine ErrorsIn.bind (h head List.mem_cons_self) fun answer _ => ?_
    cases answer with
    | some witness => exact ErrorsIn.ok _
    | none => exact ih fun head' hm => h head' (List.mem_cons_of_mem _ hm)

end Errors

variable {unions : List CheckedUnion}

/-- **Typed matrices raise no error.** -/
theorem useful_errorsIn {span : Span} (hd : DeclarationsValid unions) :
    ∀ (fuel : Nat) (rows : List PatternRow) (candidate : List Pattern) (columns : List Column)
      (types : List TypeRef), List.Forall₂ (FreshColumn unions) types columns →
      RowsFit unions types rows → List.Forall₂ (PatternFits unions) candidate types →
      (∀ type ∈ types, type.InScope unions) →
      ErrorsIn (fun _ => False) (useful unions span fuel rows candidate columns) := by
  intro fuel
  induction fuel with
  | zero => intro _ _ _ _ _ _ _ _; exact ErrorsIn.timeout
  | succ fuel ih =>
    intro rows candidate columns types hcols hrows hcand hscope
    -- the submatrix of a head is typed again
    have key : ∀ {type types current following first rest} {head : Head} {parts : List TypeRef},
        FreshColumn unions type current → List.Forall₂ (FreshColumn unions) types following →
        RowsFit unions (type :: types) rows → PatternFits unions first type →
        List.Forall₂ (PatternFits unions) rest types →
        (∀ t ∈ type :: types, t.InScope unions) →
        HeadFits unions type head parts → first.matchesHead head = true →
        ErrorsIn (fun _ => False) (usefulHead unions span (useful unions span fuel) rows
          (first.children head ++ rest) current following head) := by
      intro type types current following first rest head parts hcol hcols hrows hfirst hrest hscope
        hfits hmatch
      have hscope' := hscope type List.mem_cons_self
      refine usefulHead_errorsIn (childColumns_inScope hd span hfits hscope') fun fields hf => ?_
      refine ih _ _ _ (parts ++ types)
        (List.rel_append (childColumns_fresh hcol.1 hfits hf) hcols) (hrows.specialize hd hfits)
        (List.rel_append (hfits.children_fit hd hfirst hmatch) hrest) fun t ht => ?_
      rcases List.mem_append.mp ht with ht | ht
      · exact hfits.inScope hd hscope' t ht
      · exact hscope t (List.mem_cons_of_mem _ ht)
    show ErrorsIn _ (usefulStep unions span (useful unions span fuel) rows candidate columns)
    unfold usefulStep
    split
    · exact ErrorsIn.ok _
    next hirr =>
    split
    · exact ErrorsIn.ok _
    next hne =>
    cases hcand with
    | nil =>
      -- a row over no columns is irrefutable
      cases rows with
      | nil => simp at hne
      | cons row rows =>
        have hrow := hrows row List.mem_cons_self
        cases hp : row.patterns with
        | nil => simp [rowIsIrrefutable, hp] at hirr
        | cons p ps => rw [hp] at hrow; cases hrow
    | @cons first type rest types hfirst hrest =>
      cases hcols with
      | @cons _ current _ following hcol hcols =>
        have hdefault : ∀ f : List PatternWitness → List PatternWitness,
            ErrorsIn (fun _ => False) (do
              match ← useful unions span fuel (defaultRows rows) rest following with
              | some witness => return some (f witness)
              | none => return none : UsefulResult) := fun f =>
          option_errorsIn (ih _ _ _ types hcols hrows.default hrest
            fun t ht => hscope t (List.mem_cons_of_mem _ ht)) f
        split
        · exact hdefault _
        · unfold usefulNonempty
          cases hany : first.isAny with
          | true =>
            obtain rfl := eq_anything_of_isAny hany
            show ErrorsIn _ (usefulWildcard _ _ _ rows rest current following)
            unfold usefulWildcard
            split
            · next heads hdom =>
              refine usefulClosed_errorsIn fun head hm => ?_
              have hfull := hcol.2
              rw [hdom] at hfull
              obtain ⟨parts, hfits⟩ := hfull.head_fits hm
              exact key hcol hcols hrows (.anything type) hrest hscope hfits rfl
            all_goals exact hdefault _
          | false =>
            obtain ⟨head, parts, hfound, hfits, hmatch⟩ := patternHead_fits hcol.2 hfirst hany
            have hcon : ErrorsIn (fun _ => False) (usefulConstructor unions span
                (useful unions span fuel) rows first rest current following) := by
              unfold usefulConstructor
              rw [hfound]
              exact key hcol hcols hrows hfirst hrest hscope hfits hmatch
            cases first with
            | anything => simp [Pattern.isAny] at hany
            | _ => exact hcon

/-! ## Exactness -/

/-- Some typed vector is matched by the candidate and by no row. -/
def Uncovered (unions : List CheckedUnion) (scalar : σ → TypeRef → Prop) (types : List TypeRef)
    (rows : List PatternRow) (candidate : List Pattern) : Prop :=
  ∃ values : List (Value σ), List.Forall₂ (HasType unions scalar) values types ∧
    Pattern.matchesAll candidate values = true ∧ ∀ row ∈ rows, row.matches values = false

theorem chosen_eq_none_iff (rows : List PatternRow) (values : List (Value σ)) :
    chosen rows values = none ↔ ∀ row ∈ rows, row.matches values = false := by
  have h := chosen_isSome_iff rows values
  rw [← Option.not_isSome_iff_eq_none, h]
  simp

/-- **Usefulness is exact.**  Given enough fuel `useful` answers, and it answers
`some` exactly when a typed vector is matched by the candidate and by no row. -/
theorem useful_settles_exactly (hd : DeclarationsValid unions) (span : Span)
    {scalar : σ → TypeRef → Prop} {types : List TypeRef} {columns : List Column}
    {rows : List PatternRow} {candidate : List Pattern}
    (hcols : List.Forall₂ (FreshColumn unions) types columns) (hrows : RowsFit unions types rows)
    (hcand : List.Forall₂ (PatternFits unions) candidate types)
    (hscope : ∀ type ∈ types, type.InScope unions)
    (hinh : ∀ type ∈ types, HereditarilyInhabited unions scalar type) :
    ∃ answer, Settles (fun n => useful unions span n rows candidate columns) (.ok answer) ∧
      (answer.isSome = true ↔ Uncovered unions scalar types rows candidate) := by
  obtain ⟨outcome, hsettles⟩ := useful_settles unions span rows candidate columns
  obtain ⟨answer, rfl⟩ := hsettles.ok_of_errorsIn fun n =>
    useful_errorsIn hd n rows candidate columns types hcols hrows hcand hscope
  refine ⟨answer, hsettles, ?_⟩
  obtain ⟨-, n, hn⟩ := hsettles
  have hanswer := hn n (Nat.le_refl n)
  cases answer with
  | none =>
    refine ⟨fun h => by simp at h, fun ⟨values, htyped, hmatch, hnone⟩ => ?_⟩
    have hsome := useful_none_covers hd n rows candidate columns types hcols hrows hcand hanswer
      values htyped hmatch
    rw [(chosen_eq_none_iff rows values).mpr hnone] at hsome
    cases hsome
  | some witnesses =>
    refine ⟨fun _ => ?_, fun _ => rfl⟩
    obtain ⟨values, htyped, hmatch, hnone⟩ := useful_some_uncovered hd n rows candidate columns
      types witnesses hcols hrows hcand hinh hanswer
    exact ⟨values, htyped, hmatch, (chosen_eq_none_iff rows values).mp hnone⟩

end Blorp.Check
