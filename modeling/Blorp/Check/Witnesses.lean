import Blorp.Check.Usefulness

/-!
# The values a witness stands for

For a candidate of wildcards, `useful` answers a witness vector.  Read `anyWitness`
as any value and `otherValueWitness` as any literal that no row names: every value
vector read from the witnesses is matched by no row.
-/

namespace Blorp.Check

open Fuel Outcome

variable {σ : Type}

mutual

def Pattern.literals : Pattern → List LiteralPattern
  | .anything => []
  | .variantPattern _ fields => Pattern.literalsAll fields
  | .tuplePattern fields => Pattern.literalsAll fields
  | .emptyListPattern => []
  | .consListPattern head tail => head.literals ++ tail.literals
  | .exactPattern literal => [literal]

def Pattern.literalsAll : List Pattern → List LiteralPattern
  | [] => []
  | pattern :: rest => pattern.literals ++ Pattern.literalsAll rest

end

def rowLiterals (rows : List PatternRow) : List LiteralPattern :=
  rows.flatMap fun row => Pattern.literalsAll row.patterns

/-- The values a witness stands for, when `known` are the literals the rows name. -/
inductive Yields (known : List LiteralPattern) : PatternWitness → Value σ → Prop where
  | any (x : Value σ) : Yields known .anyWitness x
  | variant {id : VariantId} {witnesses : List PatternWitness} {fields : List (Value σ)}
      (parts : List.Forall₂ (Yields known) witnesses fields) :
      Yields known (.variantWitness id witnesses) (.variant id fields)
  | tuple {witnesses : List PatternWitness} {fields : List (Value σ)}
      (parts : List.Forall₂ (Yields known) witnesses fields) :
      Yields known (.tupleWitness witnesses) (.tuple fields)
  | emptyList : Yields known .emptyListWitness (.list [])
  | consList {head tail : PatternWitness} {x : Value σ} {xs : List (Value σ)}
      (first : Yields known head x) (rest : Yields known tail (.list xs)) :
      Yields known (.consListWitness head tail) (.list (x :: xs))
  | other {literal : LiteralPattern} (fresh : literal ∉ known) :
      Yields known .otherValueWitness (.literal literal)

/-! ## Literals of derived rows -/

theorem mem_literalsAll_append {literal : LiteralPattern} (back : List Pattern) :
    ∀ front : List Pattern, literal ∈ Pattern.literalsAll (front ++ back) ↔
      literal ∈ Pattern.literalsAll front ∨ literal ∈ Pattern.literalsAll back := by
  intro front
  induction front with
  | nil => simp [Pattern.literalsAll]
  | cons p ps ih => simp [Pattern.literalsAll, ih, or_assoc]

theorem literalsAll_replicate_anything (n : Nat) :
    Pattern.literalsAll (List.replicate n .anything) = [] := by
  induction n with
  | zero => rfl
  | succ n ih => simp [List.replicate_succ, Pattern.literalsAll, Pattern.literals, ih]

theorem literalsAll_children (p : Pattern) (head : Head) :
    ∀ literal ∈ Pattern.literalsAll (p.children head), literal ∈ p.literals := by
  intro literal h
  cases p with
  | anything => simp [Pattern.children, literalsAll_replicate_anything] at h
  | variantPattern id fields => exact h
  | tuplePattern fields => exact h
  | emptyListPattern => simp [Pattern.children, Pattern.literalsAll] at h
  | consListPattern first rest =>
    simpa [Pattern.children, Pattern.literalsAll, Pattern.literals] using h
  | exactPattern other => simp [Pattern.children, Pattern.literalsAll] at h

variable {rows : List PatternRow} {known : List LiteralPattern}

theorem rowLiterals_specializeRows {head : Head} (h : rowLiterals rows ⊆ known) :
    rowLiterals (specializeRows rows head) ⊆ known := by
  intro literal hl
  obtain ⟨kept, hk, hl⟩ := List.mem_flatMap.mp hl
  obtain ⟨row, hrow, first, rest, hp, -, rfl⟩ := mem_specializeRows.mp hk
  refine h (List.mem_flatMap.mpr ⟨row, hrow, ?_⟩)
  rw [hp, Pattern.literalsAll, List.mem_append]
  rcases (mem_literalsAll_append rest _).mp hl with hl | hl
  · exact Or.inl (literalsAll_children first head literal hl)
  · exact Or.inr hl

theorem rowLiterals_defaultRows (h : rowLiterals rows ⊆ known) :
    rowLiterals (defaultRows rows) ⊆ known := by
  intro literal hl
  obtain ⟨kept, hk, hl⟩ := List.mem_flatMap.mp hl
  obtain ⟨row, hrow, rest, hp, rfl⟩ := mem_defaultRows.mp hk
  refine h (List.mem_flatMap.mpr ⟨row, hrow, ?_⟩)
  rw [hp, Pattern.literalsAll, List.mem_append]
  exact Or.inr hl

theorem firstLiterals_subset (h : rowLiterals rows ⊆ known) : firstLiterals rows ⊆ known := by
  intro literal hl
  unfold firstLiterals at hl
  obtain ⟨row, hrow, hl⟩ := List.mem_filterMap.mp hl
  refine h (List.mem_flatMap.mpr ⟨row, hrow, ?_⟩)
  split at hl
  · next other rest hp =>
    cases hl
    simp [hp, Pattern.literalsAll, Pattern.literals]
  · cases hl

/-! ## Wrapping -/

theorem yields_wrapWitness {unions : List CheckedUnion} {type : TypeRef} {head : Head}
    {parts : List TypeRef} (hfits : HeadFits unions type head parts)
    (hclosed : ∀ l, head ≠ .literalHead l) {witnesses : List PatternWitness}
    (hlen : head.arity ≤ witnesses.length) {values : List (Value σ)}
    (h : List.Forall₂ (Yields known) (wrapWitness head witnesses) values) :
    ∃ x xs ys, values = x :: xs ∧ head.parts x = some ys ∧ ys.length = head.arity ∧
      List.Forall₂ (Yields known) witnesses (ys ++ xs) := by
  have happ : ∀ {ys xs : List (Value σ)},
      List.Forall₂ (Yields known) (witnesses.take head.arity) ys →
      List.Forall₂ (Yields known) (witnesses.drop head.arity) xs →
      List.Forall₂ (Yields known) witnesses (ys ++ xs) := by
    intro ys xs h1 h2
    have happend := List.rel_append h1 h2
    simpa only [List.take_append_drop] using happend
  have htake : (witnesses.take head.arity).length = head.arity := by rw [List.length_take]; omega
  unfold wrapWitness at h
  cases hfits with
  | union declared =>
    cases h with
    | @cons _ x _ xs hx hxs =>
      cases hx with
      | @variant _ _ fields hparts =>
        exact ⟨_, xs, fields, rfl, parts_eq_some_iff.mpr (.union _ _ _),
          by rw [← hparts.length_eq, htake], happ hparts hxs⟩
  | tuple types =>
    cases h with
    | @cons _ x _ xs hx hxs =>
      cases hx with
      | @tuple _ fields hparts =>
        exact ⟨_, xs, fields, rfl, parts_eq_some_iff.mpr (.tuple _ _),
          by rw [← hparts.length_eq, htake], happ hparts hxs⟩
  | nil element =>
    cases h with
    | @cons _ x _ xs hx hxs =>
      cases hx
      exact ⟨_, xs, [], rfl, parts_eq_some_iff.mpr .nil, rfl, happ (by simp [Head.arity]) hxs⟩
  | cons element =>
    rcases witnesses with _ | ⟨first, _ | ⟨tail, rest⟩⟩
    iterate 2 · simp [Head.arity] at hlen
    · cases h with
      | @cons _ x _ xs hx hxs =>
        cases hx with
        | consList hfirst hrest =>
          exact ⟨_, xs, _, rfl, parts_eq_some_iff.mpr (.cons _ _ _), rfl,
            happ (.cons hfirst (.cons hrest .nil)) hxs⟩
  | bytes text => exact absurd rfl (hclosed _)
  | int value => exact absurd rfl (hclosed _)

theorem length_wrapWitness (head : Head) (witnesses : List PatternWitness) :
    (wrapWitness head witnesses).length = witnesses.length - head.arity + 1 := by
  simp [wrapWitness]

theorem patternWitnesses_replicate (n : Nat) :
    patternWitnesses (List.replicate n .anything) = List.replicate n .anyWitness := by
  induction n with
  | zero => rfl
  | succ n ih => simp [List.replicate_succ, patternWitnesses, patternWitness, ih]

/-- **Witnesses are uncovered.**  Every value vector read from the witnesses of an
all-wildcard candidate is matched by no row. -/
theorem useful_witnesses_uncovered {unions : List CheckedUnion} {span : Span}
    (hd : DeclarationsValid unions) (known : List LiteralPattern) :
    ∀ (fuel : Nat) (rows : List PatternRow) (columns : List Column) (types : List TypeRef)
      (witnesses : List PatternWitness), List.Forall₂ (FreshColumn unions) types columns →
      RowsFit unions types rows → rowLiterals rows ⊆ known →
      useful unions span fuel rows (List.replicate types.length .anything) columns =
        .ok (some witnesses) →
      witnesses.length = types.length ∧ ∀ values : List (Value σ),
        List.Forall₂ (Yields known) witnesses values → chosen rows values = none := by
  intro fuel
  induction fuel with
  | zero => intro _ _ _ _ _ _ _ h; cases h
  | succ fuel ih =>
    intro rows columns types witnesses hcols hrows hknown h
    generalize hcand : List.replicate types.length Pattern.anything = candidate at h
    generalize hres : some witnesses = result at h
    cases usefulStep_ok h with
    | irrefutable mem any => cases hres
    | noColumns rest => cases hres
    | noHead constructor missing => cases hres
    | closedNone domain calls => cases hres
    | noRows empty =>
      cases hres
      rw [← hcand, patternWitnesses_replicate]
      exact ⟨by simp, fun values _ => by rw [empty, chosen_nil]⟩
    | @unconstrained first rest columns answer any call =>
      cases hcols with
      | nil => simp at hcand
      | @cons type _ types following hcol hcols =>
        cases answer with
        | none => cases hres
        | some witness =>
          cases hres
          simp only [List.length_cons, List.replicate_succ, List.cons.injEq] at hcand
          obtain ⟨rfl, rfl⟩ := hcand
          obtain ⟨hl, hnone⟩ := ih _ _ _ witness hcols hrows.default
            (rowLiterals_defaultRows hknown) call
          refine ⟨by simp [hl], fun values hv => ?_⟩
          cases hv with
          | cons hx hxs =>
            rw [← chosen_of_rowsStartAny any]
            exact hnone _ hxs
    | @head first rest current following head answer constructor found call =>
      cases hcols with
      | cons hcol hcols =>
        simp only [List.length_cons, List.replicate_succ, List.cons.injEq] at hcand
        obtain ⟨rfl, rfl⟩ := hcand
        simp [Pattern.isAny] at constructor
    | @closedSome rest current following heads head witness domain mem call =>
      cases hcols with
      | @cons type _ types _ hcol hcols =>
        cases hres
        simp only [List.length_cons, List.replicate_succ, List.cons.injEq, true_and] at hcand
        subst hcand
        have hdom := hcol.2
        rw [domain] at hdom
        obtain ⟨parts, hfits⟩ := hdom.head_fits mem
        obtain ⟨columns, hcols', hcall⟩ := call.typed hfits hcol hcols
        rw [← hfits.arity, List.replicate_append_replicate, ← List.length_append] at hcall
        obtain ⟨hl, hnone⟩ := ih _ _ _ witness hcols' (hrows.specialize hd hfits)
          (rowLiterals_specializeRows hknown) hcall
        rw [List.length_append, hfits.arity] at hl
        have hclosed : ∀ l, head ≠ .literalHead l := by
          rintro l rfl
          cases hdom <;> cases hfits
        refine ⟨by rw [length_wrapWitness, List.length_cons]; omega, fun values hv => ?_⟩
        obtain ⟨x, xs, ys, rfl, hp, hlen, hyields⟩ :=
          yields_wrapWitness hfits hclosed (by omega) hv
        rw [← chosen_specializeRows hp hlen rows (hrows.arityFits hd hfits)]
        exact hnone _ hyields
    | @default rest current following first answer domain constructor call =>
      cases hcols with
      | @cons type _ types _ hcol hcols =>
        cases answer with
        | none => cases hres
        | some witness =>
          cases hres
          simp only [List.length_cons, List.replicate_succ, List.cons.injEq, true_and] at hcand
          subst hcand
          obtain ⟨hl, hnone⟩ := ih _ _ _ witness hcols hrows.default
            (rowLiterals_defaultRows hknown) call
          refine ⟨by simp [hl], fun values hv => ?_⟩
          have hdom := hcol.2
          rcases domain with ⟨domain, rfl⟩ | ⟨domain, -⟩
          · cases hv with
            | cons hx hxs =>
              cases hx with
              | @other literal fresh =>
                rw [← chosen_defaultRows rows
                  (matches_fresh_literal fun hm => fresh (firstLiterals_subset hknown hm))]
                exact hnone _ hxs
          · rw [domain] at hdom
            obtain ⟨row, hm, hstart⟩ := constructor
            rw [rowStartsAny_of_scalar hdom hrows row hm] at hstart
            cases hstart

end Blorp.Check
