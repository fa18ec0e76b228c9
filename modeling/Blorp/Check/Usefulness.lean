import Blorp.Check.ColumnTypes

/-!
# Usefulness is exact

`useful` against the meaning of patterns.  Over typed rows and fresh columns:

    useful … = ok none      → every typed vector the candidate matches is matched by a row
    useful … = ok (some w)  → some typed vector matches the candidate and no row,
                              when every type the columns reach has a value
    useful … ends with `ok`, given enough fuel

The recurrence takes the candidate's first pattern apart; the measure that falls
is the number of constructors left in the rows and the candidate, then the number
of columns, since a wildcard on a recursive union adds columns of the same type.
-/

namespace Blorp.Check

open Fuel Outcome

variable {σ : Type}

/-! ## Typed rows -/

def RowsFit (unions : List CheckedUnion) (types : List TypeRef) (rows : List PatternRow) : Prop :=
  ∀ row ∈ rows, List.Forall₂ (PatternFits unions) row.patterns types

variable {rows : List PatternRow} {head : Head} {unions : List CheckedUnion} {type : TypeRef}
variable {types : List TypeRef}

theorem mem_specializeRows {kept : PatternRow} :
    kept ∈ specializeRows rows head ↔ ∃ row ∈ rows, ∃ first rest, row.patterns = first :: rest ∧
      first.matchesHead head = true ∧
      kept = { row with patterns := first.children head ++ rest } := by
  unfold specializeRows
  rw [List.mem_filterMap]
  constructor
  · rintro ⟨row, hrow, hk⟩
    unfold specializeRow at hk
    split at hk
    · next first rest hp =>
      split at hk
      · next hm => cases hk; exact ⟨row, hrow, first, rest, hp, hm, rfl⟩
      · cases hk
    · cases hk
  · rintro ⟨row, hrow, first, rest, hp, hm, rfl⟩
    exact ⟨row, hrow, by simp [specializeRow, hp, hm]⟩

theorem mem_defaultRows {kept : PatternRow} :
    kept ∈ defaultRows rows ↔ ∃ row ∈ rows, ∃ rest, row.patterns = .anything :: rest ∧
      kept = { row with patterns := rest } := by
  unfold defaultRows
  rw [List.mem_filterMap]
  constructor
  · rintro ⟨row, hrow, hk⟩
    unfold defaultRow at hk
    split at hk
    · next rest hp => cases hk; exact ⟨row, hrow, rest, hp, rfl⟩
    · cases hk
  · rintro ⟨row, hrow, rest, hp, rfl⟩
    exact ⟨row, hrow, by simp [defaultRow, hp]⟩

theorem RowsFit.specialize (hd : DeclarationsValid unions) {parts : List TypeRef}
    (hhead : HeadFits unions type head parts) (h : RowsFit unions (type :: types) rows) :
    RowsFit unions (parts ++ types) (specializeRows rows head) := by
  intro kept hk
  obtain ⟨row, hrow, first, rest, hp, hm, rfl⟩ := mem_specializeRows.mp hk
  have hfit := h row hrow
  rw [hp] at hfit
  cases hfit with
  | cons hfirst hrest => exact List.rel_append (hhead.children_fit hd hfirst hm) hrest

theorem RowsFit.default (h : RowsFit unions (type :: types) rows) :
    RowsFit unions types (defaultRows rows) := by
  intro kept hk
  obtain ⟨row, hrow, rest, hp, rfl⟩ := mem_defaultRows.mp hk
  have hfit := h row hrow
  rw [hp] at hfit
  cases hfit with
  | cons _ hrest => exact hrest

theorem RowsFit.arityFits (hd : DeclarationsValid unions) {parts : List TypeRef}
    (hhead : HeadFits unions type head parts) (h : RowsFit unions (type :: types) rows) :
    ∀ row ∈ rows, ArityFits head row := by
  intro row hrow first rest hp hm
  have hfit := h row hrow
  rw [hp] at hfit
  cases hfit with
  | cons hfirst _ => rw [(hhead.children_fit hd hfirst hm).length_eq, hhead.arity]

theorem patternHead_fits {domain : ColumnDomain} (hdom : DomainOf unions type domain) {p : Pattern}
    (hp : PatternFits unions p type) (hany : p.isAny = false) :
    ∃ head parts, patternHead domain p = some head ∧ HeadFits unions type head parts ∧
      p.matchesHead head = true := by
  cases hp with
  | anything => simp [Pattern.isAny] at hany
  | @variant owner arguments id types fields declared typed =>
    cases hdom with
    | @union _ _ declaration heads found listed =>
      have hex : ∃ head ∈ heads, Head.hasVariant id head = true :=
        (DomainOf.union found listed).exists_matchesHead (.variant declared typed) rfl
      obtain ⟨head, hfind⟩ := Option.isSome_iff_exists.mp (List.find?_isSome.mpr hex)
      have hm : head ∈ heads := List.mem_of_find?_eq_some hfind
      obtain ⟨parts, hfits⟩ := (DomainOf.union found listed).head_fits hm
      have hhas : Head.hasVariant id head = true := List.find?_some hfind
      exact ⟨head, parts, hfind, hfits, hhas⟩
    | scalar isScalar => simp [TypeRef.isScalar] at isScalar
  | tuple typed =>
    cases hdom with
    | tuple types => exact ⟨_, _, rfl, .tuple _, rfl⟩
    | scalar isScalar => simp [TypeRef.isScalar] at isScalar
  | emptyList element => exact ⟨_, _, rfl, .nil element, rfl⟩
  | @consList _ _ element first rest =>
    cases hdom with
    | list element => exact ⟨.consHead element, _, by simp [patternHead, Head.isCons], .cons element, rfl⟩
    | scalar isScalar => simp [TypeRef.isScalar] at isScalar
  | bytes text => exact ⟨_, _, rfl, .bytes text, by simp [Pattern.matchesHead]⟩
  | int value => exact ⟨_, _, rfl, .int value, by simp [Pattern.matchesHead]⟩

/-! ## What one step of `useful` can answer -/

section Step

variable (unions : List CheckedUnion) (span : Span)
variable (self : List PatternRow → List Pattern → List Column → UsefulResult)

/-- The answer of the submatrix for one head of the first column. -/
def HeadAnswer (rows : List PatternRow) (candidate : List Pattern) (current : Column)
    (following : List Column) (head : Head) (answer : Option (List PatternWitness)) : Prop :=
  ∃ fields, childColumns unions span current head = .ok fields ∧
    self (specializeRows rows head) candidate (fields ++ following) = .ok answer

inductive UsefulCase (rows : List PatternRow) :
    List Pattern → List Column → Option (List PatternWitness) → Prop where
  | irrefutable {candidate : List Pattern} {columns : List Column} {row : PatternRow}
      (mem : row ∈ rows) (any : rowIsIrrefutable row = true) :
      UsefulCase rows candidate columns none
  | noRows {candidate : List Pattern} {columns : List Column} (empty : rows = []) :
      UsefulCase rows candidate columns (some (patternWitnesses candidate))
  | noColumns (rest : rows ≠ []) : UsefulCase rows [] [] none
  | unconstrained {first : Pattern} {rest : List Pattern} {columns : List Column}
      {answer : Option (List PatternWitness)} (any : ∀ row ∈ rows, rowStartsAny row = true)
      (call : self (defaultRows rows) rest (columns.drop 1) = .ok answer) :
      UsefulCase rows (first :: rest) columns (answer.map (patternWitness first :: ·))
  | noHead {first : Pattern} {rest : List Pattern} {current : Column} {following : List Column}
      (constructor : first.isAny = false) (missing : patternHead current.domain first = none) :
      UsefulCase rows (first :: rest) (current :: following) none
  | head {first : Pattern} {rest : List Pattern} {current : Column} {following : List Column}
      {head : Head} {answer : Option (List PatternWitness)} (constructor : first.isAny = false)
      (found : patternHead current.domain first = some head)
      (call : HeadAnswer unions span self rows (first.children head ++ rest) current following head
        answer) :
      UsefulCase rows (first :: rest) (current :: following) (answer.map (wrapWitness head))
  | closedNone {rest : List Pattern} {current : Column} {following : List Column}
      {heads : List Head} (domain : current.domain = .closedDomain heads)
      (calls : ∀ head ∈ heads, HeadAnswer unions span self rows
        (List.replicate head.arity .anything ++ rest) current following head none) :
      UsefulCase rows (.anything :: rest) (current :: following) none
  | closedSome {rest : List Pattern} {current : Column} {following : List Column}
      {heads : List Head} {head : Head} {witness : List PatternWitness}
      (domain : current.domain = .closedDomain heads) (mem : head ∈ heads)
      (call : HeadAnswer unions span self rows (List.replicate head.arity .anything ++ rest)
        current following head (some witness)) :
      UsefulCase rows (.anything :: rest) (current :: following) (some (wrapWitness head witness))
  | default {rest : List Pattern} {current : Column} {following : List Column}
      {first : PatternWitness} {answer : Option (List PatternWitness)}
      (domain : (current.domain = .openDomain ∧ first = .otherValueWitness) ∨
        (current.domain = .scalarDomain ∧ first = .anyWitness))
      (constructor : ∃ row ∈ rows, rowStartsAny row = false)
      (call : self (defaultRows rows) rest following = .ok answer) :
      UsefulCase rows (.anything :: rest) (current :: following) (answer.map (first :: ·))

variable {unions span self}

variable {result : Option (List PatternWitness)} {rows : List PatternRow} {current : Column}
variable {following : List Column}

theorem option_step {x : UsefulResult} {f : List PatternWitness → List PatternWitness}
    (h : (do match ← x with | some witness => return some (f witness) | none => return none :
      UsefulResult) = .ok result) : ∃ answer, x = .ok answer ∧ result = answer.map f := by
  obtain ⟨answer, hx, h⟩ := bind_eq_ok.mp h
  cases answer with
  | none => cases h; exact ⟨none, hx, rfl⟩
  | some witness => cases h; exact ⟨some witness, hx, rfl⟩

theorem usefulHead_ok {candidate : List Pattern} {head : Head}
    (h : usefulHead unions span self rows candidate current following head = .ok result) :
    ∃ answer, HeadAnswer unions span self rows candidate current following head answer ∧
      result = answer.map (wrapWitness head) := by
  unfold usefulHead at h
  obtain ⟨fields, hf, h⟩ := bind_eq_ok.mp h
  obtain ⟨answer, hc, he⟩ := option_step h
  exact ⟨answer, ⟨fields, liftM_eq_ok.mp hf, hc⟩, he⟩

theorem usefulClosed_ok {rest : List Pattern} :
    ∀ {heads : List Head} {result : Option (List PatternWitness)},
    usefulClosed unions span self rows rest current following heads = .ok result →
    (result = none ∧ ∀ head ∈ heads, HeadAnswer unions span self rows
      (List.replicate head.arity .anything ++ rest) current following head none) ∨
    ∃ head ∈ heads, ∃ witness, HeadAnswer unions span self rows
      (List.replicate head.arity .anything ++ rest) current following head (some witness) ∧
      result = some (wrapWitness head witness) := by
  intro heads
  induction heads with
  | nil =>
    intro result h
    cases h
    exact Or.inl ⟨rfl, by simp⟩
  | cons head heads ih =>
    intro result h
    unfold usefulClosed at h
    obtain ⟨r, hr, h⟩ := bind_eq_ok.mp h
    obtain ⟨answer, ha, rfl⟩ := usefulHead_ok hr
    cases answer with
    | some witness =>
      cases h
      exact Or.inr ⟨head, List.mem_cons_self, witness, ha, rfl⟩
    | none =>
      rcases ih h with ⟨rfl, hall⟩ | ⟨head', hm, witness, hw, rfl⟩
      · refine Or.inl ⟨rfl, fun head' hm => ?_⟩
        rcases List.mem_cons.mp hm with rfl | hm
        · exact ha
        · exact hall head' hm
      · exact Or.inr ⟨head', List.mem_cons_of_mem _ hm, witness, hw, rfl⟩

theorem usefulWildcard_ok {rest : List Pattern} (hrows : ∃ row ∈ rows, rowStartsAny row = false)
    (h : usefulWildcard unions span self rows rest current following = .ok result) :
    UsefulCase unions span self rows (.anything :: rest) (current :: following) result := by
  unfold usefulWildcard at h
  split at h
  · next heads hdom =>
    rcases usefulClosed_ok h with ⟨rfl, hall⟩ | ⟨head, hm, witness, hw, rfl⟩
    · exact .closedNone hdom hall
    · exact .closedSome hdom hm hw
  · next hdom =>
    obtain ⟨answer, hc, rfl⟩ := option_step h
    exact .default (Or.inl ⟨hdom, rfl⟩) hrows hc
  · next hdom =>
    obtain ⟨answer, hc, rfl⟩ := option_step h
    exact .default (Or.inr ⟨hdom, rfl⟩) hrows hc

theorem usefulStep_ok {candidate : List Pattern} {columns : List Column}
    (h : usefulStep unions span self rows candidate columns = .ok result) :
    UsefulCase unions span self rows candidate columns result := by
  unfold usefulStep at h
  split at h
  · next hirr =>
    obtain ⟨row, hm, ha⟩ := List.any_eq_true.mp hirr
    cases h
    exact .irrefutable hm ha
  split at h
  · next hempty =>
    cases h
    exact .noRows (List.isEmpty_iff.mp hempty)
  next hne =>
  split at h
  · next hall =>
    unfold usefulUnconstrained at h
    obtain ⟨first, hf, h⟩ := bind_eq_ok.mp h
    obtain ⟨answer, hc, rfl⟩ := option_step h
    have hget : candidate[0]? = some first := by
      have := liftM_eq_ok.mp hf
      unfold orCheckerInvariant at this
      split at this
      · cases this; assumption
      · cases this
    cases candidate with
    | nil => simp at hget
    | cons p ps =>
      simp only [List.getElem?_cons_zero, Option.some.injEq] at hget
      subst hget
      exact .unconstrained (List.all_eq_true.mp hall) hc
  · next hnot =>
    have hrows : ∃ row ∈ rows, rowStartsAny row = false := by simpa [List.all_eq_true] using hnot
    unfold usefulNonempty at h
    split at h
    · split at h
      · split at h
        · next hempty => exact absurd hempty hne
        · cases h
          exact .noColumns (fun he => hne (List.isEmpty_iff.mpr he))
      · cases h
    · next first rest =>
      split at h
      · cases h
      · next current following =>
        split at h
        · exact usefulWildcard_ok hrows h
        · next hany =>
          have hc : first.isAny = false := by cases first <;> simp_all [Pattern.isAny]
          unfold usefulConstructor at h
          split at h
          · next hnone => cases h; exact .noHead hc hnone
          · next head hsome =>
            obtain ⟨answer, ha, rfl⟩ := usefulHead_ok h
            exact .head hc hsome ha

end Step

/-! ## Covered candidates -/

variable {rows : List PatternRow} {unions : List CheckedUnion} {scalar : σ → TypeRef → Prop}
variable {types : List TypeRef} {span : Span} {type : TypeRef}

theorem chosen_isSome_of_defaultRows {x : Value σ} {xs : List (Value σ)}
    (h : (chosen (defaultRows rows) xs).isSome = true) : (chosen rows (x :: xs)).isSome = true := by
  obtain ⟨kept, hk, hm⟩ := (chosen_isSome_iff _ _).mp h
  obtain ⟨row, hrow, rest, hp, rfl⟩ := mem_defaultRows.mp hk
  refine (chosen_isSome_iff _ _).mpr ⟨row, hrow, ?_⟩
  simpa [PatternRow.matches, hp, Pattern.matchesAll, Pattern.matches] using hm

theorem chosen_of_rowsStartAny (h : ∀ row ∈ rows, rowStartsAny row = true) (x : Value σ)
    (xs : List (Value σ)) : chosen (defaultRows rows) xs = chosen rows (x :: xs) := by
  refine chosen_defaultRows rows fun row hrow first rest hp hany => ?_
  have := h row hrow
  unfold rowStartsAny at this
  rw [hp] at this
  cases first <;> simp_all [Pattern.isAny]

theorem chosen_isSome_of_irrefutable (hrows : RowsFit unions types rows) {row : PatternRow}
    (hm : row ∈ rows) (hany : rowIsIrrefutable row = true) {values : List (Value σ)}
    (hv : List.Forall₂ (HasType unions scalar) values types) :
    (chosen rows values).isSome = true := by
  refine (chosen_isSome_iff _ _).mpr ⟨row, hm, matchesAll_of_all_isAny ?_ hany⟩
  rw [(hrows row hm).length_eq, hv.length_eq]

theorem HeadAnswer.typed {self : List PatternRow → List Pattern → List Column → UsefulResult}
    {parts : List TypeRef} {head : Head} (hhead : HeadFits unions type head parts)
    {candidate : List Pattern} {current : Column} {following : List Column}
    {answer : Option (List PatternWitness)} (hcol : FreshColumn unions type current)
    (hcols : List.Forall₂ (FreshColumn unions) types following)
    (h : HeadAnswer unions span self rows candidate current following head answer) :
    ∃ columns, List.Forall₂ (FreshColumn unions) (parts ++ types) columns ∧
      self (specializeRows rows head) candidate columns = .ok answer := by
  obtain ⟨fields, hchild, hcall⟩ := h
  exact ⟨_, List.rel_append (childColumns_fresh hcol.1 hhead hchild) hcols, hcall⟩

theorem replicate_anything_fits (unions : List CheckedUnion) (types : List TypeRef) :
    List.Forall₂ (PatternFits unions) (List.replicate types.length .anything) types := by
  induction types with
  | nil => exact .nil
  | cons t ts ih => exact .cons (.anything t) ih

/-- **No answer means covered.**  Every typed vector the candidate matches is
matched by a row. -/
theorem useful_none_covers (hd : DeclarationsValid unions) :
    ∀ (fuel : Nat) (rows : List PatternRow) (candidate : List Pattern) (columns : List Column)
      (types : List TypeRef), List.Forall₂ (FreshColumn unions) types columns →
      RowsFit unions types rows → List.Forall₂ (PatternFits unions) candidate types →
      useful unions span fuel rows candidate columns = .ok none →
      ∀ values : List (Value σ), List.Forall₂ (HasType unions scalar) values types →
        Pattern.matchesAll candidate values = true → (chosen rows values).isSome = true := by
  intro fuel
  induction fuel with
  | zero => intro _ _ _ _ _ _ _ h; cases h
  | succ fuel ih =>
    intro rows candidate columns types hcols hrows hcand h values hvals hmatch
    -- a head of the first column: the submatrix covers what is built with it
    have key : ∀ {type types current following first rest x xs} {head : Head} {parts : List TypeRef},
        FreshColumn unions type current → List.Forall₂ (FreshColumn unions) types following →
        RowsFit unions (type :: types) rows → PatternFits unions first type →
        List.Forall₂ (PatternFits unions) rest types → HasType unions scalar x type →
        List.Forall₂ (HasType unions scalar) xs types →
        Pattern.matchesAll (first :: rest) (x :: xs) = true →
        HeadFits unions type head parts → first.matchesHead head = true →
        (∃ ys, head.parts x = some ys) →
        HeadAnswer unions span (useful unions span fuel) rows (first.children head ++ rest) current
          following head none → (chosen rows (x :: xs)).isSome = true := by
      intro type types current following first rest x xs head parts hcol hcols hrows hfirst hrest hx
        hxs hmatch hfits hm hys call
      obtain ⟨ys, hp⟩ := hys
      have hl := hfits.parts_length hd hx hp
      have hchildren := hfits.children_fit hd hfirst hm
      obtain ⟨columns, hcols', hcall⟩ := call.typed hfits hcol hcols
      rw [← chosen_specializeRows hp hl rows (hrows.arityFits hd hfits)]
      refine ih _ _ columns _ hcols' (hrows.specialize hd hfits) (List.rel_append hchildren hrest)
        hcall _ (List.rel_append (hfits.parts_typed hd hx hp) hxs) ?_
      rw [matchesAll_children hp hl hm (by rw [hchildren.length_eq, hfits.arity])]
      exact hmatch
    generalize hres : (none : Option (List PatternWitness)) = result at h
    cases usefulStep_ok h with
    | irrefutable mem any => exact chosen_isSome_of_irrefutable hrows mem any hvals
    | noRows empty => cases hres
    | noColumns rest =>
      cases hcand
      obtain ⟨row, hm⟩ := List.exists_mem_of_ne_nil _ rest
      refine chosen_isSome_of_irrefutable hrows hm ?_ hvals
      have := hrows row hm
      cases hp : row.patterns with
      | nil => simp [rowIsIrrefutable, hp]
      | cons p ps => rw [hp] at this; cases this
    | @unconstrained first rest columns answer any call =>
      cases hcand with
      | cons hfirst hrest =>
        cases hcols with
        | cons hcol hcols =>
          cases hvals with
          | cons hx hxs =>
            cases answer with
            | some witness => cases hres
            | none =>
              simp only [Pattern.matchesAll, Bool.and_eq_true] at hmatch
              rw [← chosen_of_rowsStartAny any]
              exact ih _ _ _ _ hcols hrows.default hrest call _ hxs hmatch.2
    | noHead constructor missing =>
      cases hcand with
      | cons hfirst hrest =>
        cases hcols with
        | cons hcol hcols =>
          obtain ⟨head, parts, hfound, -, -⟩ := patternHead_fits hcol.2 hfirst constructor
          rw [missing] at hfound
          cases hfound
    | @head first rest current following head answer constructor found call =>
      cases hcand with
      | cons hfirst hrest =>
        cases hcols with
        | cons hcol hcols =>
          cases hvals with
          | @cons x _ xs _ hx hxs =>
            cases answer with
            | some witness => cases hres
            | none =>
              obtain ⟨head', parts, hfound, hfits, hm⟩ := patternHead_fits hcol.2 hfirst constructor
              rw [found] at hfound
              cases hfound
              refine key hcol hcols hrows hfirst hrest hx hxs hmatch hfits hm ?_ call
              cases hp : head.parts x with
              | some ys => exact ⟨ys, rfl⟩
              | none =>
                simp [Pattern.matchesAll, matches_eq_false_of_parts hp constructor hm] at hmatch
    | @closedNone rest current following heads domain calls =>
      cases hcand with
      | cons hfirst hrest =>
        cases hcols with
        | cons hcol hcols =>
          cases hvals with
          | @cons x _ xs _ hx hxs =>
            have hdom := hcol.2
            rw [domain] at hdom
            obtain ⟨head, hmem, hys⟩ := hdom.exists_parts hx
            obtain ⟨parts, hfits⟩ := hdom.head_fits hmem
            exact key hcol hcols hrows hfirst hrest hx hxs hmatch hfits rfl hys (calls head hmem)
    | closedSome domain mem call => cases hres
    | @default rest current following first answer domain constructor call =>
      cases hcand with
      | cons hfirst hrest =>
        cases hcols with
        | cons hcol hcols =>
          cases hvals with
          | cons hx hxs =>
            cases answer with
            | some witness => cases hres
            | none =>
              simp only [Pattern.matchesAll, Bool.and_eq_true] at hmatch
              exact chosen_isSome_of_defaultRows
                (ih _ _ _ _ hcols hrows.default hrest call _ hxs hmatch.2)

/-! ## Values for every pattern -/

/-- The types of the values inside values of a type, the type included. -/
inductive Reaches (unions : List CheckedUnion) : TypeRef → TypeRef → Prop where
  | refl (type : TypeRef) : Reaches unions type type
  | step {type part target : TypeRef} {head : Head} {parts : List TypeRef}
      (fits : HeadFits unions type head parts) (mem : part ∈ parts)
      (rest : Reaches unions part target) : Reaches unions type target

/-- Every type inside the type has a value. -/
def HereditarilyInhabited (unions : List CheckedUnion) (scalar : σ → TypeRef → Prop)
    (type : TypeRef) : Prop :=
  ∀ part, Reaches unions type part → ∃ x, HasType unions scalar x part

theorem HereditarilyInhabited.part (h : HereditarilyInhabited unions scalar type) {head : Head}
    {parts : List TypeRef} (hfits : HeadFits unions type head parts) :
    ∀ part ∈ parts, HereditarilyInhabited unions scalar part :=
  fun _ hm target ht => h target (.step hfits hm ht)

mutual

theorem PatternFits.exists_match {unions : List CheckedUnion} {scalar : σ → TypeRef → Prop} :
    ∀ (p : Pattern) (type : TypeRef), PatternFits unions p type →
      HereditarilyInhabited unions scalar type →
      ∃ x : Value σ, HasType unions scalar x type ∧ p.matches x = true
  | .anything, type, _, hi => by
      obtain ⟨x, hx⟩ := hi type (.refl type)
      exact ⟨x, hx, rfl⟩
  | .variantPattern id fields, _, h, hi => by
      cases h with
      | variant declared typed =>
        obtain ⟨ys, hys, hm⟩ := PatternFits.exists_matches fields _ typed (hi.part (.union declared))
        exact ⟨.variant id ys, .variant declared hys, by simp [Pattern.matches, hm]⟩
  | .tuplePattern fields, _, h, hi => by
      cases h with
      | tuple typed =>
        obtain ⟨ys, hys, hm⟩ := PatternFits.exists_matches fields _ typed (hi.part (.tuple _))
        exact ⟨.tuple ys, .tuple hys, hm⟩
  | .emptyListPattern, _, h, _ => by
      cases h with
      | emptyList element => exact ⟨.list [], .list (by simp), rfl⟩
  | .consListPattern head tail, _, h, hi => by
      cases h with
      | consList first rest =>
        obtain ⟨y, hy, hm⟩ := PatternFits.exists_match head _ first
          (hi.part (.cons _) _ (by simp))
        obtain ⟨zs, hzs, hms⟩ := PatternFits.exists_match tail _ rest hi
        cases hzs with
        | @list elements _ typed =>
          refine ⟨.list (y :: elements), .list ?_, by simp [Pattern.matches, hm, hms]⟩
          intro z hz
          rcases List.mem_cons.mp hz with rfl | hz
          · exact hy
          · exact typed z hz
        | scalar isScalar => cases isScalar
  | .exactPattern literal, _, h, _ => by
      cases h with
      | bytes text => exact ⟨_, .bytes text, by simp [Pattern.matches]⟩
      | int value => exact ⟨_, .int value, by simp [Pattern.matches]⟩

theorem PatternFits.exists_matches {unions : List CheckedUnion} {scalar : σ → TypeRef → Prop} :
    ∀ (patterns : List Pattern) (types : List TypeRef),
      List.Forall₂ (PatternFits unions) patterns types →
      (∀ type ∈ types, HereditarilyInhabited unions scalar type) →
      ∃ values : List (Value σ), List.Forall₂ (HasType unions scalar) values types ∧
        Pattern.matchesAll patterns values = true
  | [], _, h, _ => by cases h; exact ⟨[], .nil, rfl⟩
  | p :: patterns, _, h, hi => by
      cases h with
      | cons hp hps =>
        obtain ⟨x, hx, hm⟩ := PatternFits.exists_match p _ hp (hi _ List.mem_cons_self)
        obtain ⟨xs, hxs, hms⟩ := PatternFits.exists_matches patterns _ hps
          fun t ht => hi t (List.mem_cons_of_mem _ ht)
        exact ⟨x :: xs, .cons hx hxs, by simp [Pattern.matchesAll, hm, hms]⟩

end

theorem exists_not_mem_of_injective {α : Type} {f : Nat → α} (hf : Function.Injective f)
    (known : List α) : ∃ n, f n ∉ known := by
  classical
  obtain ⟨_, ⟨n, rfl⟩, hn⟩ := (Set.infinite_range_of_injective hf).exists_notMem_finset known.toFinset
  exact ⟨n, by simpa using hn⟩

theorem exists_fresh_literal (h : DomainOf unions type .openDomain) (known : List LiteralPattern) :
    ∃ literal, literal ∉ known ∧ HasType unions scalar (.literal literal : Value σ) type := by
  cases h with
  | string =>
    obtain ⟨n, hn⟩ := exists_not_mem_of_injective
      (f := fun n => LiteralPattern.exactBytes (String.ofList (List.replicate n 'a')))
      (fun a b hab => by
        have := congrArg String.toList (LiteralPattern.exactBytes.inj hab)
        simpa using congrArg List.length this) known
    exact ⟨_, hn, .bytes _⟩
  | int =>
    obtain ⟨n, hn⟩ := exists_not_mem_of_injective
      (f := fun n : Nat => LiteralPattern.exactInt n)
      (fun a b hab => by have := LiteralPattern.exactInt.inj hab; omega) known
    exact ⟨_, hn, .int _⟩

/-! ## Uncovered candidates -/

def firstLiterals (rows : List PatternRow) : List LiteralPattern :=
  rows.filterMap fun row =>
    match row.patterns with
    | .exactPattern literal :: _ => some literal
    | _ => none

theorem matches_fresh_literal {literal : LiteralPattern} (h : literal ∉ firstLiterals rows) :
    ∀ row ∈ rows, ∀ first rest, row.patterns = first :: rest → first.isAny = false →
      first.matches (.literal literal : Value σ) = false := by
  intro row hrow first rest hp hany
  cases first with
  | anything => simp [Pattern.isAny] at hany
  | exactPattern other =>
    have hmem : other ∈ firstLiterals rows := by
      unfold firstLiterals
      rw [List.mem_filterMap]
      exact ⟨row, hrow, by simp [hp]⟩
    simp only [Pattern.matches, beq_eq_false_iff_ne]
    rintro rfl
    exact h hmem
  | _ => simp [Pattern.matches]

theorem rowStartsAny_of_scalar (hdom : DomainOf unions type .scalarDomain)
    (hrows : RowsFit unions (type :: types) rows) : ∀ row ∈ rows, rowStartsAny row = true := by
  intro row hrow
  have hfit := hrows row hrow
  cases hdom with
  | scalar isScalar =>
    cases hp : row.patterns with
    | nil => rw [hp] at hfit; cases hfit
    | cons first rest =>
      rw [hp] at hfit
      cases hfit with
      | cons hfirst _ => cases hfirst <;> simp_all [rowStartsAny, TypeRef.isScalar]

theorem forall₂_append_split {α β : Type} {R : α → β → Prop} {as : List α} {bs cs : List β}
    (h : List.Forall₂ R as (bs ++ cs)) :
    ∃ xs ys, as = xs ++ ys ∧ List.Forall₂ R xs bs ∧ List.Forall₂ R ys cs :=
  ⟨as.take bs.length, as.drop bs.length, (List.take_append_drop _ _).symm,
    List.forall₂_take_append as bs cs h, List.forall₂_drop_append as bs cs h⟩

/-- **An answer means uncovered.**  When every type inside the columns has a value,
some typed vector is matched by the candidate and by no row. -/
theorem useful_some_uncovered (hd : DeclarationsValid unions) :
    ∀ (fuel : Nat) (rows : List PatternRow) (candidate : List Pattern) (columns : List Column)
      (types : List TypeRef) (witnesses : List PatternWitness),
      List.Forall₂ (FreshColumn unions) types columns → RowsFit unions types rows →
      List.Forall₂ (PatternFits unions) candidate types →
      (∀ type ∈ types, HereditarilyInhabited unions scalar type) →
      useful unions span fuel rows candidate columns = .ok (some witnesses) →
      ∃ values : List (Value σ), List.Forall₂ (HasType unions scalar) values types ∧
        Pattern.matchesAll candidate values = true ∧ chosen rows values = none := by
  intro fuel
  induction fuel with
  | zero => intro _ _ _ _ _ _ _ _ _ h; cases h
  | succ fuel ih =>
    intro rows candidate columns types witnesses hcols hrows hcand hinh h
    -- a head of the first column: an uncovered vector of the submatrix is built up again
    have key : ∀ {type types current following first rest witness} {head : Head}
        {parts : List TypeRef}, FreshColumn unions type current →
        List.Forall₂ (FreshColumn unions) types following →
        RowsFit unions (type :: types) rows → PatternFits unions first type →
        List.Forall₂ (PatternFits unions) rest types →
        (∀ t ∈ type :: types, HereditarilyInhabited unions scalar t) →
        HeadFits unions type head parts → first.matchesHead head = true →
        HeadAnswer unions span (useful unions span fuel) rows (first.children head ++ rest) current
          following head (some witness) →
        ∃ values : List (Value σ), List.Forall₂ (HasType unions scalar) values (type :: types) ∧
          Pattern.matchesAll (first :: rest) values = true ∧ chosen rows values = none := by
      intro type types current following first rest witness head parts hcol hcols hrows hfirst hrest
        hinh hfits hm call
      have hchildren := hfits.children_fit hd hfirst hm
      obtain ⟨columns, hcols', hcall⟩ := call.typed hfits hcol hcols
      have hinh' : ∀ t ∈ parts ++ types, HereditarilyInhabited unions scalar t := by
        intro t ht
        rcases List.mem_append.mp ht with ht | ht
        · exact (hinh type List.mem_cons_self).part hfits t ht
        · exact hinh t (List.mem_cons_of_mem _ ht)
      obtain ⟨values, hvals, hmatch, hnone⟩ := ih _ _ columns _ witness hcols'
        (hrows.specialize hd hfits) (List.rel_append hchildren hrest) hinh' hcall
      obtain ⟨ys, xs, rfl, hys, hxs⟩ := forall₂_append_split hvals
      obtain ⟨x, hx, hp⟩ := hfits.build hys
      have hl := hfits.parts_length hd hx hp
      refine ⟨x :: xs, .cons hx hxs, ?_, ?_⟩
      · rw [← matchesAll_children hp hl hm (by rw [hchildren.length_eq, hfits.arity])]
        exact hmatch
      · rw [← chosen_specializeRows hp hl rows (hrows.arityFits hd hfits)]
        exact hnone
    generalize hres : some witnesses = result at h
    cases usefulStep_ok h with
    | irrefutable mem any => cases hres
    | noColumns rest => cases hres
    | noHead constructor missing => cases hres
    | closedNone domain calls => cases hres
    | noRows empty =>
      obtain ⟨values, hvals, hmatch⟩ := PatternFits.exists_matches candidate types hcand hinh
      exact ⟨values, hvals, hmatch, by rw [empty, chosen_nil]⟩
    | @unconstrained first rest columns answer any call =>
      cases hcand with
      | cons hfirst hrest =>
        cases hcols with
        | cons hcol hcols =>
          cases answer with
          | none => cases hres
          | some witness =>
            obtain ⟨xs, hxs, hmatch, hnone⟩ := ih _ _ _ _ witness hcols hrows.default hrest
              (fun t ht => hinh t (List.mem_cons_of_mem _ ht)) call
            obtain ⟨x, hx, hm⟩ := hfirst.exists_match _ _ (hinh _ List.mem_cons_self)
            refine ⟨x :: xs, .cons hx hxs, by simp [Pattern.matchesAll, hm, hmatch], ?_⟩
            rw [← chosen_of_rowsStartAny any]
            exact hnone
    | @head first rest current following head answer constructor found call =>
      cases hcand with
      | cons hfirst hrest =>
        cases hcols with
        | cons hcol hcols =>
          cases answer with
          | none => cases hres
          | some witness =>
            obtain ⟨head', parts, hfound, hfits, hm⟩ := patternHead_fits hcol.2 hfirst constructor
            rw [found] at hfound
            cases hfound
            exact key hcol hcols hrows hfirst hrest hinh hfits hm call
    | @closedSome rest current following heads head witness domain mem call =>
      cases hcand with
      | cons hfirst hrest =>
        cases hcols with
        | cons hcol hcols =>
          have hdom := hcol.2
          rw [domain] at hdom
          obtain ⟨parts, hfits⟩ := hdom.head_fits mem
          exact key hcol hcols hrows hfirst hrest hinh hfits rfl call
    | @default rest current following first answer domain constructor call =>
      cases hcand with
      | cons hfirst hrest =>
        cases hcols with
        | cons hcol hcols =>
          cases answer with
          | none => cases hres
          | some witness =>
            obtain ⟨xs, hxs, hmatch, hnone⟩ := ih _ _ _ _ witness hcols hrows.default hrest
              (fun t ht => hinh t (List.mem_cons_of_mem _ ht)) call
            have hdom := hcol.2
            rcases domain with ⟨domain, -⟩ | ⟨domain, -⟩
            · rw [domain] at hdom
              obtain ⟨literal, hfresh, hx⟩ := exists_fresh_literal hdom (firstLiterals rows)
              refine ⟨.literal literal :: xs, .cons hx hxs, ?_, ?_⟩
              · simpa [Pattern.matchesAll, Pattern.matches] using hmatch
              · rw [← chosen_defaultRows rows (matches_fresh_literal hfresh)]
                exact hnone
            · rw [domain] at hdom
              obtain ⟨row, hm, hstart⟩ := constructor
              rw [rowStartsAny_of_scalar hdom hrows row hm] at hstart
              cases hstart

end Blorp.Check
