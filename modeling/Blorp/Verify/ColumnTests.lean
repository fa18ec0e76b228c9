import Blorp.Verify.KnownColumns

/-!
# Both branches of a test

The compiler tests a column only while its domain lists a second head, so the verifier finds
both branches feasible.  After the yes branch the head is selected, after the no branch the
column is known with that head excluded.
-/

namespace Blorp.Verify

open Check hiding TypeRef Namespace
open Specialize
open Own

/-- A checked node and the owned node it became, with its place and variant renamed. -/
inductive Carries (setting : Setting) : CheckedDecisionNode → OwnedDecisionNode → Prop where
  | variant {place : CheckedPatternPlace} {base : ConcretePatternPlace} {id : VariantId}
      {renamed : VariantInstanceId} {yes no : DecisionNodeId} (named : Names setting place base)
      (translated : translatePlaceVariant setting.catalogues setting.written base.valueType id
        = .ok renamed) :
      Carries setting (.testVariant place id yes no) (.testVariant base renamed yes no)
  | length {place : CheckedPatternPlace} {base : ConcretePatternPlace} {test : ListLengthTest}
      {yes no : DecisionNodeId} (named : Names setting place base) :
      Carries setting (.testListLength place test yes no) (.testListLength base test yes no)
  | literal {place : CheckedPatternPlace} {base : ConcretePatternPlace} {literal : LiteralPattern}
      {yes no : DecisionNodeId} (named : Names setting place base) :
      Carries setting (.testLiteral place literal yes no) (.testLiteral base literal yes no)
  | arm (arm : MatchArmId) (arguments : List CheckedPatternArgument) (edge : OwnedSelectionEdge)
      (same : edge.arm = arm) : Carries setting (.enterArm arm arguments) (.enterArm edge)

/-- What the two branches of a test of the column's head leave known. -/
structure Branches (setting : Setting) (facts : List PlaceFact) (c : Column) (head : Head)
    (following : List Column) (yes no : List PlaceFact) : Prop where
  yesGrows : Grow setting facts yes
  noGrows : Grow setting facts no
  opened : Opened setting yes c
  selected : Selected setting yes c head
  rest : Known setting yes following
  excluded : Known setting no (excludeHead c head :: following)

section Tests

variable {setting : Setting} {checked : List CheckedUnion} {facts : List PlaceFact}
variable {c : Column} {following : List Column}

variable {base : ConcretePatternPlace} {heads : List Head} {owner : UnionId}
variable {arguments : List Check.TypeRef}

theorem Opened.put (h : Opened setting facts c) (hbase : Names setting c.cursor.rootPlace base)
    {constraint : PlaceConstraint}
    (hgrow : Grow setting facts (putConstraint base constraint facts)) :
    Opened setting (putConstraint base constraint facts) c := by
  refine ⟨h.established.grow hgrow, h.least.grow hgrow, fun base' hbase' place hinside => ?_⟩
  obtain rfl := hbase.unique hbase'
  rw [placeConstraint_put_ne hinside.ne]
  exact h.fresh base hbase place hinside

theorem excludeHead_closed (h : c.domain = .closedDomain heads) (head : Head) :
    (excludeHead c head).domain =
      .closedDomain (heads.filter fun known => known.different head) := by
  unfold excludeHead
  rw [h]

theorem Known.excluded (h : Known setting facts (c :: following))
    (hbase : Names setting c.cursor.rootPlace base) {constraint : PlaceConstraint}
    (hgrow : Grow setting facts (putConstraint base constraint facts)) {head : Head}
    (hunion : ∀ owner arguments heads, c.type = unionType owner arguments →
      (excludeHead c head).domain = .closedDomain heads → VariantsOnly base (putConstraint base
      constraint facts) ∧ ∃ bits, Possible setting (putConstraint base constraint facts) base bits ∧
      ∀ position : Nat, bits[position]? = some true ↔ ∃ fields, .unionHead ⟨owner, position⟩ fields
      ∈ heads)
    (hlist : ∀ element heads, c.type = .listType element → (excludeHead c head).domain =
      .closedDomain heads → LengthsOnly base (putConstraint base constraint facts) ∧
      ListKnown heads c.cursor.listSkip (lengthBounds base (putConstraint base constraint facts))) :
    Known setting (putConstraint base constraint facts) (excludeHead c head :: following) := by
  have hapart := List.pairwise_cons.mp h.apart
  have hopened := (h.known c List.mem_cons_self).opened.put hbase hgrow
  have hrest := Known.frame ⟨fun other hother => h.known other (List.mem_cons_of_mem _ hother),
    hapart.2⟩ hbase hapart.1 hgrow
  have hcursor := excludeHead_cursor c head
  refine ⟨fun other hother => ?_, List.pairwise_cons.mpr ⟨fun other hother => ?_, hrest.apart⟩⟩
  · rcases List.mem_cons.mp hother with rfl | hother
    · intro base' hbase'
      rw [hcursor] at hbase'
      obtain rfl := hbase.unique hbase'
      refine ⟨hopened.established base hbase, ?_, ?_, ?_, ?_⟩
      · rw [hcursor]
        exact hopened.least base hbase
      · rw [hcursor]
        exact hopened.fresh base hbase
      · intro owner arguments heads htype
        rw [excludeHead_type] at htype
        exact hunion owner arguments heads htype
      · intro element heads htype
        rw [excludeHead_type] at htype
        rw [hcursor]
        exact hlist element heads htype
    · exact hrest.known other hother
  · intro base' other' hbase' hother'
    rw [hcursor] at hbase' ⊢
    exact hapart.1 other hother base' other' hbase' hother'

/-! ### Variants -/

theorem unionHeads_getElem (hd : DeclarationsValid checked) {declaration : CheckedUnion}
    (hfound : checked[owner]? = some declaration)
    (hlisted : unionHeads declaration.variants ⟨owner, arguments⟩ = .ok heads) {i : Nat}
    {head : Head} (h : heads[i]? = some head) : ∃ fields, head = .unionHead ⟨owner, i⟩ fields := by
  have hall := List.mapM_eq_ok_iff.mp hlisted
  obtain ⟨hi, rfl⟩ := List.getElem?_eq_some_iff.mp h
  have hi' : i < declaration.variants.length := by
    rw [hall.length_eq]
    exact hi
  have hthis := (List.forall₂_iff_get.mp hall).2 i hi' hi
  simp only [List.get_eq_getElem] at hthis
  obtain ⟨uses, -, hhead⟩ := variantHead_eq_ok.mp hthis
  rw [hd.ids owner declaration hfound i _ (List.getElem?_eq_getElem hi')] at hhead
  exact ⟨_, hhead⟩

theorem exists_other_variant (hd : DeclarationsValid checked) {declaration : CheckedUnion}
    (hfound : checked[owner]? = some declaration) {all : List Head}
    (hlisted : unionHeads declaration.variants ⟨owner, arguments⟩ = .ok all)
    (hsub : heads.Sublist all) {position : Nat} {fields : List Check.TypeRef}
    (hmem : .unionHead ⟨owner, position⟩ fields ∈ heads) (hseveral : ∀ known, heads ≠ [known]) :
    ∃ other fields', other ≠ position ∧ .unionHead ⟨owner, other⟩ fields' ∈ heads := by
  have hnodup : heads.Nodup := by
    refine hsub.nodup (List.nodup_iff_getElem?_ne_getElem?.mpr fun i j hij hj heq => ?_)
    obtain ⟨left, hleft⟩ := unionHeads_getElem hd hfound hlisted
      (List.getElem?_eq_getElem (Nat.lt_trans hij hj))
    obtain ⟨right, hright⟩ := unionHeads_getElem hd hfound hlisted (List.getElem?_eq_getElem hj)
    rw [List.getElem?_eq_getElem (Nat.lt_trans hij hj), List.getElem?_eq_getElem hj,
      Option.some.injEq, hleft, hright] at heq
    simp only [Head.unionHead.injEq, VariantId.mk.injEq, true_and] at heq
    omega
  by_contra hnone
  push Not at hnone
  have hsame : ∀ known ∈ heads, known = .unionHead ⟨owner, position⟩ fields := by
    intro known hknown
    obtain ⟨i, hi⟩ := List.mem_iff_getElem?.mp (hsub.subset hknown)
    obtain ⟨j, hj⟩ := List.mem_iff_getElem?.mp (hsub.subset hmem)
    obtain ⟨left, hleft⟩ := unionHeads_getElem hd hfound hlisted hi
    obtain ⟨right, hright⟩ := unionHeads_getElem hd hfound hlisted hj
    have hjp : j = position := by
      simp only [Head.unionHead.injEq, VariantId.mk.injEq, true_and] at hright
      exact hright.1.symm
    have hip : i = position := by
      by_contra hne
      exact hnone i left hne (hleft ▸ hknown)
    rw [hip, ← hjp, hj] at hi
    exact (Option.some.inj hi).symm
  match heads, hnodup, hmem, hseveral, hsame with
  | [], _, hmem, _, _ => cases hmem
  | [known], _, _, hseveral, _ => exact hseveral known rfl
  | first :: second :: _, hnodup, _, _, hsame =>
    have hfirst := hsame first (by simp)
    have hsecond := hsame second (by simp)
    rw [hfirst, hsecond] at hnodup
    simp at hnodup

theorem variant_branches (hd : DeclarationsValid checked) (h : Known setting facts (c :: following))
    (hwithin : ColumnWithin checked c) {types : List Check.TypeRef} {id : VariantId}
    (htype : c.type = unionType owner arguments)
    (hdeclared : DeclaredAt checked ⟨owner, arguments⟩ id types)
    (hmem : ∀ heads, c.domain = .closedDomain heads → .unionHead id types ∈ heads)
    (hseveral : ∀ known, c.domain ≠ .closedDomain [known])
    (hbase : Names setting c.cursor.rootPlace base) {renamed : VariantInstanceId}
    (hrenamed : translatePlaceVariant setting.catalogues setting.written base.valueType id =
      .ok renamed) :
    ∃ yes no, variantBranches setting.rootType facts setting.catalogues.unions setting.span
        setting.catalogues.records base renamed = .ok ⟨some yes, some no⟩ ∧
      Branches setting facts c (.unionHead id types) following yes no := by
  obtain ⟨howner, hposition⟩ := translatePlaceVariant_ok hrenamed
  have hc := h.known c List.mem_cons_self
  have hknows := hc base hbase
  have hid := declaredAt_owner hd hdeclared
  cases hwithin with
  | unlisted domain full =>
    rw [htype] at full
    cases hdom : c.domain with
    | closedDomain heads => exact absurd hdom (domain heads)
    | openDomain => rw [hdom] at full; cases full
    | scalarDomain =>
      rw [hdom] at full
      cases full with
      | scalar isScalar => simp [Check.TypeRef.isScalar] at isScalar
  | @closed heads all domain full sub =>
    obtain ⟨hkind, bits, hbits, hall⟩ := hknows.union owner arguments heads htype domain
    have hin := hmem heads domain
    rw [htype] at full
    cases full with
    | union found listed =>
      rw [hid] at hin
      obtain ⟨other, fields', hne, hother⟩ := exists_other_variant hd found listed sub hin
        fun known heq => hseveral known (heq ▸ domain)
      have hthis : bits[renamed.position]? = some true := by
        rw [hposition]
        exact (hall id.position).mpr ⟨types, hin⟩
      have hyes : ∃ position : Nat, (narrowed bits renamed.position true)[position]? = some true :=
        ⟨renamed.position, narrowed_true.mpr ⟨hthis, by simp⟩⟩
      have hno : ∃ position : Nat, (narrowed bits renamed.position false)[position]? = some true :=
        ⟨other, narrowed_true.mpr ⟨(hall other).mpr ⟨fields', hother⟩, by simp [hposition, hne]⟩⟩
      have hlt : renamed.position < bits.length := (List.getElem?_eq_some_iff.mp hthis).1
      have hgrow : ∀ succeeds, (∃ position : Nat,
          (narrowed bits renamed.position succeeds)[position]? = some true) →
          Grow setting facts (putConstraint base
            (.variantPossibilities (narrowed bits renamed.position succeeds)) facts) :=
        fun succeeds hsome => .variantsPut hkind hbits (fun _ hp => (narrowed_true.mp hp).1) hsome
      have hapart := List.pairwise_cons.mp h.apart
      refine ⟨_, _, Except.bind_eq_ok.mpr ⟨(), hknows.verified, Except.bind_eq_ok.mpr
        ⟨_, refineVariants_some howner hbits hlt hyes, Except.bind_eq_ok.mpr
          ⟨_, refineVariants_some howner hbits hlt hno, rfl⟩⟩⟩, ?_⟩
      refine ⟨hgrow true hyes, hgrow false hno, hc.opened.put hbase (hgrow true hyes), ?_, ?_, ?_⟩
      · intro base' hbase'
        obtain rfl := hbase.unique hbase'
        refine ⟨_, variantPossibilities_put .., singletonVariant_iff.mpr ⟨?_, fun position hp => ?_⟩⟩
        · exact narrowed_true.mpr ⟨hposition ▸ hthis, by simp [hposition]⟩
        · have hsame := (narrowed_true.mp hp).2
          simpa [hposition] using hsame
      · exact Known.frame ⟨fun other hother => h.known other (List.mem_cons_of_mem _ hother),
          hapart.2⟩ hbase hapart.1 (hgrow true hyes)
      · refine h.excluded hbase (hgrow false hno) ?_ ?_
        · intro owner' arguments' heads' htype' hheads'
          obtain ⟨rfl, rfl⟩ : owner = owner' ∧ arguments = arguments' := by
            rw [htype] at htype'
            simpa using htype'
          rw [excludeHead_closed domain] at hheads'
          cases hheads'
          refine ⟨fun bounds => by simp [placeConstraint_put_self], _,
            variantPossibilities_put .., fun position => ?_⟩
          rw [narrowed_true, hall position, hposition]
          constructor
          · rintro ⟨⟨fields, hfields⟩, hnot⟩
            refine ⟨fields, List.mem_filter.mpr ⟨hfields, ?_⟩⟩
            rw [hid]
            simp only [Head.different, Head.same]
            simpa using hnot
          · rintro ⟨fields, hfields⟩
            obtain ⟨hfields, hdifferent⟩ := List.mem_filter.mp hfields
            refine ⟨⟨fields, hfields⟩, ?_⟩
            rw [hid] at hdifferent
            simp only [Head.different, Head.same] at hdifferent
            simpa using hdifferent
        · intro element heads' htype'
          exact absurd (htype.symm.trans htype') (by simp)

/-! ### Lengths -/

theorem listed_both (hwithin : ColumnWithin checked c) {element : Check.TypeRef}
    (htype : c.type = .listType element)
    (hsome : ∀ heads, c.domain = .closedDomain heads → heads ≠ [])
    (hseveral : ∀ known, c.domain ≠ .closedDomain [known]) :
    c.domain = .closedDomain [.nilHead, .consHead element] := by
  cases hwithin with
  | unlisted domain full =>
    rw [htype] at full
    cases hdom : c.domain with
    | closedDomain heads => exact absurd hdom (domain heads)
    | openDomain => rw [hdom] at full; cases full
    | scalarDomain =>
      rw [hdom] at full
      cases full with
      | scalar isScalar => simp [Check.TypeRef.isScalar] at isScalar
  | @closed heads all domain full sub =>
    rw [htype] at full
    cases full with
    | list element =>
      rcases heads with _ | ⟨known, _ | ⟨second, rest⟩⟩
      · exact absurd rfl (hsome [] domain)
      · exact absurd domain (hseveral known)
      · rw [domain, sub.eq_of_length_le (by simp)]

section Lengths

variable {element : Check.TypeRef} {base : ConcretePatternPlace}

theorem Knows.both (h : Knows setting facts c base) (htype : c.type = .listType element)
    (hdomain : c.domain = .closedDomain [.nilHead, .consHead element]) :
    LengthsOnly base facts ∧ ∃ excluded,
      lengthBounds base facts = ⟨c.cursor.listSkip, none, excluded⟩ ∧
        ∀ length ∈ excluded, length < c.cursor.listSkip := by
  obtain ⟨hkind, hlist⟩ := h.list element _ htype hdomain
  have hminimum := hlist.nil (by simp)
  have hmaximum := (hlist.cons element (by simp)).1
  refine ⟨hkind, (lengthBounds base facts).excluded, ?_, fun length hlength => ?_⟩
  · rw [← hminimum, ← hmaximum]
  · rw [← hminimum]
    exact hlist.excluded length hlength

section

variable (hf : Faithful checked setting.catalogues)

include hf

theorem base_list (htype : c.type = .listType element)
    (hbase : Names setting c.cursor.rootPlace base) :
    ∃ inner, base.valueType = .listType inner := by
  have hlist := hbase.valueType
  rw [show c.cursor.rootPlace.valueType = .listType element from htype] at hlist
  obtain ⟨inner, -, hinner⟩ := hf.list _ _ hlist
  exact ⟨inner, hinner⟩

theorem length_branches (h : Known setting facts (c :: following))
    (htype : c.type = .listType element)
    (hdomain : c.domain = .closedDomain [.nilHead, .consHead element])
    (hbase : Names setting c.cursor.rootPlace base) {test : ListLengthTest} {head : Head}
    {yesBounds noBounds : LengthBounds}
    (hyes : refineLengths base test true facts = some (putConstraint base (.listLengths yesBounds)
      facts))
    (hno : refineLengths base test false facts = some (putConstraint base (.listLengths noBounds)
      facts)) (hyesMore : c.cursor.listSkip ≤ yesBounds.minimum)
    (hnoMore : c.cursor.listSkip ≤ noBounds.minimum)
    (hselected : Selected setting (putConstraint base (.listLengths yesBounds) facts) c head)
    (hexcluded : ListKnown ([.nilHead, .consHead element].filter fun known => known.different
      head) c.cursor.listSkip noBounds) :
    ∃ yes no, lengthBranches setting.rootType facts setting.catalogues.unions setting.span
        setting.catalogues.records base test = .ok ⟨some yes, some no⟩ ∧
      Branches setting facts c head following yes no := by
  have hc := h.known c List.mem_cons_self
  have hknows := hc base hbase
  obtain ⟨hkind, excluded, hbounds, -⟩ := hknows.both htype hdomain
  obtain ⟨inner, hinner⟩ := base_list hf htype hbase
  have hgrow : ∀ bounds : LengthBounds, c.cursor.listSkip ≤ bounds.minimum →
      Grow setting facts (putConstraint base (.listLengths bounds) facts) := by
    intro bounds hmore
    refine .lengthsPut hinner hkind ?_
    rw [hbounds]
    exact hmore
  have hapart := List.pairwise_cons.mp h.apart
  refine ⟨_, _, Except.bind_eq_ok.mpr ⟨(), hknows.verified, Except.bind_eq_ok.mpr ⟨inner, ?_, ?_⟩⟩,
    hgrow yesBounds hyesMore, hgrow noBounds hnoMore, ?_, hselected, ?_, ?_⟩
  · rw [hinner]
    rfl
  · rw [hyes, hno]
  · exact hc.opened.put hbase (hgrow yesBounds hyesMore)
  · exact Known.frame ⟨fun other hother => h.known other (List.mem_cons_of_mem _ hother),
      hapart.2⟩ hbase hapart.1 (hgrow yesBounds hyesMore)
  · refine h.excluded hbase (hgrow noBounds hnoMore) ?_ ?_
    · intro owner arguments heads htype'
      exact absurd (htype.symm.trans htype') (by simp)
    · intro element' heads htype' hheads
      rw [excludeHead_closed hdomain] at hheads
      cases hheads
      refine ⟨fun possible => by simp [placeConstraint_put_self], ?_⟩
      rw [lengthBounds_put]
      exact hexcluded

theorem nil_branches (h : Known setting facts (c :: following)) (htype : c.type = .listType element)
    (hdomain : c.domain = .closedDomain [.nilHead, .consHead element])
    (hskip : c.cursor.listSkip < intMaximum) (hbase : Names setting c.cursor.rootPlace base) :
    ∃ yes no, lengthBranches setting.rootType facts setting.catalogues.unions setting.span
        setting.catalogues.records base (.exactLength c.cursor.listSkip) = .ok ⟨some yes, some no⟩ ∧
      Branches setting facts c .nilHead following yes no := by
  obtain ⟨-, excluded, hbounds, hexcluded⟩ :=
    (h.known c List.mem_cons_self base hbase).both htype hdomain
  refine length_branches hf h htype hdomain hbase (refineLengths_exact_yes hbounds hexcluded)
    (refineLengths_exact_no hbounds hexcluded hskip) (Nat.le_refl _) (Nat.le_succ _) trivial ?_
  · refine ⟨fun length hlength => ?_, ?_, ?_⟩
    · rcases List.mem_append.mp hlength with hlength | hlength
      · exact Nat.lt_succ_of_lt (hexcluded length hlength)
      · obtain rfl := List.mem_singleton.mp hlength
        exact Nat.lt_succ_self _
    all_goals simp [Head.different, Head.same]

theorem cons_branches (h : Known setting facts (c :: following))
    (htype : c.type = .listType element)
    (hdomain : c.domain = .closedDomain [.nilHead, .consHead element])
    (hbase : Names setting c.cursor.rootPlace base) :
    ∃ yes no, lengthBranches setting.rootType facts setting.catalogues.unions setting.span
        setting.catalogues.records base (.minimumLength (c.cursor.listSkip + 1))
          = .ok ⟨some yes, some no⟩ ∧
      Branches setting facts c (.consHead element) following yes no := by
  obtain ⟨-, excluded, hbounds, hexcluded⟩ :=
    (h.known c List.mem_cons_self base hbase).both htype hdomain
  refine length_branches hf h htype hdomain hbase (refineLengths_minimum_yes hbounds hexcluded)
    (refineLengths_minimum_no hbounds hexcluded) (Nat.le_succ _) (Nat.le_refl _) ?_ ?_
  · intro base' hbase'
    obtain rfl := hbase.unique hbase'
    rw [lengthBounds_put]
    exact ⟨fun possible => by simp [placeConstraint_put_self], rfl, rfl,
      fun length hlength => Nat.lt_succ_of_lt (hexcluded length hlength)⟩
  · exact ⟨hexcluded, fun _ => rfl, by simp [Head.different, Head.same]⟩

end

end Lengths

/-! ### Literals -/

theorem literal_branches (h : Known setting facts (c :: following)) {literal : LiteralPattern}
    (hopen : ∀ heads, c.domain ≠ .closedDomain heads) {base : ConcretePatternPlace}
    (hbase : Names setting c.cursor.rootPlace base) (hfits : fits literal base.valueType = true) :
    ∃ yes no, literalBranches setting.rootType facts setting.catalogues.unions setting.span
        setting.catalogues.records base literal = .ok ⟨some yes, some no⟩ ∧
      Branches setting facts c (.literalHead literal) following yes no := by
  have hc := h.known c List.mem_cons_self
  refine ⟨facts, facts, Except.bind_eq_ok.mpr ⟨(), (hc base hbase).verified, if_pos hfits⟩,
    .refl .., .refl .., hc.opened, trivial, ?_, ?_⟩
  · exact ⟨fun other hother => h.known other (List.mem_cons_of_mem _ hother),
      (List.pairwise_cons.mp h.apart).2⟩
  · have hsame : excludeHead c (.literalHead literal) = c := by
      unfold excludeHead
      split
      · next heads hdomain => exact absurd hdomain (hopen heads)
      · rfl
      · rfl
    rw [hsame]
    exact h

/-! ### Any test -/

theorem domain_open {type : Check.TypeRef} (hwithin : ColumnWithin checked c) (htype : c.type = type)
    (hopen : ∀ heads, ¬ DomainOf checked type (.closedDomain heads)) (heads : List Head) :
    c.domain ≠ .closedDomain heads := by
  intro hdomain
  cases hwithin with
  | closed domain full sub => exact hopen _ (htype ▸ full)
  | unlisted domain full => exact domain heads hdomain

/-- **Both branches of a compiled test are feasible**, and each leaves its columns known. -/
theorem test_branches (hd : DeclarationsValid checked) (hf : Faithful checked setting.catalogues)
    (h : Known setting facts (c :: following)) (hwithin : ColumnWithin checked c) {head : Head}
    {parts : List Check.TypeRef} (hfits : HeadFits checked c.type head parts)
    (hmem : ∀ heads, c.domain = .closedDomain heads → head ∈ heads)
    (hseveral : ∀ known, c.domain ≠ .closedDomain [known])
    (hskip : c.cursor.listSkip < intMaximum) {span : Span} {yesNode noNode : DecisionNodeId}
    {test : CheckedDecisionNode} (htest : headTest span c head yesNode noNode = .ok test)
    {node : OwnedDecisionNode} (hnode : Carries setting test node) :
    ∃ yes no, decisionBranches setting.rootType facts setting.catalogues.unions setting.span
        setting.catalogues.records node = .ok ⟨some yes, some no⟩ ∧
      Branches setting facts c head following yes no := by
  generalize hctype : c.type = type at hfits
  cases hfits with
  | union declared =>
    cases htest
    cases hnode with
    | variant named translated =>
      exact variant_branches hd h hwithin hctype declared hmem hseveral named translated
  | tuple types => cases htest
  | nil element =>
    cases htest
    cases hnode with
    | length named =>
      have hdomain := listed_both hwithin hctype
        (fun heads hheads hnil => by simpa [hnil] using hmem heads hheads) hseveral
      exact nil_branches hf h hctype hdomain hskip named
  | cons element =>
    cases htest
    cases hnode with
    | length named =>
      have hdomain := listed_both hwithin hctype
        (fun heads hheads hnil => by simpa [hnil] using hmem heads hheads) hseveral
      exact cons_branches hf h hctype hdomain named
  | bytes text =>
    cases htest
    cases hnode with
    | @literal _ base _ _ _ named =>
      have htype := named.valueType
      rw [show c.cursor.rootPlace.valueType = .stringType from hctype] at htype
      refine literal_branches h (domain_open hwithin hctype fun heads hdom => by cases hdom) named ?_
      simp [fits, hf.string _ htype]
  | int value =>
    cases htest
    cases hnode with
    | @literal _ base _ _ _ named =>
      have htype := named.valueType
      rw [show c.cursor.rootPlace.valueType = .intType from hctype] at htype
      refine literal_branches h (domain_open hwithin hctype fun heads hdom => by cases hdom) named ?_
      simp [fits, hf.int _ htype]

end Tests

end Blorp.Verify
