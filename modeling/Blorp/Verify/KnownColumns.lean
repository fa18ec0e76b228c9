import Blorp.Verify.Renaming

/-!
# What the path knows about a column

The pattern compiler keeps a domain for each column, the verifier keeps facts about places.
On every path of a compiled selection the two agree (`Knows`): the possible variants of a
union column are the heads its domain lists, the length bounds of a list column start at its
cursor, and nothing is known yet below any column.  Columns look at separate places
(`Apart`), so a test of one leaves what is known about the others.
-/

namespace Blorp.Verify

open Check hiding TypeRef Namespace
open Specialize

/-! ## Columns -/

/-- The length bounds of a list column, whose cursor has passed `skip` elements. -/
structure ListKnown (heads : List Head) (skip : Nat) (bounds : LengthBounds) : Prop where
  excluded : ∀ length ∈ bounds.excluded, length < bounds.minimum
  nil : .nilHead ∈ heads → bounds.minimum = skip
  cons : ∀ element, .consHead element ∈ heads →
    bounds.maximum = none ∧ (.nilHead ∉ heads → bounds.minimum = skip + 1)

/-- What the facts say about a column, by the name of its place. -/
structure Knows (setting : Setting) (facts : List PlaceFact) (c : Column)
    (base : ConcretePatternPlace) : Prop where
  verified : Verified setting facts base
  least : c.cursor.listSkip ≤ (lengthBounds base facts).minimum
  fresh : ∀ place, StrictlyUnder base c.cursor.listSkip place → placeConstraint place facts = none
  union : ∀ owner arguments heads, c.type = unionType owner arguments →
    c.domain = .closedDomain heads → VariantsOnly base facts ∧
      ∃ bits, Possible setting facts base bits ∧ ∀ position : Nat, bits[position]? = some true ↔
        ∃ fields, .unionHead ⟨owner, position⟩ fields ∈ heads
  list : ∀ element heads, c.type = .listType element → c.domain = .closedDomain heads →
    LengthsOnly base facts ∧ ListKnown heads c.cursor.listSkip (lengthBounds base facts)

def ColumnKnown (setting : Setting) (facts : List PlaceFact) (c : Column) : Prop :=
  ∀ base, Names setting c.cursor.rootPlace base → Knows setting facts c base

/-- Two columns that look at separate places. -/
def Apart (setting : Setting) (c other : Column) : Prop :=
  ∀ base base', Names setting c.cursor.rootPlace base →
    Names setting other.cursor.rootPlace base' →
    ∀ place, UnderPlace base c.cursor.listSkip place → ¬ UnderPlace base' other.cursor.listSkip place

theorem Apart.symm {setting : Setting} {c other : Column} (h : Apart setting c other) :
    Apart setting other c :=
  fun base base' hbase hbase' place hwithin hwithin' =>
    h base' base hbase' hbase place hwithin' hwithin

section

variable (setting : Setting) (facts : List PlaceFact)

structure Known (columns : List Column) : Prop where
  known : ∀ c ∈ columns, ColumnKnown setting facts c
  apart : columns.Pairwise (Apart setting)

/-- What is left of a column once its head is selected: its place, with nothing known below. -/
structure Opened (c : Column) : Prop where
  established : Established setting facts c.cursor.rootPlace
  least : LeastLength setting facts c.cursor.rootPlace c.cursor.listSkip
  fresh : ∀ base, Names setting c.cursor.rootPlace base →
    ∀ place, StrictlyUnder base c.cursor.listSkip place → placeConstraint place facts = none

/-- The facts have selected this head of the column. -/
def Selected (c : Column) : Head → Prop
  | .unionHead id _ => ∀ base, Names setting c.cursor.rootPlace base →
      ∃ bits, Possible setting facts base bits ∧ singletonVariant bits id.position = true
  | .consHead _ => ∀ base, Names setting c.cursor.rootPlace base → LengthsOnly base facts ∧
      (lengthBounds base facts).minimum = c.cursor.listSkip + 1 ∧
      (lengthBounds base facts).maximum = none ∧
      ∀ length ∈ (lengthBounds base facts).excluded, length < c.cursor.listSkip + 1
  | _ => True

end

section Columns

variable {setting : Setting} {checked : List CheckedUnion} {facts : List PlaceFact}

variable {c : Column} {columns fields : List Column} {span : Span}

theorem ColumnKnown.opened (h : ColumnKnown setting facts c) : Opened setting facts c :=
  ⟨fun base hbase => (h base hbase).verified, fun base hbase => (h base hbase).least,
    fun base hbase => (h base hbase).fresh⟩

theorem Known.moveFirst (h : Known setting facts columns) (k : Nat) :
    Known setting facts (moveFirst columns k) := by
  refine ⟨fun c hc => h.known c (mem_of_mem_moveFirst hc), ?_⟩
  unfold Check.moveFirst
  split
  · exact h.apart
  · split
    · exact h.apart
    · next selected hselected =>
      have hperm : List.Perm (selected :: columns.eraseIdx k) columns := by
        obtain ⟨hk, rfl⟩ := List.getElem?_eq_some_iff.mp hselected
        exact List.getElem_cons_eraseIdx_perm hk
      exact (hperm.pairwise_iff Apart.symm).mpr h.apart

theorem mem_unionHeads_position (hd : DeclarationsValid checked) {owner : UnionId}
    {declaration : CheckedUnion} (hfound : checked[owner]? = some declaration)
    {arguments : List Check.TypeRef} {heads : List Head}
    (hlisted : unionHeads declaration.variants ⟨owner, arguments⟩ = .ok heads) (position : Nat) :
    (∃ fields, .unionHead ⟨owner, position⟩ fields ∈ heads) ↔
      position < declaration.variants.length := by
  constructor
  · rintro ⟨fields, hmem⟩
    obtain ⟨variant, hvariant, uses, -, hhead⟩ := (mem_unionHeads hlisted _).mp hmem
    obtain ⟨at_, hat⟩ := List.mem_iff_getElem?.mp hvariant
    have hid := hd.ids owner declaration hfound at_ variant hat
    have hposition : position = at_ := by
      have hids : (⟨owner, position⟩ : VariantId) = variant.id := (Head.unionHead.inj hhead).1
      rw [hid] at hids
      exact (VariantId.mk.inj hids).2
    rw [hposition]
    exact (List.getElem?_eq_some_iff.mp hat).1
  · intro hlt
    have hvariant := List.getElem?_eq_getElem hlt
    have hid := hd.ids owner declaration hfound position _ hvariant
    have hall := List.mapM_eq_ok_iff.mp hlisted
    have hlt' : position < heads.length := by
      rw [← hall.length_eq]
      exact hlt
    have hthis := (List.forall₂_iff_get.mp hall).2 position hlt hlt'
    simp only [List.get_eq_getElem] at hthis
    obtain ⟨uses, -, hhead⟩ := variantHead_eq_ok.mp hthis
    rw [hid] at hhead
    exact ⟨_, hhead ▸ List.getElem_mem hlt'⟩

variable {base : ConcretePatternPlace} {route : Nat → CheckedPatternRoute}

theorem knows_fresh (hd : DeclarationsValid checked) (hf : Faithful checked setting.catalogues)
    {type : Check.TypeRef} (hfresh : FreshColumn checked type c) (hskip : c.cursor.listSkip = 0)
    (hbase : Names setting c.cursor.rootPlace base) (hverified : Verified setting facts base)
    (hnone : ∀ place, UnderPlace base 0 place → placeConstraint place facts = none) :
    Knows setting facts c base := by
  have hconstraint : placeConstraint base facts = none := hnone base (.inl rfl)
  have hdomain := hfresh.2
  refine ⟨hverified, by omega, fun place hinside => hnone place (.inr (hskip ▸ hinside)), ?_, ?_⟩
  · intro owner arguments heads htype hheads
    refine ⟨by simp [VariantsOnly, hconstraint], ?_⟩
    rw [hfresh.1.symm.trans htype] at hdomain
    rw [hheads] at hdomain
    have hunion := hbase.valueType
    rw [show c.cursor.rootPlace.valueType = unionType owner arguments from htype] at hunion
    obtain ⟨id, layout, declaration, hconcrete, hlayout, hfound, hlength, -⟩ := hf.union _ _ _ hunion
    cases hdomain with
    | union found listed =>
      rw [hfound] at found
      cases found
      refine ⟨layout.unionVariants.map fun _ => true, ?_, fun position => ?_⟩
      · unfold Possible variantPossibilities
        rw [hconstraint, hconcrete]
        simp [hlayout]
      · rw [mem_unionHeads_position hd hfound listed, ← hlength]
        simp [List.getElem?_eq_some_iff]
  · intro element heads htype hheads
    rw [hfresh.1.symm.trans htype] at hdomain
    rw [hheads] at hdomain
    refine ⟨by simp [LengthsOnly, hconstraint], ?_⟩
    have hbounds : lengthBounds base facts = ⟨0, none, []⟩ := by
      unfold lengthBounds
      rw [hconstraint]
    cases hdomain
    rw [hbounds, hskip]
    exact ⟨by simp, by simp, by simp⟩

theorem Known.frame (h : Known setting facts columns)
    (hbase : Names setting c.cursor.rootPlace base)
    (hapart : ∀ other ∈ columns, Apart setting c other) {constraint : PlaceConstraint}
    (hgrow : Grow setting facts (putConstraint base constraint facts)) :
    Known setting (putConstraint base constraint facts) columns := by
  refine ⟨fun other hother base' hbase' => ?_, h.apart⟩
  have hold := h.known other hother base' hbase'
  have hne : ∀ place, UnderPlace base' other.cursor.listSkip place → place ≠ base := by
    rintro place hwithin rfl
    exact hapart other hother place base' hbase hbase' place (.inl rfl) hwithin
  have hsame : ∀ place, UnderPlace base' other.cursor.listSkip place →
      placeConstraint place (putConstraint base constraint facts) = placeConstraint place facts :=
    fun place hwithin => placeConstraint_put_ne (hne place hwithin) constraint facts
  have hhere := hsame base' (.inl rfl)
  refine ⟨verifyPatternPlace_grows hgrow base' hold.verified,
    Nat.le_trans hold.least (hgrow.lengths base'), fun place hinside => ?_, ?_, ?_⟩
  · rw [hsame place (.inr hinside)]
    exact hold.fresh place hinside
  · intro owner arguments heads htype hheads
    obtain ⟨hkind, bits, hbits, hall⟩ := hold.union owner arguments heads htype hheads
    refine ⟨fun bounds => ?_, bits, ?_, hall⟩
    · rw [hhere]
      exact hkind bounds
    · unfold Possible
      rw [variantPossibilities_congr hhere]
      exact hbits
  · intro element heads htype hheads
    obtain ⟨hkind, hlist⟩ := hold.list element heads htype hheads
    refine ⟨fun possible => ?_, ?_⟩
    · rw [hhere]
      exact hkind possible
    · rw [lengthBounds_congr hhere]
      exact hlist

/-! ## Child columns -/

/-- The places of `inner` lie among those of `c`. -/
def Beneath (setting : Setting) (c inner : Column) : Prop :=
  ∀ base', Names setting inner.cursor.rootPlace base' →
    ∃ base, Names setting c.cursor.rootPlace base ∧
      ∀ place, UnderPlace base' inner.cursor.listSkip place → UnderPlace base c.cursor.listSkip place

theorem Beneath.apart {inner other : Column} (h : Beneath setting c inner)
    (hapart : Apart setting c other) : Apart setting inner other := by
  intro base' other' hbase' hother place hwithin
  obtain ⟨base, hbase, hsub⟩ := h base' hbase'
  exact hapart base other' hbase hother place (hsub place hwithin)

/-- Routes that name the children of a place, one for each ordinal. -/
structure ChildRoutes (setting : Setting) (c : Column) (route : Nat → CheckedPatternRoute) : Prop where
  parent : ∀ type ordinal child, Names setting (.mk type (route ordinal)) child →
    ∃ base, Names setting c.cursor.rootPlace base ∧ parentPlace child = some base ∧
      StrictlyUnder base c.cursor.listSkip child
  distinct : ∀ type type' ordinal ordinal' child child', ordinal ≠ ordinal' →
    Names setting (.mk type (route ordinal)) child →
    Names setting (.mk type' (route ordinal')) child' → child ≠ child'

theorem childRoutes_unionField (c : Column) (id : VariantId) :
    ChildRoutes setting c fun ordinal => .unionField c.cursor.rootPlace id ordinal := by
  constructor
  · intro type ordinal child hname
    obtain ⟨base, owner, valueType, hbase, -, -, rfl⟩ := names_unionField hname
    exact ⟨base, hbase, rfl, .child rfl (by simp)⟩
  · intro type type' ordinal ordinal' child child' hne hname hname' heq
    obtain ⟨base, owner, valueType, -, -, -, rfl⟩ := names_unionField hname
    obtain ⟨base', owner', valueType', -, -, -, rfl⟩ := names_unionField hname'
    simp only [ConcretePatternPlace.mk.injEq, ConcretePatternRoute.unionField.injEq,
      VariantFieldInstanceId.mk.injEq] at heq
    exact hne heq.2.2.2

theorem childRoutes_recordField (c : Column) :
    ChildRoutes setting c fun ordinal => .recordField c.cursor.rootPlace ordinal := by
  constructor
  · intro type ordinal child hname
    obtain ⟨base, owner, valueType, hbase, -, -, rfl⟩ := names_recordField hname
    exact ⟨base, hbase, rfl, .child rfl (by simp)⟩
  · intro type type' ordinal ordinal' child child' hne hname hname' heq
    obtain ⟨base, owner, valueType, -, -, -, rfl⟩ := names_recordField hname
    obtain ⟨base', owner', valueType', -, -, -, rfl⟩ := names_recordField hname'
    simp only [ConcretePatternPlace.mk.injEq, ConcretePatternRoute.recordField.injEq,
      FieldInstanceId.mk.injEq] at heq
    exact hne heq.2.2.2

theorem fieldColumnsFrom_cursor :
    ∀ {types : List Check.TypeRef} {ordinal : Nat} {fields : List Column},
      fieldColumnsFrom checked span route ordinal types = .ok fields →
      ∀ (i : Nat) (field : Column), fields[i]? = some field → ∃ type, types[i]? = some type ∧
        field.cursor = .valueCursor (.mk type (route (ordinal + i))) ∧
        FreshColumn checked type field := by
  intro types
  induction types with intro ordinal fields h i field hfield
  | nil =>
    cases h
    simp at hfield
  | cons type types ih =>
    unfold fieldColumnsFrom at h
    obtain ⟨child, hchild, h⟩ := Except.peel h
    obtain ⟨rest, hrest, h⟩ := Except.peel h
    cases h
    cases i with
    | zero =>
      obtain rfl : child = field := by simpa using hfield
      exact ⟨type, rfl, (column_spec hchild).1, freshColumn_of_column hchild⟩
    | succ i =>
      obtain ⟨found, hfound, hcursor, hfresh⟩ := ih hrest i field (by simpa using hfield)
      exact ⟨found, by simpa using hfound, by rw [hcursor, Nat.add_right_comm, Nat.add_assoc], hfresh⟩

section

variable (hd : DeclarationsValid checked) (hf : Faithful checked setting.catalogues)

include hd hf

theorem fieldColumns_known (hroutes : ChildRoutes setting c route)
    (hopened : Opened setting facts c) {types : List Check.TypeRef}
    (h : fieldColumns checked span types route = .ok fields)
    (hestablished : ∀ (i : Nat) type, types[i]? = some type → Established setting facts (.mk type
      (route i))) : Known setting facts fields ∧ ∀ field ∈ fields, Beneath setting c field := by
  have hcursor := fieldColumnsFrom_cursor h
  refine ⟨⟨fun field hfield => ?_, ?_⟩, fun field hfield => ?_⟩
  · obtain ⟨i, hi⟩ := List.mem_iff_getElem?.mp hfield
    obtain ⟨type, htype, hat, hfresh⟩ := hcursor i field hi
    rw [Nat.zero_add] at hat
    intro child hchild
    have hname : Names setting (.mk type (route i)) child := by rwa [hat] at hchild
    obtain ⟨base, hbase, hparent, hinside⟩ := hroutes.parent type i child hname
    refine knows_fresh hd hf hfresh (by rw [hat]; rfl) hchild (hestablished i type htype child hname) ?_
    exact fun place hwithin => hopened.fresh base hbase place (hinside.of_child hwithin)
  · rw [List.pairwise_iff_getElem]
    intro i j hi hj hij child child' hchild hchild' place hwithin
    obtain ⟨type, -, hat, -⟩ := hcursor i fields[i] (List.getElem?_eq_getElem hi)
    obtain ⟨type', -, hat', -⟩ := hcursor j fields[j] (List.getElem?_eq_getElem hj)
    rw [Nat.zero_add] at hat hat'
    rw [hat] at hchild
    rw [hat'] at hchild'
    obtain ⟨base, hbase, hparent, -⟩ := hroutes.parent type i child hchild
    obtain ⟨base', hbase', hparent', -⟩ := hroutes.parent type' j child' hchild'
    obtain rfl := hbase.unique hbase'
    refine hwithin.of_siblings hparent hparent' ?_
    exact hroutes.distinct type type' i j child child' (by omega) hchild hchild'
  · obtain ⟨i, hi⟩ := List.mem_iff_getElem?.mp hfield
    obtain ⟨type, -, hat, -⟩ := hcursor i field hi
    intro child hchild
    rw [hat] at hchild ⊢
    obtain ⟨base, hbase, -, hinside⟩ := hroutes.parent type _ child hchild
    exact ⟨base, hbase, fun place hwithin => .inr (hinside.of_child hwithin)⟩

theorem listChildColumns_known {element : Check.TypeRef} (htype : c.type = .listType element)
    (hopened : Opened setting facts c) (hselected : Selected setting facts c (.consHead element))
    (h : listChildColumns checked span c.cursor.rootPlace c.cursor.listSkip element = .ok fields) :
    Known setting facts fields ∧ ∀ field ∈ fields, Beneath setting c field := by
  obtain ⟨first, hfirst, h⟩ := Except.peel h
  cases h
  have hcursor := (column_spec hfirst).1
  have hleast : LeastLength setting facts c.cursor.rootPlace (c.cursor.listSkip + 1) :=
    fun base hbase => Nat.le_of_eq (hselected base hbase).2.1.symm
  have hestablished := established_listElement hf htype hopened.established hleast
  have hinside : ∀ child, Names setting first.cursor.rootPlace child → ∃ base valueType,
      Names setting c.cursor.rootPlace base ∧
        child = ⟨valueType, .listElement base c.cursor.listSkip⟩ ∧
        StrictlyUnder base c.cursor.listSkip child := by
    intro child hchild
    rw [hcursor] at hchild
    obtain ⟨base, valueType, hbase, -, rfl⟩ := names_listElement hchild
    refine ⟨base, valueType, hbase, rfl, .child rfl fun index hroute => ?_⟩
    simp only [ConcretePatternRoute.listElement.injEq, true_and] at hroute
    exact Nat.le_of_eq hroute
  refine ⟨⟨fun field hfield => ?_, ?_⟩, fun field hfield => ?_⟩
  · rcases List.mem_cons.mp hfield with rfl | hfield
    · intro child hchild
      obtain ⟨base, valueType, hbase, -, hin⟩ := hinside child hchild
      refine knows_fresh hd hf (freshColumn_of_column hfirst) (by rw [hcursor]; rfl) hchild ?_ ?_
      · rw [hcursor] at hchild
        exact hestablished child hchild
      · exact fun place hwithin => hopened.fresh base hbase place (hin.of_child hwithin)
    · obtain rfl := List.mem_singleton.mp hfield
      intro base hbase
      obtain ⟨hkind, hminimum, hmaximum, hexcluded⟩ := hselected base hbase
      refine ⟨hopened.established base hbase, Nat.le_of_eq hminimum.symm, fun place hin => ?_, ?_, ?_⟩
      · exact hopened.fresh base hbase place (hin.mono (Nat.le_succ _))
      · intro owner arguments heads hunion
        exact absurd (hunion.symm.trans htype) (by simp)
      · rintro inner heads - hheads
        cases hheads
        refine ⟨hkind, ?_, fun _ => hminimum, fun _ _ => ⟨hmaximum, by simp⟩⟩
        intro length hlength
        rw [hminimum]
        exact hexcluded length hlength
  · refine List.pairwise_pair.mpr fun child base' hchild hbase' place hwithin => ?_
    obtain ⟨base, valueType, hbase, rfl, -⟩ := hinside child hchild
    obtain rfl : base = base' := hbase.unique hbase'
    exact hwithin.element_before
  · rcases List.mem_cons.mp hfield with rfl | hfield
    · intro child hchild
      obtain ⟨base, valueType, hbase, -, hin⟩ := hinside child hchild
      exact ⟨base, hbase, fun place hwithin => .inr (hin.of_child hwithin)⟩
    · obtain rfl := List.mem_singleton.mp hfield
      exact fun base hbase => ⟨base, hbase, fun place hwithin => hwithin.mono (Nat.le_succ _)⟩

/-- **Selecting a head opens its components**: their columns are known, and apart from the
columns that follow. -/
theorem Known.select {head : Head} {parts : List Check.TypeRef}
    (hrest : Known setting facts columns) (hopened : Opened setting facts c)
    (hselected : Selected setting facts c head) (hapart : ∀ other ∈ columns, Apart setting c other)
    (hfits : HeadFits checked c.type head parts)
    (hchild : childColumns checked span c head = .ok fields) :
    Known setting facts (fields ++ columns) := by
  have hfields : Known setting facts fields ∧ ∀ field ∈ fields, Beneath setting c field := by
    generalize hctype : c.type = type at hfits
    cases hfits with
    | @union owner arguments id types declared =>
      refine fieldColumns_known hd hf (childRoutes_unionField c id) hopened hchild fun i type hi => ?_
      exact established_unionField hd hf hctype declared hi hopened.established hselected
    | tuple types =>
      refine fieldColumns_known hd hf (childRoutes_recordField c) hopened hchild fun i type hi => ?_
      exact established_recordField hf hctype hi hopened.established
    | nil element | bytes text | int value =>
      cases hchild
      exact ⟨⟨by simp, .nil⟩, by simp⟩
    | cons element => exact listChildColumns_known hd hf hctype hopened hselected hchild
  refine ⟨fun field hfield => ?_, ?_⟩
  · rcases List.mem_append.mp hfield with hfield | hfield
    · exact hfields.1.known field hfield
    · exact hrest.known field hfield
  · refine List.pairwise_append.mpr ⟨hfields.1.apart, hrest.apart, fun field hfield other hother => ?_⟩
    exact (hfields.2 field hfield).apart (hapart other hother)

end

end Columns

end Blorp.Verify
