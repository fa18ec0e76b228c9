import Blorp.Check.MatchCompilation
import Blorp.Specialize.Selection
import Blorp.Verify.PlaceFacts

/-!
# Renamed places

The catalogues of a program that was specialized rename checked types without changing their
shape (`Faithful`): a list stays a list, a tuple becomes a record with its elements as fields,
and a union at its arguments becomes one instance with the declared variants and fields.  A
place keeps its route, so a field or element of an established place is established as soon
as its parent's variant or length is.
-/

namespace Blorp.Verify

open Check hiding TypeRef Namespace
open Specialize

/-- What the catalogues promise about the concrete types they name. -/
structure Faithful (checked : List CheckedUnion) (catalogues : Catalogues) : Prop where
  list : ∀ element concrete, catalogues.concreteType (.listType element) = .ok concrete →
    ∃ inner, catalogues.concreteType element = .ok inner ∧ concrete = .listType inner
  string : ∀ concrete, catalogues.concreteType .stringType = .ok concrete → concrete = .stringType
  int : ∀ concrete, catalogues.concreteType .intType = .ok concrete → concrete = .intType
  tuple : ∀ elements concrete, catalogues.concreteType (.tupleType elements) = .ok concrete →
    ∃ owner layout, concrete = .recordType owner ∧ catalogues.records[owner]? = some layout ∧
      List.Forall₂ (fun element field => catalogues.concreteType element = .ok field) elements
        layout.recordFields
  union : ∀ owner arguments concrete,
    catalogues.concreteType (unionType owner arguments) = .ok concrete →
    ∃ id layout declaration, concrete = .unionType id ∧ catalogues.unions[id]? = some layout ∧
      checked[owner]? = some declaration ∧
      layout.unionVariants.length = declaration.variants.length ∧
      ∀ position types, DeclaredAt checked ⟨owner, arguments⟩ ⟨owner, position⟩ types →
        ∃ fields, layout.unionVariants[position]? = some fields ∧
          List.Forall₂ (fun type field => catalogues.concreteType type = .ok field) types fields

/-- What a translated selection is verified against: the catalogues, where translation and
verification report, and the scrutinee's type. -/
structure Setting where
  catalogues : Catalogues
  written : Span
  span : Span
  rootType : TypeRef

variable (setting : Setting)

def Names (place : CheckedPatternPlace) (concrete : ConcretePatternPlace) : Prop :=
  translatePlace setting.catalogues setting.written place = .ok concrete

def Verified (facts : List PlaceFact) (concrete : ConcretePatternPlace) : Prop :=
  verifyPatternPlace setting.rootType facts setting.catalogues.unions setting.span
    setting.catalogues.records concrete = .ok ()

def Possible (facts : List PlaceFact) (concrete : ConcretePatternPlace) (bits : List Bool) : Prop :=
  variantPossibilities concrete facts setting.catalogues.unions setting.span = .ok bits

/-- Facts that lose nothing for this setting's unions. -/
abbrev Grow (facts facts' : List PlaceFact) : Prop :=
  Narrows setting.catalogues.unions setting.span facts facts'

/-- Every name of the place is established by the facts. -/
def Established (facts : List PlaceFact) (place : CheckedPatternPlace) : Prop :=
  ∀ concrete, Names setting place concrete → Verified setting facts concrete

def LeastLength (facts : List PlaceFact) (place : CheckedPatternPlace) (count : Nat) : Prop :=
  ∀ concrete, Names setting place concrete → count ≤ (lengthBounds concrete facts).minimum

variable {setting}

variable {place parent : CheckedPatternPlace} {concrete : ConcretePatternPlace}
variable {type : Check.TypeRef}

variable {facts facts' : List PlaceFact}

theorem Established.grow (h : Established setting facts place) (hgrow : Grow setting facts facts') :
    Established setting facts' place :=
  fun concrete hname => verifyPatternPlace_grows hgrow concrete (h concrete hname)

theorem LeastLength.grow {count : Nat} (h : LeastLength setting facts place count)
    (hgrow : Grow setting facts facts') : LeastLength setting facts' place count :=
  fun concrete hname => Nat.le_trans (h concrete hname) (hgrow.lengths concrete)

/-! ## Names of a place -/

theorem Names.unique {other : ConcretePatternPlace} (h : Names setting place concrete)
    (h' : Names setting place other) : concrete = other :=
  Except.ok.inj (h.symm.trans h')

theorem names_mk {route : CheckedPatternRoute} (h : Names setting (.mk type route) concrete) :
    ∃ valueType translated, setting.catalogues.concreteType type = .ok valueType ∧
      translateRoute setting.catalogues setting.written route = .ok translated ∧
      concrete = ⟨valueType, translated⟩ := by
  unfold Names translatePlace at h
  obtain ⟨valueType, htype, h⟩ := Except.peel h
  obtain ⟨translated, hroute, h⟩ := Except.peel h
  cases h
  exact ⟨valueType, translated, htype, hroute, rfl⟩

theorem Names.valueType (h : Names setting place concrete) :
    setting.catalogues.concreteType place.valueType = .ok concrete.valueType := by
  obtain ⟨type, route⟩ := place
  obtain ⟨valueType, translated, htype, -, rfl⟩ := names_mk h
  exact htype

theorem translatePlaceVariant_ok {valueType : TypeRef} {id : VariantId}
    {variant : VariantInstanceId} {catalogues : Catalogues} {span : Span}
    (h : translatePlaceVariant catalogues span valueType id = .ok variant) :
    valueType = .unionType variant.owner ∧ variant.position = id.position := by
  unfold translatePlaceVariant at h
  obtain ⟨owner, howner, h⟩ := Except.peel h
  unfold translateVariant at h
  obtain ⟨declaration, -, h⟩ := Except.peel h
  obtain ⟨layout, -, h⟩ := Except.peel h
  split at h
  · obtain ⟨fields, -, h⟩ := Except.peel h
    cases h
    unfold concreteUnionOwner at howner
    split at howner
    · cases howner
      exact ⟨rfl, rfl⟩
    · cases howner
  · cases h

theorem names_unionField {id : VariantId} {ordinal : Nat}
    (h : Names setting (.mk type (.unionField parent id ordinal)) concrete) :
    ∃ base owner valueType, Names setting parent base ∧ base.valueType = .unionType owner ∧
      setting.catalogues.concreteType type = .ok valueType ∧
      concrete = ⟨valueType, .unionField base ⟨⟨owner, id.position⟩, ordinal⟩⟩ := by
  obtain ⟨valueType, translated, htype, hroute, rfl⟩ := names_mk h
  unfold translateRoute at hroute
  obtain ⟨base, hbase, hroute⟩ := Except.peel hroute
  obtain ⟨variant, hvariant, hroute⟩ := Except.peel hroute
  cases hroute
  obtain ⟨howner, hposition⟩ := translatePlaceVariant_ok hvariant
  refine ⟨base, variant.owner, valueType, hbase, howner, htype, ?_⟩
  rw [← hposition]

theorem names_recordField {ordinal : Nat}
    (h : Names setting (.mk type (.recordField parent ordinal)) concrete) :
    ∃ base owner valueType, Names setting parent base ∧ base.valueType = .recordType owner ∧
      setting.catalogues.concreteType type = .ok valueType ∧
      concrete = ⟨valueType, .recordField base ⟨owner, ordinal⟩⟩ := by
  obtain ⟨valueType, translated, htype, hroute, rfl⟩ := names_mk h
  unfold translateRoute at hroute
  obtain ⟨base, hbase, hroute⟩ := Except.peel hroute
  split at hroute
  · next owner howner =>
    cases hroute
    exact ⟨base, owner, valueType, hbase, howner, htype, rfl⟩
  · cases hroute

theorem names_listElement {index : Nat}
    (h : Names setting (.mk type (.listElement parent index)) concrete) :
    ∃ base valueType, Names setting parent base ∧
      setting.catalogues.concreteType type = .ok valueType ∧
      concrete = ⟨valueType, .listElement base index⟩ := by
  obtain ⟨valueType, translated, htype, hroute, rfl⟩ := names_mk h
  unfold translateRoute at hroute
  obtain ⟨base, hbase, hroute⟩ := Except.peel hroute
  cases hroute
  exact ⟨base, valueType, hbase, htype, rfl⟩

/-! ## Establishing a component -/

section Components

variable {checked : List CheckedUnion} {facts : List PlaceFact} {parent : CheckedPatternPlace}

variable {types : List Check.TypeRef}

variable {arguments : List Check.TypeRef}

theorem declaredAt_owner (hd : DeclarationsValid checked) {owner : UnionId} {id : VariantId}
    (h : DeclaredAt checked ⟨owner, arguments⟩ id types) : id = ⟨owner, id.position⟩ := by
  obtain ⟨declaration, variant, uses, hfound, hmem, rfl, -, -⟩ := h
  obtain ⟨position, hposition⟩ := List.mem_iff_getElem?.mp hmem
  rw [hd.ids owner declaration hfound position variant hposition]

theorem established_unionField (hd : DeclarationsValid checked)
    (hf : Faithful checked setting.catalogues) {owner : UnionId} {id : VariantId} {ordinal : Nat}
    (htype : parent.valueType = unionType owner arguments)
    (hdeclared : DeclaredAt checked ⟨owner, arguments⟩ id types) (hat : types[ordinal]? = some type)
    (hparent : Established setting facts parent)
    (hvariant : ∀ base, Names setting parent base → ∃ bits, Possible setting facts base bits ∧
      singletonVariant bits id.position = true) :
    Established setting facts (.mk type (.unionField parent id ordinal)) := by
  intro concrete hname
  obtain ⟨base, instanceId, valueType, hbase, howner, hconcrete, rfl⟩ := names_unionField hname
  have hunion := hbase.valueType
  rw [htype, howner] at hunion
  obtain ⟨known, layout, declaration, hknown, hlayout, -, -, hfields⟩ := hf.union _ _ _ hunion
  obtain rfl : instanceId = known := by simpa using hknown
  rw [declaredAt_owner hd hdeclared] at hdeclared
  obtain ⟨fields, hshape, hall⟩ := hfields id.position types hdeclared
  obtain ⟨bits, hbits, hsingle⟩ := hvariant base hbase
  obtain ⟨hordinal, rfl⟩ := List.getElem?_eq_some_iff.mp hat
  have hfield : fields[ordinal]? = some valueType := by
    have hlength := hall.length_eq
    have hordinal' : ordinal < fields.length := by omega
    have hthis := (List.forall₂_iff_get.mp hall).2 ordinal hordinal hordinal'
    rw [List.getElem?_eq_getElem hordinal']
    simp only [List.get_eq_getElem] at hthis
    exact congrArg some (Except.ok.inj (hthis.symm.trans hconcrete))
  have hvariantShape : variantShape ⟨instanceId, id.position⟩ setting.catalogues.unions setting.span
      = .ok fields :=
    Except.bind_eq_ok.mpr ⟨layout, orVerificationError_eq_ok.mpr hlayout,
      orVerificationError_eq_ok.mpr hshape⟩
  refine Except.bind_eq_ok.mpr ⟨(), hparent base hbase, ?_⟩
  refine Except.bind_eq_ok.mpr ⟨(), require_eq_ok.mpr (by simpa using howner), ?_⟩
  refine Except.bind_eq_ok.mpr ⟨fields, hvariantShape, ?_⟩
  refine Except.bind_eq_ok.mpr ⟨valueType, orVerificationError_eq_ok.mpr hfield, ?_⟩
  refine Except.bind_eq_ok.mpr ⟨(), require_eq_ok.mpr (by simp), ?_⟩
  exact Except.bind_eq_ok.mpr ⟨bits, hbits, require_eq_ok.mpr hsingle⟩

theorem established_recordField (hf : Faithful checked setting.catalogues) {ordinal : Nat}
    (htype : parent.valueType = .tupleType types) (hat : types[ordinal]? = some type)
    (hparent : Established setting facts parent) :
    Established setting facts (.mk type (.recordField parent ordinal)) := by
  intro concrete hname
  obtain ⟨base, owner, valueType, hbase, howner, hconcrete, rfl⟩ := names_recordField hname
  have htuple := hbase.valueType
  rw [htype, howner] at htuple
  obtain ⟨known, layout, hknown, hlayout, hall⟩ := hf.tuple _ _ htuple
  obtain rfl : owner = known := by simpa using hknown
  obtain ⟨hordinal, rfl⟩ := List.getElem?_eq_some_iff.mp hat
  have hlength := hall.length_eq
  have hordinal' : ordinal < layout.recordFields.length := by omega
  have hfield : layout.recordFields[ordinal]? = some valueType := by
    have hthis := (List.forall₂_iff_get.mp hall).2 ordinal hordinal hordinal'
    rw [List.getElem?_eq_getElem hordinal']
    simp only [List.get_eq_getElem] at hthis
    exact congrArg some (Except.ok.inj (hthis.symm.trans hconcrete))
  have hrecord : recordLayout owner setting.catalogues.records setting.span = .ok layout := by
    refine Except.bind_eq_ok.mpr ⟨layout, orVerificationError_eq_ok.mpr hlayout, ?_⟩
    exact if_pos (by omega)
  have hfieldType : recordFieldType ⟨owner, ordinal⟩ owner layout setting.span = .ok valueType := by
    unfold recordFieldType
    rw [if_neg (by simp)]
    exact orVerificationError_eq_ok.mpr hfield
  refine Except.bind_eq_ok.mpr ⟨(), hparent base hbase, ?_⟩
  refine Except.bind_eq_ok.mpr ⟨owner, by rw [howner]; rfl, ?_⟩
  refine Except.bind_eq_ok.mpr ⟨layout, hrecord, Except.bind_eq_ok.mpr ⟨valueType, hfieldType, ?_⟩⟩
  exact require_eq_ok.mpr (by simp)

theorem established_listElement (hf : Faithful checked setting.catalogues) {element : Check.TypeRef}
    {index : Nat} (htype : parent.valueType = .listType element)
    (hparent : Established setting facts parent)
    (hlength : LeastLength setting facts parent (index + 1)) :
    Established setting facts (.mk element (.listElement parent index)) := by
  intro concrete hname
  obtain ⟨base, valueType, hbase, hconcrete, rfl⟩ := names_listElement hname
  have hlist := hbase.valueType
  rw [htype] at hlist
  obtain ⟨inner, hinner, hbaseType⟩ := hf.list _ _ hlist
  obtain rfl : valueType = inner := Except.ok.inj (hconcrete.symm.trans hinner)
  have helement : listElementType base.valueType setting.span = .ok valueType := by
    rw [hbaseType]
    rfl
  refine Except.bind_eq_ok.mpr ⟨(), hparent base hbase, ?_⟩
  refine Except.bind_eq_ok.mpr ⟨valueType, helement, ?_⟩
  refine Except.bind_eq_ok.mpr ⟨(), require_eq_ok.mpr (by simp), ?_⟩
  exact require_eq_ok.mpr (decide_eq_true (Nat.lt_of_succ_le (hlength base hbase)))

end Components

end Blorp.Verify
