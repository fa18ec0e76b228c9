import Blorp.Check.Heads

/-!
# Typed columns

The checker only builds columns over declarations it has accepted
(`DeclarationsValid`): variant ids are issued by position, and a field type
mentions known unions at their arity and the union's own parameters.  Over such
declarations `column` succeeds on every valid type, its domain lists the heads
the type's values are built with, and `childColumns` types the components of a head.
-/

namespace Blorp.Check

variable {σ : Type}

/-! ## Valid types and declarations -/

mutual

/-- Unions are declared and applied at their arity, and `bound` admits every
type parameter that occurs. -/
def TypeRef.Valid (unions : List CheckedUnion) (bound : TypeParameterId → Prop) : TypeRef → Prop
  | .listType element => element.Valid unions bound
  | .tupleType elements => TypeRef.AllValid unions bound elements
  | .nominalType owner arguments =>
      (∀ id, owner = .aggregateNominal (.unionAggregate id) →
        ∃ declaration, unions[id]? = some declaration ∧
          arguments.length = declaration.typeParameters.length) ∧
      TypeRef.AllValid unions bound arguments
  | .parameterType id => bound id
  | .callableType _ parameters result =>
      TypeRef.AllValid unions bound parameters ∧ result.Valid unions bound
  | .voidType => True
  | .intType => True
  | .floatType => True
  | .stringType => True

def TypeRef.AllValid (unions : List CheckedUnion) (bound : TypeParameterId → Prop) :
    List TypeRef → Prop
  | [] => True
  | type :: types => type.Valid unions bound ∧ TypeRef.AllValid unions bound types

end

/-- The parameters a union declaration's own fields may mention. -/
def DeclaredParameter (owner : UnionId) (declaration : CheckedUnion) (id : TypeParameterId) : Prop :=
  id.owner = .unionDeclaration owner ∧ id.position < declaration.typeParameters.length

/-- The union declarations the checker accepts. -/
structure DeclarationsValid (unions : List CheckedUnion) : Prop where
  ids : ∀ (owner : UnionId) (declaration : CheckedUnion), unions[owner]? = some declaration →
    ∀ (position : Nat) (variant : CheckedVariant), declaration.variants[position]? = some variant →
      variant.id = ⟨owner, position⟩
  fields : ∀ (owner : UnionId) (declaration : CheckedUnion), unions[owner]? = some declaration →
    ∀ variant ∈ declaration.variants, ∀ field ∈ variant.fields,
      field.valueType.Valid unions (DeclaredParameter owner declaration)

/-- A type of the checked program: any type parameter in scope may occur. -/
abbrev TypeRef.InScope (unions : List CheckedUnion) (type : TypeRef) : Prop :=
  type.Valid unions fun _ => True

variable {unions : List CheckedUnion} {occurrence : UnionOccurrence} {types : List TypeRef}
variable {head : Head} {scalar : σ → TypeRef → Prop} {x subject : Value σ} {ys : List (Value σ)}
variable {span : Span} {c : Column} {heads : List Head}

theorem allValid_iff {bound : TypeParameterId → Prop} :
    ∀ {types : List TypeRef}, TypeRef.AllValid unions bound types ↔
      ∀ type ∈ types, type.Valid unions bound := by
  intro types
  induction types with
  | nil => simp [TypeRef.AllValid]
  | cons type types ih => simp [TypeRef.AllValid, ih]

mutual

theorem substituteType_valid {unions : List CheckedUnion} {owner : UnionId}
    {declaration : CheckedUnion} {arguments : List TypeRef} (span : Span)
    (hlen : arguments.length = declaration.typeParameters.length)
    (hargs : TypeRef.AllValid unions (fun _ => True) arguments) :
    ∀ type : TypeRef, type.Valid unions (DeclaredParameter owner declaration) →
      ∃ value, substituteType ⟨.unionDeclaration owner, arguments⟩ span type = .ok value ∧
        value.InScope unions
  | .voidType, _ => ⟨.voidType, rfl, trivial⟩
  | .intType, _ => ⟨.intType, rfl, trivial⟩
  | .floatType, _ => ⟨.floatType, rfl, trivial⟩
  | .stringType, _ => ⟨.stringType, rfl, trivial⟩
  | .listType element, h => by
      obtain ⟨value, hv, hok⟩ := substituteType_valid span hlen hargs element h
      exact ⟨.listType value, by simp [substituteType, hv, bind, Except.bind, pure, Except.pure], hok⟩
  | .tupleType elements, h => by
      obtain ⟨values, hv, hok, -⟩ := substituteTypes_valid span hlen hargs elements h
      exact ⟨.tupleType values, by simp [substituteType, hv, bind, Except.bind, pure, Except.pure], hok⟩
  | .nominalType nominal values, h => by
      obtain ⟨replaced, hv, hok, hl⟩ := substituteTypes_valid span hlen hargs values h.2
      refine ⟨.nominalType nominal replaced,
        by simp [substituteType, hv, bind, Except.bind, pure, Except.pure], ?_, hok⟩
      intro id hid
      obtain ⟨d, hd, hn⟩ := h.1 id hid
      exact ⟨d, hd, by rw [hl, hn]⟩
  | .parameterType id, h => by
      obtain ⟨howner, hpos⟩ := h
      have hlt : id.position < arguments.length := by omega
      refine ⟨arguments[id.position], ?_, ?_⟩
      · simp [substituteType, howner, hlt, orCheckerInvariant]
      · exact allValid_iff.mp hargs _ (List.getElem_mem hlt)
  | .callableType purity parameters result, h => by
      obtain ⟨values, hv, hok, -⟩ := substituteTypes_valid span hlen hargs parameters h.1
      obtain ⟨value, hr, hok'⟩ := substituteType_valid span hlen hargs result h.2
      exact ⟨.callableType purity values value,
        by simp [substituteType, hv, hr, bind, Except.bind, pure, Except.pure], hok, hok'⟩

theorem substituteTypes_valid {unions : List CheckedUnion} {owner : UnionId}
    {declaration : CheckedUnion} {arguments : List TypeRef} (span : Span)
    (hlen : arguments.length = declaration.typeParameters.length)
    (hargs : TypeRef.AllValid unions (fun _ => True) arguments) :
    ∀ types : List TypeRef, TypeRef.AllValid unions (DeclaredParameter owner declaration) types →
      ∃ values, substituteTypes ⟨.unionDeclaration owner, arguments⟩ span types = .ok values ∧
        TypeRef.AllValid unions (fun _ => True) values ∧ values.length = types.length
  | [], _ => ⟨[], rfl, trivial, rfl⟩
  | type :: types, h => by
      obtain ⟨value, hv, hok⟩ := substituteType_valid span hlen hargs type h.1
      obtain ⟨values, hvs, hoks, hl⟩ := substituteTypes_valid span hlen hargs types h.2
      exact ⟨value :: values, by simp [substituteTypes, hv, hvs, bind, Except.bind, pure, Except.pure],
        ⟨hok, hoks⟩, by simp [hl]⟩

end

theorem declaredAt_unique (hd : DeclarationsValid unions) {id : VariantId} {others : List TypeRef}
    (h : DeclaredAt unions occurrence id types) (h' : DeclaredAt unions occurrence id others) :
    types = others := by
  obtain ⟨d, v, uses, hu, hv, hid, huses, rfl⟩ := h
  obtain ⟨d', v', uses', hu', hv', hid', huses', rfl⟩ := h'
  rw [hu] at hu'
  cases hu'
  obtain ⟨i, hi⟩ := List.mem_iff_getElem?.mp hv
  obtain ⟨j, hj⟩ := List.mem_iff_getElem?.mp hv'
  have e1 := hd.ids _ _ hu i v hi
  have e2 := hd.ids _ _ hu j v' hj
  have hij : i = j := by
    have : (⟨occurrence.owner, i⟩ : VariantId) = ⟨occurrence.owner, j⟩ := by
      rw [← e1, ← e2, hid, hid']
    simpa using this
  subst hij
  rw [hi] at hj
  cases hj
  rw [huses] at huses'
  cases huses'
  rfl

/-! ## The heads of a type -/

/-- `head` builds values of the type, out of components of these types. -/
inductive HeadFits (unions : List CheckedUnion) : TypeRef → Head → List TypeRef → Prop where
  | union {owner : UnionId} {arguments : List TypeRef} {id : VariantId} {types : List TypeRef}
      (declared : DeclaredAt unions ⟨owner, arguments⟩ id types) :
      HeadFits unions (unionType owner arguments) (.unionHead id types) types
  | tuple (types : List TypeRef) : HeadFits unions (.tupleType types) (.tupleHead types) types
  | nil (element : TypeRef) : HeadFits unions (.listType element) .nilHead []
  | cons (element : TypeRef) :
      HeadFits unions (.listType element) (.consHead element) [element, .listType element]
  | bytes (text : String) : HeadFits unions .stringType (.literalHead (.exactBytes text)) []
  | int (value : Int) : HeadFits unions .intType (.literalHead (.exactInt value)) []

theorem HeadFits.arity {type : TypeRef} (h : HeadFits unions type head types) :
    types.length = head.arity := by
  cases h <;> rfl

theorem HeadFits.parts_typed (hd : DeclarationsValid unions) {type : TypeRef}
    (h : HeadFits unions type head types) (hx : HasType unions scalar x type)
    (hp : head.parts x = some ys) : List.Forall₂ (HasType unions scalar) ys types := by
  rw [parts_eq_some_iff] at hp
  cases h with
  | union declared =>
    cases hp with
    | union =>
      cases hx with
      | variant declared' typed => rwa [declaredAt_unique hd declared declared']
  | tuple types =>
    cases hp with
    | tuple => cases hx with | tuple typed => exact typed
  | nil element => cases hp; exact .nil
  | cons element =>
    cases hp with
    | cons _ x xs =>
      cases hx with
      | list typed =>
        refine .cons (typed x List.mem_cons_self) (.cons (.list fun y hy => ?_) .nil)
        exact typed y (List.mem_cons_of_mem _ hy)
  | bytes text => cases hp; exact .nil
  | int value => cases hp; exact .nil

theorem HeadFits.parts_length (hd : DeclarationsValid unions) {type : TypeRef}
    (h : HeadFits unions type head types) (hx : HasType unions scalar x type)
    (hp : head.parts x = some ys) : ys.length = head.arity := by
  rw [(h.parts_typed hd hx hp).length_eq, h.arity]

theorem HeadFits.children_fit (hd : DeclarationsValid unions) {type : TypeRef}
    (h : HeadFits unions type head types) {p : Pattern} (hp : PatternFits unions p type)
    (hm : p.matchesHead head = true) :
    List.Forall₂ (PatternFits unions) (p.children head) types := by
  cases hp with
  | anything =>
    rw [Pattern.children, ← h.arity]
    clear h hm
    induction types with
    | nil => exact .nil
    | cons t ts ih => exact .cons (.anything t) ih
  | variant declared typed =>
    cases h with
    | union declared' =>
      simp only [Pattern.matchesHead, Head.hasVariant, beq_iff_eq] at hm
      subst hm
      rwa [declaredAt_unique hd declared' declared]
  | tuple typed => cases h with | tuple types => exact typed
  | emptyList element =>
    cases h with
    | nil element => exact .nil
    | cons element => simp [Pattern.matchesHead] at hm
  | consList first rest =>
    cases h with
    | nil element => simp [Pattern.matchesHead, Head.isCons] at hm
    | cons element => exact .cons first (.cons rest .nil)
  | bytes text => cases h; exact .nil
  | int value => cases h; exact .nil

theorem HeadFits.build {type : TypeRef} (h : HeadFits unions type head types)
    (hy : List.Forall₂ (HasType unions scalar) ys types) :
    ∃ x, HasType unions scalar x type ∧ head.parts x = some ys := by
  cases h with
  | union declared => exact ⟨_, .variant declared hy, parts_eq_some_iff.mpr (.union _ _ _)⟩
  | tuple types => exact ⟨_, .tuple hy, parts_eq_some_iff.mpr (.tuple _ _)⟩
  | nil element =>
    cases hy
    exact ⟨.list [], .list (by simp), parts_eq_some_iff.mpr .nil⟩
  | cons element =>
    cases hy with
    | cons hx htail =>
      cases htail with
      | cons hxs hnil =>
        cases hnil
        cases hxs with
        | list typed =>
          refine ⟨.list (_ :: _), .list ?_, parts_eq_some_iff.mpr (.cons _ _ _)⟩
          intro y hy
          rcases List.mem_cons.mp hy with rfl | hy
          · exact hx
          · exact typed y hy
        | scalar isScalar => cases isScalar
  | bytes text =>
    cases hy
    exact ⟨_, .bytes text, parts_eq_some_iff.mpr (.literal _)⟩
  | int value =>
    cases hy
    exact ⟨_, .int value, parts_eq_some_iff.mpr (.literal _)⟩

/-! ## Domains -/

/-- The domain `column` gives a type. -/
inductive DomainOf (unions : List CheckedUnion) : TypeRef → ColumnDomain → Prop where
  | union {owner : UnionId} {arguments : List TypeRef} {declaration : CheckedUnion}
      {heads : List Head} (found : unions[owner]? = some declaration)
      (listed : unionHeads declaration.variants ⟨owner, arguments⟩ = .ok heads) :
      DomainOf unions (unionType owner arguments) (.closedDomain heads)
  | tuple (types : List TypeRef) :
      DomainOf unions (.tupleType types) (.closedDomain [.tupleHead types])
  | list (element : TypeRef) :
      DomainOf unions (.listType element) (.closedDomain [.nilHead, .consHead element])
  | string : DomainOf unions .stringType .openDomain
  | int : DomainOf unions .intType .openDomain
  | scalar {type : TypeRef} (isScalar : type.isScalar = true) : DomainOf unions type .scalarDomain

theorem column_spec {place : CheckedPatternPlace} {cursor : PatternCursor}
    (h : column unions span place cursor = .ok c) :
    c.cursor = cursor ∧ DomainOf unions place.valueType c.domain := by
  unfold column at h
  split at h
  · next occurrence ho =>
    obtain ⟨declaration, hfound, h⟩ := Except.peel h
    obtain ⟨heads, hheads, h⟩ := Except.peel h
    cases h
    refine ⟨rfl, ?_⟩
    have hu : unions[occurrence.owner]? = some declaration := by
      unfold orCheckerInvariant at hfound
      split at hfound
      · cases hfound; assumption
      · cases hfound
    unfold TypeRef.unionOccurrence at ho
    split at ho
    · next id arguments hty =>
      cases ho
      rw [hty]
      exact .union hu hheads
    · cases ho
  · next ho =>
    cases h
    refine ⟨rfl, ?_⟩
    cases hty : place.valueType with
    | tupleType types => exact .tuple types
    | listType element => exact .list element
    | stringType => exact .string
    | intType => exact .int
    | nominalType owner arguments =>
      refine .scalar ?_
      cases owner with
      | opaqueNominal id => rfl
      | aggregateNominal id =>
        cases id with
        | recordAggregate id => rfl
        | unionAggregate id => rw [hty] at ho; simp [TypeRef.unionOccurrence] at ho
    | voidType | floatType | parameterType id | callableType purity parameters result =>
      exact .scalar rfl

theorem variantHead_eq_ok {variant : CheckedVariant} :
    variantHead occurrence variant = .ok head ↔ ∃ uses,
      occurrenceFields variant.fields occurrence = .ok uses ∧
        head = .unionHead variant.id (uses.map TypeUse.valueType) := by
  unfold variantHead
  rw [Except.bind_eq_ok]
  constructor
  · rintro ⟨uses, hu, he⟩
    cases he
    exact ⟨uses, hu, rfl⟩
  · rintro ⟨uses, hu, rfl⟩
    exact ⟨uses, hu, rfl⟩

theorem mem_unionHeads {variants : List CheckedVariant}
    (h : unionHeads variants occurrence = .ok heads) (head : Head) :
    head ∈ heads ↔ ∃ variant ∈ variants, ∃ uses,
      occurrenceFields variant.fields occurrence = .ok uses ∧
        head = .unionHead variant.id (uses.map TypeUse.valueType) := by
  have hf := List.mapM_eq_ok_iff.mp h
  clear h
  induction hf with
  | nil => simp
  | cons hab _ ih =>
    rw [variantHead_eq_ok] at hab
    obtain ⟨uses, hu, rfl⟩ := hab
    simp only [List.mem_cons, ih, exists_eq_or_imp]
    constructor
    · rintro (rfl | h)
      · exact Or.inl ⟨uses, hu, rfl⟩
      · exact Or.inr h
    · rintro (⟨uses', hu', rfl⟩ | h)
      · rw [hu] at hu'
        cases hu'
        exact Or.inl rfl
      · exact Or.inr h

section

variable {type : TypeRef} (h : DomainOf unions type (.closedDomain heads))

include h

theorem DomainOf.head_fits (hm : head ∈ heads) : ∃ types, HeadFits unions type head types := by
  cases h with
  | union found listed =>
    obtain ⟨variant, hv, uses, hu, rfl⟩ := (mem_unionHeads listed head).mp hm
    exact ⟨_, .union ⟨_, variant, uses, found, hv, rfl, hu, rfl⟩⟩
  | tuple types =>
    rw [List.mem_singleton] at hm
    subst hm
    exact ⟨_, .tuple types⟩
  | list element =>
    rcases List.mem_cons.mp hm with rfl | hm
    · exact ⟨_, .nil element⟩
    · rw [List.mem_singleton] at hm
      subst hm
      exact ⟨_, .cons element⟩

theorem DomainOf.exists_parts (hx : HasType unions scalar x type) :
    ∃ head ∈ heads, ∃ ys, head.parts x = some ys := by
  cases h with
  | union found listed =>
    cases hx with
    | variant declared typed =>
      obtain ⟨d, variant, uses, hd, hv, rfl, hu, rfl⟩ := declared
      rw [found] at hd
      cases hd
      refine ⟨_, (mem_unionHeads listed _).mpr ⟨variant, hv, uses, hu, rfl⟩, _,
        parts_eq_some_iff.mpr (.union _ _ _)⟩
    | scalar isScalar => cases isScalar
  | tuple types =>
    cases hx with
    | tuple typed => exact ⟨_, List.mem_singleton_self _, _, parts_eq_some_iff.mpr (.tuple _ _)⟩
    | scalar isScalar => cases isScalar
  | list element =>
    cases hx with
    | @list elements _ typed =>
      cases elements with
      | nil => exact ⟨.nilHead, by simp, _, parts_eq_some_iff.mpr .nil⟩
      | cons y ys => exact ⟨.consHead element, by simp, _, parts_eq_some_iff.mpr (.cons _ _ _)⟩
    | scalar isScalar => cases isScalar

theorem DomainOf.exists_matchesHead {p : Pattern} (hp : PatternFits unions p type)
    (hany : p.isAny = false) : ∃ head ∈ heads, p.matchesHead head = true := by
  cases hp with
  | anything => simp [Pattern.isAny] at hany
  | variant declared typed =>
    obtain ⟨d, variant, uses, hd, hv, rfl, hu, rfl⟩ := declared
    cases h with
    | union found listed =>
      rw [found] at hd
      cases hd
      refine ⟨_, (mem_unionHeads listed _).mpr ⟨variant, hv, uses, hu, rfl⟩, ?_⟩
      simp [Pattern.matchesHead, Head.hasVariant]
  | tuple typed => cases h; exact ⟨_, List.mem_singleton_self _, rfl⟩
  | emptyList element => cases h; exact ⟨.nilHead, by simp, rfl⟩
  | @consList head tail element first rest =>
    cases h
    exact ⟨.consHead element, by simp, rfl⟩
  | bytes text => cases h
  | int value => cases h

end

/-! ## Child columns -/

/-- The type of the values of a column; a list cursor stays in its list's type. -/
def Column.type (c : Column) : TypeRef := c.cursor.rootPlace.valueType

def FreshColumn (unions : List CheckedUnion) (type : TypeRef) (c : Column) : Prop :=
  c.type = type ∧ DomainOf unions type c.domain

theorem freshColumn_of_column {type : TypeRef} {route : CheckedPatternRoute}
    (h : column unions span (.mk type route) (.valueCursor (.mk type route)) = .ok c) :
    FreshColumn unions type c := by
  obtain ⟨hc, hd⟩ := column_spec h
  exact ⟨by rw [Column.type, hc]; rfl, hd⟩

theorem fieldColumnsFrom_fresh {route : Nat → CheckedPatternRoute} :
    ∀ {types : List TypeRef} {ordinal : Nat}
    {columns : List Column}, fieldColumnsFrom unions span route ordinal types = .ok columns →
      List.Forall₂ (FreshColumn unions) types columns := by
  intro types
  induction types with intro ordinal columns h
  | nil => cases h; exact .nil
  | cons type types ih =>
    obtain ⟨child, hchild, h⟩ := Except.peel h
    obtain ⟨rest, hrest, h⟩ := Except.peel h
    cases h
    exact .cons (freshColumn_of_column hchild) (ih hrest)

theorem childColumns_fresh {current : Column} {type : TypeRef} {columns : List Column}
    (htype : current.type = type) (hhead : HeadFits unions type head types)
    (h : childColumns unions span current head = .ok columns) :
    List.Forall₂ (FreshColumn unions) types columns := by
  cases hhead with
  | union declared => exact fieldColumnsFrom_fresh h
  | tuple types => exact fieldColumnsFrom_fresh h
  | nil element => cases h; exact .nil
  | cons element =>
    obtain ⟨first, hfirst, h⟩ := Except.peel h
    cases h
    refine .cons (freshColumn_of_column hfirst) (.cons ⟨?_, .list element⟩ .nil)
    rw [← htype]
    rfl
  | bytes text => cases h; exact .nil
  | int value => cases h; exact .nil

/-! ## Where the values of a column sit -/

/-- The column's cursor points at `x` inside the subject. -/
def Located (subject : Value σ) (c : Column) (x : Value σ) : Prop :=
  match c.cursor with
  | .valueCursor place => readPlace subject place = some x
  | .listCursor place skipped =>
      ∃ elements, readPlace subject place = some (.list elements) ∧ skipped ≤ elements.length ∧
        x = .list (elements.drop skipped)

theorem Located.list {subject : Value σ} {c : Column} {xs : List (Value σ)}
    (h : Located subject c (.list xs)) :
    ∃ elements, readPlace subject c.cursor.rootPlace = some (.list elements) ∧
      c.cursor.listSkip ≤ elements.length ∧ xs = elements.drop c.cursor.listSkip := by
  unfold Located at h
  cases hc : c.cursor with
  | valueCursor place =>
    rw [hc] at h
    exact ⟨xs, h, by simp [PatternCursor.listSkip], by simp [PatternCursor.listSkip]⟩
  | listCursor place skipped =>
    rw [hc] at h
    obtain ⟨elements, hr, hl, he⟩ := h
    exact ⟨elements, hr, hl, by simpa [PatternCursor.listSkip] using he⟩

theorem Located.value (h : Located subject c x) (hx : ∀ elements, x ≠ .list elements) :
    readPlace subject c.cursor.rootPlace = some x := by
  unfold Located at h
  cases hc : c.cursor with
  | valueCursor place => rw [hc] at h; exact h
  | listCursor place skipped =>
    rw [hc] at h
    obtain ⟨elements, -, -, he⟩ := h
    exact absurd he (hx _)

theorem fieldColumnsFrom_located {route : Nat → CheckedPatternRoute} {values : List (Value σ)}
    (hread : ∀ i x, values[i]? = some x → readRoute subject (route i) = some x) :
    ∀ {types : List TypeRef} {ordinal : Nat} {columns : List Column},
      types.length + ordinal = values.length →
      fieldColumnsFrom unions span route ordinal types = .ok columns →
      List.Forall₂ (Located subject) columns (values.drop ordinal) := by
  intro types
  induction types with intro ordinal columns hl h
  | nil =>
    cases h
    rw [List.drop_of_length_le (by simp at hl; omega)]
    exact .nil
  | cons type types ih =>
    obtain ⟨child, hchild, h⟩ := Except.peel h
    obtain ⟨rest, hrest, h⟩ := Except.peel h
    cases h
    simp only [List.length_cons] at hl
    have hlt : ordinal < values.length := by omega
    rw [List.drop_eq_getElem_cons hlt]
    refine .cons ?_ (ih (by omega) hrest)
    have hc := (column_spec hchild).1
    simp only [Located, hc, readPlace]
    exact hread ordinal _ (List.getElem?_eq_getElem hlt)

theorem childColumns_located {current : Column} {columns : List Column}
    (hloc : Located subject current x) (hp : head.parts x = some ys) (hl : ys.length = head.arity)
    (h : childColumns unions span current head = .ok columns) :
    List.Forall₂ (Located subject) columns ys := by
  rw [parts_eq_some_iff] at hp
  cases hp with
  | union id types fields =>
    have hr := hloc.value (by simp)
    have hread : ∀ i y, ys[i]? = some y →
        readRoute subject (.unionField current.cursor.rootPlace id i) = some y := by
      intro i y hy
      simp only [readRoute, hr, if_true]
      exact hy
    simpa using fieldColumnsFrom_located hread (by simpa [Head.arity] using hl.symm) h
  | tuple types fields =>
    have hr := hloc.value (by simp)
    have hread : ∀ i y, ys[i]? = some y →
        readRoute subject (.recordField current.cursor.rootPlace i) = some y := by
      intro i y hy
      simp only [readRoute, hr]
      exact hy
    simpa using fieldColumnsFrom_located hread (by simpa [Head.arity] using hl.symm) h
  | nil => cases h; exact .nil
  | cons element y zs =>
    obtain ⟨first, hfirst, h⟩ := Except.peel h
    cases h
    obtain ⟨elements, hr, hle, he⟩ := hloc.list
    have hlt : current.cursor.listSkip < elements.length := by
      by_contra hge
      rw [List.drop_of_length_le (by omega)] at he
      cases he
    rw [List.drop_eq_getElem_cons hlt] at he
    simp only [List.cons.injEq] at he
    refine .cons ?_ (.cons ?_ .nil)
    · have hc := (column_spec hfirst).1
      simp only [Located, hc, readPlace, readRoute, hr]
      rw [List.getElem?_eq_getElem hlt, he.1]
    · exact ⟨elements, hr, hlt, by rw [he.2]⟩
  | literal literal => cases h; exact .nil

end Blorp.Check
