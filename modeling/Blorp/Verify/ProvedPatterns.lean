import Blorp.Verify.ColumnTests

/-!
# What an arm's arguments read is established

On the path into an arm every constructor of its pattern has been tested or was the only one
left, so the facts prove the pattern at the subject's place (`Proved`) and with it every place
the arm's arguments read.  While compiling, a row remembers this as a promise: whatever proves
its remaining patterns at the remaining columns proves its arguments (`Serves`).
-/

namespace Blorp.Verify

open Check hiding TypeRef Namespace
open Specialize

/-- The facts establish every place the pattern reaches, from element `skip` of a list on. -/
inductive Proved (setting : Setting) (checked : List CheckedUnion) (facts : List PlaceFact) :
    CheckedPatternPlace → Nat → Pattern → Prop where
  | anything {place : CheckedPatternPlace} {skip : Nat}
      (established : Established setting facts place)
      (least : LeastLength setting facts place skip) :
      Proved setting checked facts place skip .anything
  | variant {place : CheckedPatternPlace} {skip : Nat} {owner : UnionId}
      {arguments types : List Check.TypeRef} {id : VariantId} {fields : List Pattern}
      (established : Established setting facts place)
      (least : LeastLength setting facts place skip)
      (valueType : place.valueType = unionType owner arguments)
      (declared : DeclaredAt checked ⟨owner, arguments⟩ id types)
      (parts : ∀ (i : Nat) type child, types[i]? = some type → fields[i]? = some child →
        Proved setting checked facts (.mk type (.unionField place id i)) 0 child) :
      Proved setting checked facts place skip (.variantPattern id fields)
  | tuple {place : CheckedPatternPlace} {skip : Nat} {types : List Check.TypeRef}
      {fields : List Pattern} (established : Established setting facts place)
      (least : LeastLength setting facts place skip)
      (valueType : place.valueType = .tupleType types)
      (parts : ∀ (i : Nat) type child, types[i]? = some type → fields[i]? = some child →
        Proved setting checked facts (.mk type (.recordField place i)) 0 child) :
      Proved setting checked facts place skip (.tuplePattern fields)
  | emptyList {place : CheckedPatternPlace} {skip : Nat}
      (established : Established setting facts place)
      (least : LeastLength setting facts place skip) :
      Proved setting checked facts place skip .emptyListPattern
  | consList {place : CheckedPatternPlace} {skip : Nat} {element : Check.TypeRef}
      {head tail : Pattern} (established : Established setting facts place)
      (least : LeastLength setting facts place skip)
      (valueType : place.valueType = .listType element)
      (first : Proved setting checked facts (.mk element (.listElement place skip)) 0 head)
      (rest : Proved setting checked facts place (skip + 1) tail) :
      Proved setting checked facts place skip (.consListPattern head tail)
  | exact {place : CheckedPatternPlace} {skip : Nat} {literal : LiteralPattern}
      (established : Established setting facts place)
      (least : LeastLength setting facts place skip) :
      Proved setting checked facts place skip (.exactPattern literal)

def ArgumentEstablished (setting : Setting) (facts : List PlaceFact) : CheckedPatternArgument → Prop
  | .borrowPlace place => Established setting facts place
  | .copyListSuffix place skip => Established setting facts place ∧
      LeastLength setting facts place skip ∧ ∃ element, place.valueType = .listType element

section Proved

variable {setting : Setting} {checked : List CheckedUnion} {facts : List PlaceFact}
variable {place : CheckedPatternPlace} {skip : Nat} {pattern : Pattern}

theorem Proved.established (h : Proved setting checked facts place skip pattern) :
    Established setting facts place := by
  cases h <;> assumption

theorem Proved.least (h : Proved setting checked facts place skip pattern) :
    LeastLength setting facts place skip := by
  cases h <;> assumption

theorem Proved.element {element : Check.TypeRef} (htype : place.valueType = .listType element) :
    ∀ {index : Nat} {pattern child : Pattern} {skip : Nat},
      Proved setting checked facts place skip pattern → pattern.element index = some child →
      Proved setting checked facts (.mk element (.listElement place (skip + index))) 0 child := by
  intro index
  induction index with intro pattern child skip h hchild
  | zero =>
    cases h with
    | consList established least valueType first rest =>
      cases hchild
      rw [htype, Check.TypeRef.listType.injEq] at valueType
      rw [valueType]
      exact first
    | _ => simp [Pattern.element] at hchild
  | succ index ih =>
    cases h with
    | consList established least valueType first rest =>
      have hdeep := ih rest hchild
      rwa [show skip + 1 + index = skip + (index + 1) by omega] at hdeep
    | _ => simp [Pattern.element] at hchild

theorem Proved.cells : ∀ {count : Nat} {pattern : Pattern} {skip : Nat},
    Proved setting checked facts place skip pattern → pattern.hasCells count = true →
    LeastLength setting facts place (skip + count) := by
  intro count
  induction count with intro pattern skip h hcells
  | zero => exact h.least
  | succ count ih =>
    cases h with
    | consList established least valueType first rest =>
      have hdeep := ih rest hcells
      rwa [show skip + 1 + count = skip + (count + 1) by omega] at hdeep
    | _ => simp [Pattern.hasCells] at hcells

variable {base : CheckedPatternPlace}

theorem Proved.under (hd : DeclarationsValid checked)
    (h : Proved setting checked facts base 0 pattern) {child : Pattern}
    (hunder : PlaceUnder checked base pattern place child) :
    Proved setting checked facts place 0 child := by
  induction hunder with
  | here => exact h
  | unionField under parentType declared typeAt childAt ih =>
    cases ih with
    | variant established least valueType declared' parts =>
      rw [parentType] at valueType
      simp only [Check.TypeRef.nominalType.injEq, NominalId.aggregateNominal.injEq,
        AggregateId.unionAggregate.injEq] at valueType
      obtain ⟨rfl, rfl⟩ := valueType
      obtain rfl := declaredAt_unique hd declared declared'
      exact parts _ _ _ typeAt childAt
  | recordField under parentType typeAt childAt ih =>
    cases ih with
    | tuple established least valueType parts =>
      rw [parentType] at valueType
      simp only [Check.TypeRef.tupleType.injEq] at valueType
      obtain rfl := valueType
      exact parts _ _ _ typeAt childAt
  | listElement under parentType childAt ih =>
    have helement := ih.element parentType childAt
    rwa [Nat.zero_add] at helement

theorem ArgumentFits.established (hd : DeclarationsValid checked)
    (h : Proved setting checked facts base 0 pattern) {argument : CheckedPatternArgument}
    (hargument : ArgumentFits checked base pattern argument) :
    ArgumentEstablished setting facts argument := by
  cases argument with
  | borrowPlace place =>
    obtain ⟨child, hunder⟩ := hargument
    exact (h.under hd hunder).established
  | copyListSuffix place count =>
    obtain ⟨child, element, hunder, htype, hcells⟩ := hargument
    have hplace := h.under hd hunder
    have hleast := hplace.cells hcells
    rw [Nat.zero_add] at hleast
    exact ⟨hplace.established, hleast, element, htype⟩

end Proved

/-! ## Rows -/

/-- Whatever proves the row's patterns at its columns establishes its arguments. -/
def Serves (setting : Setting) (checked : List CheckedUnion) (facts : List PlaceFact)
    (columns : List Column) (row : PatternRow) : Prop :=
  ∀ facts', Grow setting facts facts' →
    (∀ entry ∈ row.patterns.zip columns,
      Proved setting checked facts' entry.2.cursor.rootPlace entry.2.cursor.listSkip entry.1) →
    ∀ argument ∈ row.arguments, ArgumentEstablished setting facts' argument

section Rows

variable {setting : Setting} {checked : List CheckedUnion} {facts facts' : List PlaceFact}

variable {columns : List Column} {rows : List PatternRow} {c : Column} {parts : List Check.TypeRef}

theorem Serves.grow {row : PatternRow} (h : Serves setting checked facts columns row)
    (hgrow : Grow setting facts facts') : Serves setting checked facts' columns row :=
  fun later hlater hproved => h later (hgrow.trans hlater) hproved

theorem moveFirst_zip {α β : Type} {left : List α} {right : List β}
    (hlength : left.length = right.length) (k : Nat) :
    (moveFirst left k).zip (moveFirst right k) = moveFirst (left.zip right) k := by
  unfold moveFirst
  split
  · rfl
  · by_cases hk : k < left.length
    · have hk' : k < right.length := hlength ▸ hk
      have hk'' : k < (left.zip right).length := by
        rw [List.length_zip]
        omega
      rw [List.getElem?_eq_getElem hk, List.getElem?_eq_getElem hk', List.getElem?_eq_getElem hk'']
      simp only [List.zip_cons_cons, List.getElem_zip, List.cons.injEq, true_and]
      clear hk'' hk'
      induction left generalizing right k with
      | nil => simp at hk
      | cons a left ih =>
        cases right with
        | nil => simp at hlength
        | cons b right =>
          cases k with
          | zero => rfl
          | succ k =>
            cases k with
            | zero => cases left <;> cases right <;> simp_all
            | succ k =>
              simp only [List.eraseIdx_cons_succ, List.zip_cons_cons, List.cons.injEq, true_and]
              exact ih (by simpa using hlength) (k + 1) (by omega) (by simpa using hk)
    · rw [List.getElem?_eq_none (by omega), List.getElem?_eq_none (by omega),
        List.getElem?_eq_none (by rw [List.length_zip]; omega)]

theorem mem_moveFirst_of_mem {α : Type} {values : List α} {k : Nat} {a : α} (h : a ∈ values) :
    a ∈ moveFirst values k := by
  unfold moveFirst
  split
  · exact h
  · split
    · exact h
    · next selected hselected =>
      obtain ⟨hk, rfl⟩ := List.getElem?_eq_some_iff.mp hselected
      exact (List.getElem_cons_eraseIdx_perm hk).mem_iff.mpr h

theorem Serves.move (h : ∀ row ∈ rows, Serves setting checked facts columns row)
    (hlength : ∀ row ∈ rows, row.patterns.length = columns.length) (k : Nat) :
    ∀ row ∈ moveRows rows k, Serves setting checked facts (moveFirst columns k) row := by
  intro row hrow
  unfold moveRows at hrow
  split at hrow
  · next hk =>
    subst hk
    simpa [moveFirst] using h row hrow
  · obtain ⟨original, horiginal, rfl⟩ := List.mem_map.mp hrow
    intro later hlater hproved
    refine h original horiginal later hlater fun entry hentry => hproved entry ?_
    rw [moveFirst_zip (hlength original horiginal)]
    exact mem_moveFirst_of_mem hentry

theorem proved_of_children {fields : List Column} {head : Head} {span : Span} {first : Pattern}
    (hfits : HeadFits checked c.type head parts)
    (hchild : childColumns checked span c head = .ok fields)
    (hfirst : PatternFits checked first c.type) (hmatch : first.matchesHead head = true)
    (hd : DeclarationsValid checked) (hestablished : Established setting facts c.cursor.rootPlace)
    (hleast : LeastLength setting facts c.cursor.rootPlace c.cursor.listSkip)
    (hproved : ∀ entry ∈ (first.children head).zip fields, Proved setting checked facts
      entry.2.cursor.rootPlace entry.2.cursor.listSkip entry.1) :
    Proved setting checked facts c.cursor.rootPlace c.cursor.listSkip first := by
  have hfield : ∀ {types : List Check.TypeRef} {route : Nat → CheckedPatternRoute},
      fieldColumns checked span types route = .ok fields → ∀ (i : Nat) type child,
      types[i]? = some type → (first.children head)[i]? = some child →
      Proved setting checked facts (.mk type (route i)) 0 child := by
    intro types route hcolumns i type child htype hpattern
    have hlength := (fieldColumnsFrom_fresh hcolumns).length_eq
    have hi : i < fields.length := by
      rw [← hlength]
      exact (List.getElem?_eq_some_iff.mp htype).1
    obtain ⟨type', htype', hcursor, -⟩ :=
      fieldColumnsFrom_cursor hcolumns i fields[i] (List.getElem?_eq_getElem hi)
    obtain rfl : type = type' := Option.some.inj (htype.symm.trans htype')
    have hentry := hproved (child, fields[i]) (List.mem_iff_getElem?.mpr ⟨i, by
      rw [List.getElem?_zip_eq_some]
      exact ⟨hpattern, List.getElem?_eq_getElem hi⟩⟩)
    rw [hcursor, Nat.zero_add] at hentry
    exact hentry
  generalize hctype : c.type = type at hfits hfirst
  cases hfirst with
  | anything => exact .anything hestablished hleast
  | variant declared typed =>
    cases hfits with
    | union declared' =>
      simp only [Pattern.matchesHead, Head.hasVariant, beq_iff_eq] at hmatch
      subst hmatch
      obtain rfl := declaredAt_unique hd declared declared'
      exact .variant hestablished hleast hctype declared fun i type child htype hat =>
        hfield hchild i type child htype hat
  | tuple typed =>
    cases hfits with
    | tuple types =>
      exact .tuple hestablished hleast hctype fun i type child htype hat =>
        hfield hchild i type child htype hat
  | emptyList element => exact .emptyList hestablished hleast
  | @consList head tail _ first rest =>
    cases hfits with
    | nil element => simp [Pattern.matchesHead, Head.isCons] at hmatch
    | cons element =>
      obtain ⟨inner, hinner, hchild⟩ := Except.peel hchild
      cases hchild
      have hhead := hproved (head, inner) List.mem_cons_self
      have htail := hproved (tail, _) (List.mem_cons_of_mem _ List.mem_cons_self)
      rw [(column_spec hinner).1] at hhead
      exact .consList hestablished hleast hctype hhead htail
  | bytes text => exact .exact hestablished hleast
  | int value => exact .exact hestablished hleast

theorem Serves.specialize {fields : List Column} {head : Head} {span : Span}
    (hd : DeclarationsValid checked)
    (h : ∀ row ∈ rows, Serves setting checked facts (c :: columns) row)
    (hrows : RowsWithin checked (c :: columns) rows) (hfits : HeadFits checked c.type head parts)
    (hchild : childColumns checked span c head = .ok fields)
    (hestablished : Established setting facts c.cursor.rootPlace)
    (hleast : LeastLength setting facts c.cursor.rootPlace c.cursor.listSkip) :
    ∀ row ∈ specializeRows rows head, Serves setting checked facts (fields ++ columns) row := by
  intro kept hkept
  obtain ⟨row, hrow, first, rest, hpatterns, hmatch, rfl⟩ := mem_specializeRows.mp hkept
  have hwithin := hrows row hrow
  rw [hpatterns] at hwithin
  obtain ⟨hfirst, hrest⟩ := List.forall₂_cons.mp hwithin
  have hlength : (first.children head).length = fields.length := by
    rw [(hfits.children_fit hd hfirst.fits hmatch).length_eq,
      (childColumns_fresh rfl hfits hchild).length_eq]
  intro later hlater hproved
  rw [List.zip_append hlength] at hproved
  refine h row hrow later hlater fun entry hentry => ?_
  rw [hpatterns, List.zip_cons_cons] at hentry
  rcases List.mem_cons.mp hentry with rfl | hentry
  · exact proved_of_children hfits hchild hfirst.fits hmatch hd (hestablished.grow hlater)
      (hleast.grow hlater) fun entry hentry => hproved entry (List.mem_append_left _ hentry)
  · exact hproved entry (List.mem_append_right _ hentry)

theorem Serves.exclude (h : ∀ row ∈ rows, Serves setting checked facts (c :: columns) row)
    (head : Head) :
    ∀ row ∈ excludingRows rows head,
      Serves setting checked facts (excludeHead c head :: columns) row := by
  intro row hrow
  obtain ⟨hmem, first, rest, hpatterns, -⟩ := mem_excludingRows.mp hrow
  intro later hlater hproved
  refine h row hmem later hlater fun entry hentry => ?_
  rw [hpatterns, List.zip_cons_cons] at hentry hproved
  rcases List.mem_cons.mp hentry with rfl | hentry
  · have hfirst := hproved (first, excludeHead c head) List.mem_cons_self
    simp only [excludeHead_cursor] at hfirst
    exact hfirst
  · exact hproved entry (List.mem_cons_of_mem _ hentry)

end Rows

end Blorp.Verify
