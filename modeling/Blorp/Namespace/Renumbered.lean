import Blorp.Lib.Reordered
import Blorp.Namespace.Visible

/-!
# Programs that differ in the order of their imports

Loading numbers modules and names as it meets them, and walks imports in written order.  So
with an import row elsewhere a program has its modules, names and declarations under other
numbers, and its modules in another dependency order.
-/

namespace Blorp.Namespace

open Check (NameId ModuleId WrittenName TraitId TraitMethodId VariantId Entity TypeHead)
open Load (ModuleImport ParsedModuleRow ImportSelection)

/-- The numbers of a program, against those of another. -/
structure Renumbering where
  modules : Equiv.Perm Nat
  names : Equiv.Perm Nat
  functions : Equiv.Perm Nat
  traits : Equiv.Perm Nat
  records : Equiv.Perm Nat
  unions : Equiv.Perm Nat
  opaques : Equiv.Perm Nat
  constants : Equiv.Perm Nat

/-- What every named declaration has. -/
structure Heading where
  id : Nat
  module : ModuleId
  name : WrittenName
  visibility : Visibility

def FunctionRow.heading (row : FunctionRow) : Heading :=
  ⟨row.id, row.module, row.functionName, row.visibility⟩

def TraitRow.heading (row : TraitRow) : Heading :=
  ⟨row.id, row.module, row.typeName, row.visibility⟩

def RecordRow.heading (row : RecordRow) : Heading :=
  ⟨row.id, row.module, row.typeName, row.visibility⟩

def UnionRow.heading (row : UnionRow) : Heading :=
  ⟨row.id, row.module, row.typeName, row.visibility⟩

def OpaqueRow.heading (row : OpaqueRow) : Heading :=
  ⟨row.id, row.module, row.typeName, row.visibility⟩

def ConstantRow.heading (row : ConstantRow) : Heading :=
  ⟨row.id, row.module, row.name, row.visibility⟩

namespace Renumbering

def symm (ρ : Renumbering) : Renumbering :=
  ⟨ρ.modules.symm, ρ.names.symm, ρ.functions.symm, ρ.traits.symm, ρ.records.symm, ρ.unions.symm,
    ρ.opaques.symm, ρ.constants.symm⟩

section

variable (ρ : Renumbering)

/-! ## The same declarations -/

def method (id : TraitMethodId) : TraitMethodId := { id with owner := ρ.traits id.owner }

def variant (id : VariantId) : VariantId := { id with owner := ρ.unions id.owner }

def head : TypeHead → TypeHead
  | .recordHead id => .recordHead (ρ.records id)
  | .unionHead id => .unionHead (ρ.unions id)
  | .opaqueHead id => .opaqueHead (ρ.opaques id)
  | .primitiveHead primitive => .primitiveHead primitive
  | .listHead => .listHead

def entity : Entity → Entity
  | .trait id => .trait (ρ.traits id)
  | .method id => .method (ρ.method id)
  | .function id => .function (ρ.functions id)
  | .constant id => .constant (ρ.constants id)
  | .constructor variant => .constructor (ρ.variant variant)
  | .type head => .type (ρ.head head)
  | .alias aliased => .alias { aliased with target := ρ.modules aliased.target }

def SameName (first second : WrittenName) : Prop := ρ.names first.id = second.id

def SameVisibility (first second : Visibility) : Prop :=
  first = .publicName ↔ second = .publicName

structure SameHeading (numbers : Equiv.Perm Nat) (first second : Heading) : Prop where
  id : numbers first.id = second.id
  module : ρ.modules first.module = second.module
  name : ρ.SameName first.name second.name
  visibility : SameVisibility first.visibility second.visibility

structure SameFunction (first second : FunctionRow) : Prop where
  heading : ρ.SameHeading ρ.functions first.heading second.heading
  role : first.role = second.role

inductive SameMethodDeclaration : TraitMethodDeclaration → TraitMethodDeclaration → Prop
  | requiredMethod {first second : WrittenName} (name : ρ.SameName first second) :
      SameMethodDeclaration (.requiredMethod first) (.requiredMethod second)
  | defaultMethod {first second : Check.FunctionId} (id : ρ.functions first = second) :
      SameMethodDeclaration (.defaultMethod first) (.defaultMethod second)

structure SameMethod (first second : TraitMethodRow) : Prop where
  id : ρ.method first.id = second.id
  declaration : ρ.SameMethodDeclaration first.declaration second.declaration

structure SameTrait (first second : TraitRow) : Prop where
  heading : ρ.SameHeading ρ.traits first.heading second.heading
  methods : List.Forall₂ ρ.SameMethod first.methods second.methods

structure SameVariant (first second : VariantRow) : Prop where
  id : ρ.variant first.id = second.id
  name : ρ.SameName first.name second.name

structure SameUnion (first second : UnionRow) : Prop where
  heading : ρ.SameHeading ρ.unions first.heading second.heading
  variants : List.Forall₂ ρ.SameVariant first.variants second.variants

/-- Only an atomic or a qualified type without arguments names a trait. -/
inductive SameType : TypeSyntax → TypeSyntax → Prop
  | atomic {first second : WrittenName} (name : ρ.SameName first second) :
      SameType (.atomicType first) (.atomicType second)
  | qualified {first second : Check.ParsedQualified} {arguments others : List TypeSyntax}
      {span span' : Check.Span} (module : ρ.SameName first.module second.module)
      (name : ρ.SameName first.name second.name) (none : arguments = [] ↔ others = []) :
      SameType (.qualifiedType first arguments span) (.qualifiedType second others span')
  | applied {first second : WrittenName} {arguments others : List TypeSyntax}
      {span span' : Check.Span} :
      SameType (.appliedType first arguments span) (.appliedType second others span')
  | callable {first second : Check.Purity} {parameters others : List TypeSyntax}
      {result result' : TypeSyntax} {span span' : Check.Span} :
      SameType (.callableTypeSyntax first parameters result span)
        (.callableTypeSyntax second others result' span')
  | tuple {elements others : List TypeSyntax} {span span' : Check.Span} :
      SameType (.tupleTypeSyntax elements span) (.tupleTypeSyntax others span')

structure SameImplementation (first second : ImplRow) : Prop where
  module : ρ.modules first.header.module = second.header.module
  visibility : SameVisibility first.header.visibility second.header.visibility
  traitName : ρ.SameType first.header.traitName second.header.traitName

structure SameBuiltin (first second : ParsedBuiltinDeclaration) : Prop where
  module : ρ.modules first.module = second.module
  name : ρ.SameName first.declaration.builtinTypeName second.declaration.builtinTypeName
  head : first.declaration.builtinHead = second.declaration.builtinHead

/-! ## The same imports -/

inductive SameSelection : ImportSelection → ImportSelection → Prop
  | named {first second : WrittenName} (name : ρ.SameName first second) :
      SameSelection (.namedSelection first) (.namedSelection second)
  | constructors {first second : WrittenName} {listed others : List WrittenName}
      (name : ρ.SameName first second) (constructors : List.Forall₂ ρ.SameName listed others) :
      SameSelection (.constructorSelection first listed) (.constructorSelection second others)
  | methods {first second : WrittenName} {span span' : Check.Span}
      (name : ρ.SameName first second) :
      SameSelection (.methodsSelection first span) (.methodsSelection second span')

/-- An import row with its selections in another order. -/
structure RequestPermuted (first second : ModuleImport) : Prop where
  target : ρ.modules first.target = second.target
  moduleAlias : Option.Rel ρ.SameName first.moduleAlias second.moduleAlias
  symbols : Reordered ρ.SameSelection first.symbols second.symbols

/-- A module with its import rows, and the selections of each, in another order. -/
structure RowPermuted (first second : ParsedModuleRow) : Prop where
  module : ρ.modules first.module = second.module
  role : first.role = second.role
  imports : Reordered ρ.RequestPermuted first.imports second.imports

end

end Renumbering

/-- A program with the imports of its modules in another order, and so other numbers. -/
structure Permuted (ρ : Renumbering) (first second : ParsedContents) : Prop where
  prelude : ρ.modules first.prelude = second.prelude
  rows : Reordered ρ.RowPermuted first.dependencyOrder second.dependencyOrder
  builtinTypes : Reordered ρ.SameBuiltin first.builtinTypes second.builtinTypes
  functions : Reordered ρ.SameFunction first.declarations.functions second.declarations.functions
  traits : Reordered ρ.SameTrait first.declarations.traits second.declarations.traits
  implementations : Reordered ρ.SameImplementation first.declarations.implementations
    second.declarations.implementations
  records : Reordered (fun row other => ρ.SameHeading ρ.records row.heading other.heading)
    first.declarations.records second.declarations.records
  unions : Reordered ρ.SameUnion first.declarations.unions second.declarations.unions
  opaques : Reordered (fun row other => ρ.SameHeading ρ.opaques row.heading other.heading)
    first.declarations.opaques second.declarations.opaques
  constants : Reordered (fun row other => ρ.SameHeading ρ.constants row.heading other.heading)
    first.declarations.constants second.declarations.constants

/-! ## Either way -/

namespace Renumbering

variable {ρ : Renumbering}

theorem modules_back (module : ModuleId) : ρ.symm.modules (ρ.modules module) = module :=
  ρ.modules.symm_apply_apply module

theorem names_back (name : NameId) : ρ.symm.names (ρ.names name) = name :=
  ρ.names.symm_apply_apply name

theorem head_back (head : TypeHead) : ρ.symm.head (ρ.head head) = head := by
  cases head <;> simp [Renumbering.head, symm]

theorem entity_back (entity : Entity) : ρ.symm.entity (ρ.entity entity) = entity := by
  cases entity <;> simp [Renumbering.entity, head_back, method, variant] <;> simp [symm]

theorem sameEntity_entity (first second : Entity) :
    sameEntity (ρ.entity first) (ρ.entity second) = sameEntity first second := by
  have hmethod : Function.Injective ρ.method := fun id id' h => by
    cases id
    cases id'
    simpa [method] using h
  have hvariant : Function.Injective ρ.variant := fun id id' h => by
    cases id
    cases id'
    simpa [variant] using h
  have hhead : Function.Injective ρ.head := Function.LeftInverse.injective head_back
  rw [Bool.eq_iff_iff]
  cases first <;> cases second <;>
    simp [sameEntity, Renumbering.entity, hmethod.eq_iff, hvariant.eq_iff, hhead.eq_iff]

theorem head_builtinHead (declaration : ParsedBuiltinType) :
    ρ.head declaration.builtinHead = declaration.builtinHead := by
  cases declaration <;> rfl

theorem claims_entity (entity : Entity) (space : Space) :
    claims (ρ.entity entity) space = claims entity space := by
  cases entity <;> rfl

theorem apply_back {numbers : Equiv.Perm Nat} {a b : Nat} (h : numbers a = b) :
    numbers.symm b = a := numbers.symm_apply_eq.mpr h.symm

theorem SameName.symm {first second : WrittenName} (h : ρ.SameName first second) :
    ρ.symm.SameName second first := apply_back h

theorem SameHeading.symm {numbers : Equiv.Perm Nat} {first second : Heading}
    (h : ρ.SameHeading numbers first second) : ρ.symm.SameHeading numbers.symm second first :=
  ⟨apply_back h.id, apply_back h.module, h.name.symm, Iff.symm h.visibility⟩

theorem SameFunction.symm {first second : FunctionRow} (h : ρ.SameFunction first second) :
    ρ.symm.SameFunction second first := ⟨h.heading.symm, h.role.symm⟩

theorem SameMethod.symm {first second : TraitMethodRow} (h : ρ.SameMethod first second) :
    ρ.symm.SameMethod second first := by
  refine ⟨?_, ?_⟩
  · rw [← h.id]
    simp [method, Renumbering.symm]
  · obtain ⟨-, declaration⟩ := h
    revert declaration
    generalize first.declaration = one
    generalize second.declaration = other
    rintro (name | id)
    · exact .requiredMethod name.symm
    · exact .defaultMethod (apply_back id)

theorem forall₂_symm {α : Type} {R S : α → α → Prop} {as bs : List α} (h : List.Forall₂ R as bs)
    (hRS : ∀ a b, R a b → S b a) : List.Forall₂ S bs as :=
  h.flip.imp fun b a hab => hRS a b hab

theorem SameTrait.symm {first second : TraitRow} (h : ρ.SameTrait first second) :
    ρ.symm.SameTrait second first :=
  ⟨h.heading.symm, forall₂_symm h.methods fun _ _ => SameMethod.symm⟩

theorem SameVariant.symm {first second : VariantRow} (h : ρ.SameVariant first second) :
    ρ.symm.SameVariant second first := by
  refine ⟨?_, h.name.symm⟩
  rw [← h.id]
  simp [variant, Renumbering.symm]

theorem SameUnion.symm {first second : UnionRow} (h : ρ.SameUnion first second) :
    ρ.symm.SameUnion second first :=
  ⟨h.heading.symm, forall₂_symm h.variants fun _ _ => SameVariant.symm⟩

theorem SameType.symm {first second : TypeSyntax} (h : ρ.SameType first second) :
    ρ.symm.SameType second first := by
  cases h with
  | atomic name => exact .atomic name.symm
  | qualified module name none => exact .qualified module.symm name.symm none.symm
  | applied => exact .applied
  | callable => exact .callable
  | tuple => exact .tuple

theorem SameImplementation.symm {first second : ImplRow} (h : ρ.SameImplementation first second) :
    ρ.symm.SameImplementation second first :=
  ⟨apply_back h.module, Iff.symm h.visibility, h.traitName.symm⟩

theorem SameBuiltin.symm {first second : ParsedBuiltinDeclaration}
    (h : ρ.SameBuiltin first second) : ρ.symm.SameBuiltin second first :=
  ⟨apply_back h.module, h.name.symm, h.head.symm⟩

theorem SameSelection.symm {first second : ImportSelection} (h : ρ.SameSelection first second) :
    ρ.symm.SameSelection second first := by
  cases h with
  | named name => exact .named name.symm
  | constructors name listed =>
    exact .constructors name.symm (forall₂_symm listed fun _ _ => SameName.symm)
  | methods name => exact .methods name.symm

theorem RequestPermuted.symm {first second : ModuleImport} (h : ρ.RequestPermuted first second) :
    ρ.symm.RequestPermuted second first := by
  refine ⟨apply_back h.target, ?_, h.symbols.symm fun _ _ => SameSelection.symm⟩
  obtain ⟨-, aliased, -⟩ := h
  revert aliased
  generalize first.moduleAlias = one
  generalize second.moduleAlias = other
  rintro (name | _)
  · exact .some name.symm
  · exact .none

theorem RowPermuted.symm {first second : ParsedModuleRow} (h : ρ.RowPermuted first second) :
    ρ.symm.RowPermuted second first :=
  ⟨apply_back h.module, h.role.symm, h.imports.symm fun _ _ => RequestPermuted.symm⟩

end Renumbering

theorem Permuted.symm {ρ : Renumbering} {first second : ParsedContents}
    (h : Permuted ρ first second) : Permuted ρ.symm second first where
  prelude := Renumbering.apply_back h.prelude
  rows := h.rows.symm fun _ _ => Renumbering.RowPermuted.symm
  builtinTypes := h.builtinTypes.symm fun _ _ => Renumbering.SameBuiltin.symm
  functions := h.functions.symm fun _ _ => Renumbering.SameFunction.symm
  traits := h.traits.symm fun _ _ => Renumbering.SameTrait.symm
  implementations := h.implementations.symm fun _ _ => Renumbering.SameImplementation.symm
  records := h.records.symm fun _ _ => Renumbering.SameHeading.symm
  unions := h.unions.symm fun _ _ => Renumbering.SameUnion.symm
  opaques := h.opaques.symm fun _ _ => Renumbering.SameHeading.symm
  constants := h.constants.symm fun _ _ => Renumbering.SameHeading.symm

/-! ## Declarations -/

theorem lookup_renumbered {α : Type} {R : α → α → Prop} {idOf : α → Nat} {as bs : List α}
    {numbers : Equiv.Perm Nat} (has : Numbered idOf as) (hbs : Numbered idOf bs)
    (h : Reordered R as bs) (hR : ∀ a b, R a b → numbers (idOf a) = idOf b) (i : Nat) :
    Option.Rel R as[i]? bs[numbers i]? := by
  cases hfound : as[i]? with
  | some a =>
    obtain ⟨b, hb, hab⟩ := h.forth (List.mem_of_getElem? hfound)
    have hother := hbs.getElem? hb
    rw [← hR a b hab, has.number hfound] at hother
    rw [hother]
    exact .some hab
  | none =>
    cases hother : bs[numbers i]? with
    | none => exact .none
    | some b =>
      obtain ⟨a, ha, hab⟩ := h.back (List.mem_of_getElem? hother)
      have hid := hR a b hab
      rw [hbs.number hother, Equiv.apply_eq_iff_eq] at hid
      rw [← hid, has.getElem? ha] at hfound
      cases hfound

theorem implementedName_id (functions : List FunctionRow) (header : WrittenName)
    (span : Check.Span) (bodies : List Check.FunctionId) :
    (implementedName functions header span bodies).id = header.id := by
  refine List.foldlRecOn (motive := fun name : WrittenName => name.id = header.id) bodies _ rfl ?_
  intro name hname body _
  split
  · split
    · rename_i hsame
      exact hsame.trans hname
    · exact hname
  · exact hname

/-- Two sealed programs that differ in the order of their imports. -/
structure Alike (ρ : Renumbering) (first second : ParsedContents) : Prop where
  permuted : Permuted ρ first second
  sealed : Sealed first
  other : Sealed second

/-- A declared entry under its new numbers. -/
structure Renumbering.SameEntry (ρ : Renumbering) (first second : Entry) : Prop where
  name : ρ.SameName first.name second.name
  entity : ρ.entity first.entity = second.entity
  origin : first.origin = .declared .publicName ↔ second.origin = .declared .publicName

theorem Renumbering.SameEntry.symm {ρ : Renumbering} {first second : Entry}
    (h : ρ.SameEntry first second) : ρ.symm.SameEntry second first := by
  refine ⟨h.name.symm, ?_, h.origin.symm⟩
  rw [← h.entity, entity_back]

namespace Alike

variable {ρ : Renumbering} {first second : ParsedContents}

theorem symm (h : Alike ρ first second) : Alike ρ.symm second first :=
  ⟨h.permuted.symm, h.other, h.sealed⟩

theorem sameEntry {one other : Entry} {visibility visibility' : Visibility}
    (hname : ρ.SameName one.name other.name) (hentity : ρ.entity one.entity = other.entity)
    (hone : one.origin = .declared visibility) (hother : other.origin = .declared visibility')
    (hsame : Renumbering.SameVisibility visibility visibility') : ρ.SameEntry one other := by
  refine ⟨hname, hentity, ?_⟩
  rw [hone, hother, Origin.declared.injEq, Origin.declared.injEq]
  exact hsame

theorem entriesOf {row : Type} {R : row → row → Prop} {moduleOf : row → ModuleId}
    {entries entries' : row → List Entry} {rows others : List row} (h : Reordered R rows others)
    (hmodule : ∀ a b, R a b → ρ.modules (moduleOf a) = moduleOf b)
    (hentries : ∀ a b, R a b → List.Forall₂ ρ.SameEntry (entries a) (entries' b))
    (module : ModuleId) :
    Reordered ρ.SameEntry (Namespace.entriesOf moduleOf entries module rows)
      (Namespace.entriesOf moduleOf entries' (ρ.modules module) others) := by
  refine (h.filter fun a b hab => ?_).flatMap hentries
  rw [Bool.eq_iff_iff, ← hmodule a b hab]
  simp

variable (h : Alike ρ first second)

include h

theorem header {method other : TraitMethodRow} (hsame : ρ.SameMethod method other) :
    Option.Rel ρ.SameName (method.traitMethodHeader first.declarations)
      (other.traitMethodHeader second.declarations) := by
  obtain ⟨-, declaration⟩ := hsame
  unfold TraitMethodRow.traitMethodHeader
  revert declaration
  generalize method.declaration = one
  generalize other.declaration = another
  rintro (name | @⟨id, _, rfl⟩)
  · exact .some name
  · have hlookup := lookup_renumbered h.sealed.functions h.other.functions h.permuted.functions
      (fun _ _ hab => hab.heading.id) id
    dsimp only
    revert hlookup
    generalize first.declarations.functions[id]? = found
    generalize second.declarations.functions[ρ.functions id]? = found'
    rintro (hab | _)
    · dsimp only
      rw [hab.role]
      split
      · exact .some hab.heading.name
      · exact .none
    · exact .none

theorem traitRowEntries {row other : TraitRow} (hsame : ρ.SameTrait row other) :
    List.Forall₂ ρ.SameEntry (Namespace.traitRowEntries first.declarations row)
      (Namespace.traitRowEntries second.declarations other) := by
  refine .cons (sameEntry hsame.heading.name (congrArg Entity.trait hsame.heading.id) rfl rfl
    hsame.heading.visibility) (List.rel_filterMap ?_ hsame.methods)
  intro method another hmethod
  have hheader := h.header hmethod
  dsimp only
  revert hheader
  generalize method.traitMethodHeader first.declarations = name
  generalize another.traitMethodHeader second.declarations = name'
  rintro (hname | _)
  · exact .some (sameEntry hname (congrArg Entity.method hmethod.id) rfl rfl
      hsame.heading.visibility)
  · exact .none

theorem declaredIn (module : ModuleId) : Reordered ρ.SameEntry (Namespace.declaredIn first module)
      (Namespace.declaredIn second (ρ.modules module)) := by
  have hp := h.permuted
  refine .append ?_ (.append ?_ (.append ?_ (.append ?_ (.append ?_ (.append ?_ ?_)))))
  · refine (hp.builtinTypes.filter fun a b hab => ?_).map fun a b hab => ?_
    · rw [Bool.eq_iff_iff, ← hab.module]
      simp
    · refine sameEntry hab.name (congrArg Entity.type ?_) rfl rfl Iff.rfl
      exact (Renumbering.head_builtinHead a.declaration).trans hab.head
  · refine entriesOf hp.functions (fun _ _ hab => hab.heading.module) (fun a b hab => ?_) module
    unfold functionEntries
    rw [hab.role]
    split
    · exact .cons (sameEntry hab.heading.name (congrArg Entity.function hab.heading.id) rfl rfl
        hab.heading.visibility) .nil
    · exact .nil
    · exact .nil
  · exact entriesOf hp.traits (fun _ _ hab => hab.heading.module)
      (fun _ _ hab => h.traitRowEntries hab) module
  · refine entriesOf hp.records (fun _ _ hab => hab.module) (fun a b hab => ?_) module
    exact .cons (sameEntry hab.name (congrArg (Entity.type <| .recordHead ·) hab.id) rfl rfl
      hab.visibility) .nil
  · refine entriesOf hp.unions (fun _ _ hab => hab.heading.module) (fun a b hab => ?_) module
    refine .cons (sameEntry hab.heading.name (congrArg (Entity.type <| .unionHead ·) hab.heading.id)
      rfl rfl hab.heading.visibility) (List.rel_map ?_ hab.variants)
    intro variant other hvariant
    exact sameEntry hvariant.name (congrArg Entity.constructor hvariant.id) rfl rfl
      hab.heading.visibility
  · refine entriesOf hp.opaques (fun _ _ hab => hab.module) (fun a b hab => ?_) module
    exact .cons (sameEntry hab.name (congrArg (Entity.type <| .opaqueHead ·) hab.id) rfl rfl
      hab.visibility) .nil
  · refine entriesOf hp.constants (fun _ _ hab => hab.module) (fun a b hab => ?_) module
    exact .cons (sameEntry hab.name (congrArg Entity.constant hab.id) rfl rfl hab.visibility) .nil

theorem implementedBy {named named' : TypeSyntax → TraitId → Prop} {implementation other : ImplRow}
    {entry : Entry} (hsame : ρ.SameImplementation implementation other)
    (hnamed : ∀ id, named implementation.header.traitName id →
      named' other.header.traitName (ρ.traits id))
    (himplemented : ImplementedBy first.declarations named implementation entry) :
    ∃ entry', ImplementedBy second.declarations named' other entry' ∧ ρ.SameEntry entry entry' := by
  obtain ⟨id, owner, hid, howner, method, hmethod, hentry⟩ := himplemented
  have hlookup := lookup_renumbered h.sealed.traits h.other.traits h.permuted.traits
    (fun _ _ hab => hab.heading.id) id
  rw [howner] at hlookup
  obtain ⟨owner', howner', htrait⟩ := Reordered.exists_of_rel hlookup
  obtain ⟨method', hmethod', hmethods⟩ := Reordered.exists_related htrait.methods hmethod
  have hheader := h.header hmethods
  obtain ⟨header, hname, rfl⟩ := Option.map_eq_some_iff.mp hentry
  rw [hname] at hheader
  obtain ⟨header', hname', hspelled⟩ := Reordered.exists_of_rel hheader
  refine ⟨_, ⟨ρ.traits id, owner', hnamed id hid, howner', method', hmethod',
    Option.map_eq_some_iff.mpr ⟨header', hname', rfl⟩⟩, sameEntry ?_
      (congrArg Entity.method hmethods.id) rfl rfl hsame.visibility⟩
  unfold Renumbering.SameName
  rw [implementedName_id, implementedName_id]
  exact hspelled

end Alike

end Blorp.Namespace
