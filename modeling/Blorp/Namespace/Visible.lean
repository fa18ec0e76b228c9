import Blorp.Namespace.Stages
import Blorp.Namespace.Sealed

/-!
# What is visible where

The meaning of a program's names, read off its declarations and import rows alone.  A module
declares its own rows and the methods of the traits it implements, offers what it declares
public, and sees what it declares, aliases and selects, and, if it is a user module, what
the prelude selects.
-/

namespace Blorp.Namespace

open Check (Span NameId ModuleId WrittenName TraitId Entity TypeHead)
open Load (ModuleImport ParsedModuleRow ImportSelection)

section

variable (parsed : ParsedContents)

/-! ## Traits -/

def TraitOffered (module : ModuleId) (name : NameId) (id : TraitId) : Prop :=
  ∃ entry ∈ declaredIn parsed module, entry.name.id = name ∧ entry.entity = .trait id ∧
    entry.origin = .declared .publicName

def TraitSelected (row : ParsedModuleRow) (name : NameId) (id : TraitId) : Prop :=
  ∃ request ∈ row.imports, ∃ written, .namedSelection written ∈ request.symbols ∧
    written.id = name ∧ TraitOffered parsed request.target name id

def TraitVisible (row : ParsedModuleRow) (name : NameId) (id : TraitId) : Prop :=
  (∃ entry ∈ declaredIn parsed row.module, entry.name.id = name ∧ entry.entity = .trait id) ∨
    TraitSelected parsed row name id ∨
    row.role = .userModule ∧ ∃ prelude ∈ parsed.dependencyOrder,
      prelude.module = parsed.prelude ∧ TraitSelected parsed prelude name id ∧
        ¬ ∃ entry ∈ declaredIn parsed prelude.module, Claims entry .types name

/-- The trait that an implementation's head names. -/
inductive TraitNamed (row : ParsedModuleRow) : TypeSyntax → TraitId → Prop
  | atomic {name : WrittenName} {id : TraitId} (visible : TraitVisible parsed row name.id id) :
      TraitNamed row (.atomicType name) id
  | qualified {qualified : Check.ParsedQualified} {span : Span} {id : TraitId}
      {request : ModuleImport} {written : WrittenName} (request_mem : request ∈ row.imports)
      (aliased : request.moduleAlias = some written) (spelling : written.id = qualified.module.id)
      (offered : TraitOffered parsed request.target qualified.name.id id) :
      TraitNamed row (.qualifiedType qualified [] span) id

/-! ## Declarations and selections -/

/-- What a module declares: its own rows, and the methods of the traits it implements. -/
def Declares (row : ParsedModuleRow) (entry : Entry) : Prop :=
  entry ∈ declaredIn parsed row.module ∨
    ∃ implementation ∈ parsed.declarations.implementations,
      implementation.header.module = row.module ∧
        ImplementedBy parsed.declarations (TraitNamed parsed row) implementation entry

/-- What a module declares public. -/
def Offers (module : ModuleId) (space : Space) (name : NameId) (entity : Entity) : Prop :=
  ∃ row ∈ parsed.dependencyOrder, row.module = module ∧ ∃ entry, Declares parsed row entry ∧
    Claims entry space name ∧ entry.entity = entity ∧ entry.origin = .declared .publicName

/-- What a selection is written for: constructors are named with their union. -/
inductive Picks : ImportSelection → NameId → Entity → Prop
  | named {written : WrittenName} {entity : Entity}
      (bare : ∀ variant, entity ≠ .constructor variant) :
      Picks (.namedSelection written) written.id entity
  | union {written : WrittenName} {listed : List WrittenName} {owner : Check.UnionId} :
      Picks (.constructorSelection written listed) written.id (.type (.unionHead owner))
  | constructor {written name : WrittenName} {listed : List WrittenName}
      {variant : Check.VariantId} (listed_mem : name ∈ listed) :
      Picks (.constructorSelection written listed) name.id (.constructor variant)

/-- What a module's import rows select from the modules that declare it public. -/
def Selects (row : ParsedModuleRow) (space : Space) (name : NameId) (entity : Entity) : Prop :=
  ∃ request ∈ row.imports, ∃ selection ∈ request.symbols, Picks selection name entity ∧
    Offers parsed request.target space name entity

def Aliased (row : ParsedModuleRow) (name : NameId) (entity : Entity) : Prop :=
  ∃ request ∈ row.imports, ∃ written, request.moduleAlias = some written ∧ written.id = name ∧
    sameEntity (.alias ⟨request.target, request.path⟩) entity = true

/-- What the prelude selects and does not declare itself. -/
def Supplied (space : Space) (name : NameId) (entity : Entity) : Prop :=
  ∃ prelude ∈ parsed.dependencyOrder, prelude.module = parsed.prelude ∧
    Selects parsed prelude space name entity ∧
      ¬ ∃ entry, Declares parsed prelude entry ∧ Claims entry space name

/-- What a module sees of other modules. -/
def Received (row : ParsedModuleRow) (space : Space) (name : NameId) (entity : Entity) : Prop :=
  Aliased row name entity ∨ Selects parsed row space name entity ∨
    row.role = .userModule ∧ Supplied parsed space name entity

/-- What a spelling denotes in a module. -/
def Visible (row : ParsedModuleRow) (space : Space) (name : NameId) (entity : Entity) : Prop :=
  (∃ entry, Declares parsed row entry ∧ Claims entry space name ∧
      sameEntity entry.entity entity = true) ∨
    Received parsed row space name entity

/-! ## Acceptance -/

/-- The type that a module's name denotes: if it is declared there, it is public. -/
def HoldsType (module : ModuleId) (name : NameId) (receiver : TypeHead) : Prop :=
  ∃ row ∈ parsed.dependencyOrder, row.module = module ∧
    Visible parsed row .types name (.type receiver) ∧
      ((∃ entry, Declares parsed row entry ∧ Claims entry .types name) →
        Offers parsed module .types name (.type receiver))

def SelectionOffered (row : ParsedModuleRow) (target : ModuleId) : ImportSelection → Prop
  | .namedSelection written =>
      (∃ space entity, Picks (.namedSelection written) written.id entity ∧
        Offers parsed target space written.id entity) ∧
      ¬ ∃ value type, Picks (.namedSelection written) written.id value ∧
        Offers parsed target .values written.id value ∧ Offers parsed target .types written.id type
  | .constructorSelection written listed =>
      ∃ owner, Offers parsed target .types written.id (.type (.unionHead owner)) ∧
        ∀ name ∈ listed, ∃ variant, Offers parsed target .values name.id (.constructor variant) ∧
          variant.owner = owner
  | .methodsSelection written _ =>
      ∃ receiver, HoldsType parsed target written.id receiver ∧
        Received parsed row .types written.id (.type receiver)

/-- Declarations that do not claim the same spelling, but for a method of one trait. -/
def DeclaredApart (first second : Entry) : Prop :=
  ∀ space name, Claims first space name → Claims second space name →
    first.entity = second.entity ∧ IsMethod second.entity

theorem DeclaredApart.symm {first second : Entry} (h : DeclaredApart first second) :
    DeclaredApart second first := by
  intro space name hfirst hsecond
  obtain ⟨heq, hmethod⟩ := h space name hsecond hfirst
  exact ⟨heq.symm, heq ▸ hmethod⟩

/-- A module whose names are unambiguous and whose selections and traits are all there. -/
structure RowAccepted (row : ParsedModuleRow) : Prop where
  offered : ∀ request ∈ row.imports, ∀ selection ∈ request.symbols,
    SelectionOffered parsed row request.target selection
  unambiguous : ∀ space name first second, Visible parsed row space name first →
    Visible parsed row space name second → sameEntity first second = true
  declaredOnce : (declaredIn parsed row.module).Pairwise DeclaredApart
  implemented : ∀ implementation ∈ parsed.declarations.implementations,
    implementation.header.module = row.module →
      ∃ id, TraitNamed parsed row implementation.header.traitName id

def Accepted : Prop := ∀ row ∈ parsed.dependencyOrder, RowAccepted parsed row

end

end Blorp.Namespace
