import Blorp.Load.Assemble

/-!
# Declarations and what names denote

The data of `namespace/namespace.brp` and the rows of the declaration inventory
(`utils/ids.brp`) it reads, with the entries every module declares.

Of a declaration only what naming reads is kept: its module, its name, its visibility and,
of a function, its role.  Signatures, fields and bodies pass through unread.
-/

namespace Blorp.Namespace

open Check (Span ModuleId WrittenName TraitId TraitMethodId FunctionId ConstantId UnionId RecordId
  OpaqueId VariantId Entity TypeHead ModulePath ParsedQualified Purity Unoffered)
open Load (ParsedModuleRow ImportSelection)

/-! ## The declaration inventory -/

inductive Visibility where
  | publicName
  | privateName (span : Span)
  deriving DecidableEq

inductive FunctionRole where
  | freeFunctionBody
  | implementationBody
  | traitDefaultBody
  deriving DecidableEq

structure FunctionRow where
  id : FunctionId
  role : FunctionRole
  module : ModuleId
  functionName : WrittenName
  visibility : Visibility

/-- Required methods own their written header; a default refers to its function row. -/
inductive TraitMethodDeclaration where
  | requiredMethod (functionName : WrittenName)
  | defaultMethod (id : FunctionId)

structure TraitMethodRow where
  id : TraitMethodId
  declaration : TraitMethodDeclaration
  span : Span

structure TraitRow where
  id : TraitId
  module : ModuleId
  visibility : Visibility
  typeName : WrittenName
  methods : List TraitMethodRow

inductive TypeSyntax where
  | atomicType (name : WrittenName)
  | appliedType (name : WrittenName) (arguments : List TypeSyntax) (span : Span)
  | qualifiedType (qualified : ParsedQualified) (arguments : List TypeSyntax) (span : Span)
  | callableTypeSyntax (purity : Purity) (parameters : List TypeSyntax) (result : TypeSyntax)
      (span : Span)
  | tupleTypeSyntax (elements : List TypeSyntax) (span : Span)

def TypeSyntax.typeSpan : TypeSyntax → Span
  | .atomicType name => name.span
  | .appliedType _ _ span => span
  | .qualifiedType _ _ span => span
  | .callableTypeSyntax _ _ _ span => span
  | .tupleTypeSyntax _ span => span

structure ImplementationHeader where
  module : ModuleId
  visibility : Visibility
  traitName : TypeSyntax
  span : Span

structure ImplRow where
  id : Nat
  header : ImplementationHeader
  methods : List FunctionId

structure RecordRow where
  id : RecordId
  module : ModuleId
  typeName : WrittenName
  visibility : Visibility

structure OpaqueRow where
  id : OpaqueId
  module : ModuleId
  typeName : WrittenName
  visibility : Visibility

structure ConstantRow where
  id : ConstantId
  module : ModuleId
  name : WrittenName
  visibility : Visibility

structure VariantRow where
  id : VariantId
  name : WrittenName

structure UnionRow where
  id : UnionId
  module : ModuleId
  visibility : Visibility
  typeName : WrittenName
  variants : List VariantRow

structure DeclarationInventory where
  functions : List FunctionRow
  traits : List TraitRow
  implementations : List ImplRow
  records : List RecordRow
  unions : List UnionRow
  opaques : List OpaqueRow
  constants : List ConstantRow

inductive ParsedBuiltinType where
  | integerBuiltin (name : WrittenName)
  | floatBuiltin (name : WrittenName)
  | stringBuiltin (name : WrittenName)
  | voidBuiltin (name : WrittenName)
  | listBuiltin (name element : WrittenName)

structure ParsedBuiltinDeclaration where
  module : ModuleId
  declaration : ParsedBuiltinType

structure ParsedContents where
  prelude : ModuleId
  builtinTypes : List ParsedBuiltinDeclaration
  modules : List ParsedModuleRow
  dependencyOrder : List ParsedModuleRow
  declarations : DeclarationInventory

/-- A method's written name; a default's is that of its own function row. -/
def TraitMethodRow.traitMethodHeader (method : TraitMethodRow) (inventory : DeclarationInventory) :
    Option WrittenName :=
  match method.declaration with
  | .requiredMethod name => some name
  | .defaultMethod id =>
      match inventory.functions[id]? with
      | none => none
      | some row => if row.role = .traitDefaultBody then some row.functionName else none

inductive NominalRow where
  | unionDeclarationRow (row : UnionRow)
  | recordDeclarationRow (row : RecordRow)
  | opaqueDeclarationRow (row : OpaqueRow)

def NominalRow.nominalModule : NominalRow → ModuleId
  | .unionDeclarationRow row => row.module
  | .recordDeclarationRow row => row.module
  | .opaqueDeclarationRow row => row.module

def NominalRow.nominalStart : NominalRow → Nat
  | .unionDeclarationRow row => row.typeName.span.start
  | .recordDeclarationRow row => row.typeName.span.start
  | .opaqueDeclarationRow row => row.typeName.span.start

def declarationPrecedes (first second : NominalRow) : Bool :=
  if first.nominalModule = second.nominalModule then
    decide (first.nominalStart < second.nominalStart)
  else decide (first.nominalModule < second.nominalModule)

/-! ## What names denote -/

/-- How a name entered its module: declared there, written in its import block, or supplied
by the prelude. -/
inductive Origin where
  | declared (visibility : Visibility)
  | imported
  | implicit
  deriving DecidableEq

structure Entry where
  name : WrittenName
  entity : Entity
  origin : Origin

/-- A module's two name spaces; an alias claims its spelling in both. -/
inductive Space where
  | values
  | types
  deriving DecidableEq

structure MethodImport where
  target : ModuleId
  receiver : TypeHead
  name : WrittenName

structure ResolvedImplementation where
  id : Nat
  traitId : TraitId

abbrev Names := List (Nat × Entry)

structure ModuleScope where
  names : Names
  methods : List MethodImport
  implementations : List ResolvedImplementation

inductive SelectionProblem where
  | notOffered (reason : Unoffered)
  | alreadyFromPrelude (entity : Entity)
  | alreadyImported (entity : Entity)
  | ambiguousFunction
  | ambiguousConstant
  | bareConstructor (variant : VariantId)
  | notAConstructor (constructor : WrittenName)
  | receiverNotVisible

/-- `incoming` reached a space `previous` already holds for its spelling. -/
structure Conflict where
  incoming : Entry
  previous : Entry

inductive NamespaceProblem where
  | nameConflict (conflict : Conflict)
  | selectionFailure (path : ModulePath) (selection : ImportSelection) (problem : SelectionProblem)
  | invalidImplementationTrait (written : TypeSyntax)
  | invalidTraitInventory (span : Span)

def selectionName : ImportSelection → WrittenName
  | .namedSelection name => name
  | .constructorSelection name _ => name
  | .methodsSelection name _ => name

def NamespaceProblem.namespaceProblemSpan : NamespaceProblem → Span
  | .invalidImplementationTrait written => written.typeSpan
  | .invalidTraitInventory span => span
  | .nameConflict conflict => conflict.incoming.name.span
  | .selectionFailure _ _ (.notAConstructor constructor) => constructor.span
  | .selectionFailure _ selection _ => (selectionName selection).span

structure BuiltScope where
  names : Names
  methods : List MethodImport
  implementations : List ResolvedImplementation
  problem : Option NamespaceProblem

def sameEntity : Entity → Entity → Bool
  | .trait first, .trait second => first == second
  | .method first, .method second => first == second
  | .function first, .function second => first == second
  | .constant first, .constant second => first == second
  | .constructor first, .constructor second => first == second
  | .type first, .type second => first == second
  | .alias first, .alias second => first.target == second.target
  | _, _ => false

def ParsedBuiltinType.builtinTypeName : ParsedBuiltinType → WrittenName
  | .integerBuiltin name => name
  | .floatBuiltin name => name
  | .stringBuiltin name => name
  | .voidBuiltin name => name
  | .listBuiltin name _ => name

def ParsedBuiltinType.builtinHead : ParsedBuiltinType → TypeHead
  | .integerBuiltin _ => .primitiveHead .builtinInt
  | .floatBuiltin _ => .primitiveHead .builtinFloat
  | .stringBuiltin _ => .primitiveHead .builtinString
  | .voidBuiltin _ => .primitiveHead .builtinVoid
  | .listBuiltin .. => .listHead

end Blorp.Namespace
