import Blorp.Specialize.Model

/-!
# Runtime contracts

The operand and result types of each runtime operation: `runtime_contract` of
`namespace/builtins.brp` and its concrete reading in `specialize/specialize.brp`.
A contract's purity is left out, since nothing after checking reads it.
-/

namespace Blorp

inductive PrimitiveType where
  | builtinInt
  | builtinFloat
  | builtinString
  | builtinVoid
  deriving DecidableEq, Repr

inductive RuntimeType (Element : Type) where
  | primitiveRuntimeType (primitive : PrimitiveType)
  | elementRuntimeType (element : Element)
  | listRuntimeType (element : Element)
  | stringListRuntimeType

/-- Union results retain their designated constructors and exact payload types. -/
inductive RuntimeResult (Variant Element : Type) where
  | valueResult (valueType : RuntimeType Element)
  | optionalResult (payload : RuntimeType Element) (option : DesignatedOption Variant)
  | resultResult (success error : RuntimeType Element) (constructors : DesignatedResult Variant)
  | booleanResult (boolean : DesignatedBoolean Variant)

structure RuntimeContract (Variant Element : Type) where
  parameters : List (RuntimeType Element)
  returnType : RuntimeResult Variant Element

/-! ## System calls -/

/-- A system call's parameter, always borrowed. -/
inductive SystemParameter where
  | intParameter
  | stringParameter
  | stringListParameter

inductive SystemPayload where
  | intPayload
  | stringPayload
  | stringListPayload
  | voidPayload

structure SystemSignature where
  parameters : List SystemParameter
  success : SystemPayload
  error : SystemPayload

def SystemOperation.systemSignature : SystemOperation → SystemSignature
  | .getCurrentDirectory => ⟨[], .stringPayload, .stringPayload⟩
  | .runToFiles =>
      ⟨[.stringParameter, .stringListParameter, .stringParameter, .stringParameter, .intParameter],
        .intPayload, .stringPayload⟩
  | .fsReadText => ⟨[.stringParameter], .stringPayload, .intPayload⟩
  | .fsWriteText => ⟨[.stringParameter, .stringParameter], .voidPayload, .intPayload⟩
  | .fsEntryKind => ⟨[.stringParameter], .intPayload, .intPayload⟩
  | .fsListDirectory => ⟨[.stringParameter], .stringListPayload, .intPayload⟩
  | .fsCreateDirectory | .fsCreateDirectories | .fsRemoveFile | .fsRemoveDirectory
  | .fsRemoveDirectoryTree => ⟨[.stringParameter], .voidPayload, .intPayload⟩
  | .fsRename => ⟨[.stringParameter, .stringParameter], .voidPayload, .intPayload⟩
  | .fsCreateTemporaryDirectory =>
      ⟨[.stringParameter, .stringParameter], .stringPayload, .intPayload⟩
  | .fsOpenRead => ⟨[.stringParameter], .intPayload, .intPayload⟩
  | .fsNextLines => ⟨[.intParameter, .stringParameter], .stringListPayload, .intPayload⟩
  | .fsClose => ⟨[.intParameter], .voidPayload, .intPayload⟩

def SystemParameter.parameterRuntimeType {Element : Type} : SystemParameter → RuntimeType Element
  | .intParameter => .primitiveRuntimeType .builtinInt
  | .stringParameter => .primitiveRuntimeType .builtinString
  | .stringListParameter => .stringListRuntimeType

def SystemPayload.payloadRuntimeType {Element : Type} : SystemPayload → RuntimeType Element
  | .intPayload => .primitiveRuntimeType .builtinInt
  | .stringPayload => .primitiveRuntimeType .builtinString
  | .stringListPayload => .stringListRuntimeType
  | .voidPayload => .primitiveRuntimeType .builtinVoid

/-! ## Contracts -/

def RuntimeOperation.runtimeContract {Variant Element : Type} :
    RuntimeOperation Variant Element → RuntimeContract Variant Element
  | .intAdd | .intSubtract | .intMultiply | .intDivide | .intRemainder =>
      ⟨[.primitiveRuntimeType .builtinInt, .primitiveRuntimeType .builtinInt],
        .valueResult (.primitiveRuntimeType .builtinInt)⟩
  | .floatAdd | .floatSubtract | .floatMultiply | .floatDivide | .floatRemainder
  | .floatCopySign =>
      ⟨[.primitiveRuntimeType .builtinFloat, .primitiveRuntimeType .builtinFloat],
        .valueResult (.primitiveRuntimeType .builtinFloat)⟩
  | .floatToString =>
      ⟨[.primitiveRuntimeType .builtinFloat], .valueResult (.primitiveRuntimeType .builtinString)⟩
  | .intToString =>
      ⟨[.primitiveRuntimeType .builtinInt], .valueResult (.primitiveRuntimeType .builtinString)⟩
  | .stringLength =>
      ⟨[.primitiveRuntimeType .builtinString], .valueResult (.primitiveRuntimeType .builtinInt)⟩
  | .stringConcat =>
      ⟨[.primitiveRuntimeType .builtinString, .primitiveRuntimeType .builtinString],
        .valueResult (.primitiveRuntimeType .builtinString)⟩
  | .stringAppendInt =>
      ⟨[.primitiveRuntimeType .builtinString, .primitiveRuntimeType .builtinInt],
        .valueResult (.primitiveRuntimeType .builtinString)⟩
  | .stringPrint | .stringPrintError =>
      ⟨[.primitiveRuntimeType .builtinString], .valueResult (.primitiveRuntimeType .builtinVoid)⟩
  | .stringParseInt option =>
      ⟨[.primitiveRuntimeType .builtinString],
        .optionalResult (.primitiveRuntimeType .builtinInt) option⟩
  | .stringParseFloat option =>
      ⟨[.primitiveRuntimeType .builtinString],
        .optionalResult (.primitiveRuntimeType .builtinFloat) option⟩
  | .stringByteAt option =>
      ⟨[.primitiveRuntimeType .builtinString, .primitiveRuntimeType .builtinInt],
        .optionalResult (.primitiveRuntimeType .builtinInt) option⟩
  | .stringFromCodepoint option =>
      ⟨[.primitiveRuntimeType .builtinInt],
        .optionalResult (.primitiveRuntimeType .builtinString) option⟩
  | .stringSlice option =>
      ⟨[.primitiveRuntimeType .builtinString, .primitiveRuntimeType .builtinInt,
          .primitiveRuntimeType .builtinInt],
        .optionalResult (.primitiveRuntimeType .builtinString) option⟩
  | .systemCall system result =>
      ⟨system.systemSignature.parameters.map (·.parameterRuntimeType),
        .resultResult system.systemSignature.success.payloadRuntimeType
          system.systemSignature.error.payloadRuntimeType result⟩
  | .listRepeat element =>
      ⟨[.elementRuntimeType element, .primitiveRuntimeType .builtinInt],
        .valueResult (.listRuntimeType element)⟩
  | .listLength element =>
      ⟨[.listRuntimeType element], .valueResult (.primitiveRuntimeType .builtinInt)⟩
  | .listGet element option =>
      ⟨[.listRuntimeType element, .primitiveRuntimeType .builtinInt],
        .optionalResult (.elementRuntimeType element) option⟩
  | .listAppend element =>
      ⟨[.listRuntimeType element, .elementRuntimeType element],
        .valueResult (.listRuntimeType element)⟩
  | .listSet element =>
      ⟨[.listRuntimeType element, .primitiveRuntimeType .builtinInt, .elementRuntimeType element],
        .valueResult (.listRuntimeType element)⟩
  | .listConcat element =>
      ⟨[.listRuntimeType element, .listRuntimeType element],
        .valueResult (.listRuntimeType element)⟩
  | .stringEquals boolean =>
      ⟨[.primitiveRuntimeType .builtinString, .primitiveRuntimeType .builtinString],
        .booleanResult boolean⟩
  | .intEquals boolean | .intLessThan boolean =>
      ⟨[.primitiveRuntimeType .builtinInt, .primitiveRuntimeType .builtinInt],
        .booleanResult boolean⟩
  | .floatEquals boolean | .floatLessThan boolean =>
      ⟨[.primitiveRuntimeType .builtinFloat, .primitiveRuntimeType .builtinFloat],
        .booleanResult boolean⟩

namespace Specialize

def primitiveRef : PrimitiveType → TypeRef
  | .builtinVoid => .voidType
  | .builtinInt => .intType
  | .builtinFloat => .floatType
  | .builtinString => .stringType

def runtimeTypeRef : RuntimeType TypeRef → TypeRef
  | .primitiveRuntimeType primitive => primitiveRef primitive
  | .elementRuntimeType element => element
  | .listRuntimeType element => .listType element
  | .stringListRuntimeType => .listType .stringType

def runtimeSignature (operation : RuntimeOperation VariantInstanceId TypeRef) :
    FunctionSignature where
  parameters := operation.runtimeContract.parameters.map runtimeTypeRef
  returnType :=
    match operation.runtimeContract.returnType with
    | .valueResult valueType => runtimeTypeRef valueType
    | .optionalResult _ option => .unionType option.someVariant.owner
    | .resultResult _ _ constructors => .unionType constructors.ok.owner
    | .booleanResult boolean => .unionType boolean.trueVariant.owner

end Specialize

end Blorp
