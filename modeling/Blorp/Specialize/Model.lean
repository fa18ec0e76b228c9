import Blorp.Check.Model

/-!
# Concrete types and storage

The part of `specialize/specialize.brp` the later phases read: instance
identities, concrete types, record and union layouts, call targets and pattern
places.  Runtime operations are those of `namespace/builtins.brp`, diagnostics
those of `utils/syntax.brp`.
-/

namespace Blorp

open Check (Span compilerSpan)

/-! ## Diagnostics -/

structure NoteLine where
  span : Span
  text : String
  deriving DecidableEq, Repr

inductive DiagnosticNote where
  | noteLines (lines : List NoteLine)
  | previousDeclaration (span : Span)
  | competingDeclarations (spans : List Span)
  | unionPayloadDeclaration (span : Span)
  | recordFieldDeclaration (span : Span)
  | previousField (span : Span)
  | declaration (span : Span)
  deriving DecidableEq, Repr

structure Diagnostic where
  span : Span
  note : Option DiagnosticNote
  message : String
  help : String
  deriving DecidableEq, Repr

def diagnostic (span : Span) (message help : String) : Diagnostic :=
  ⟨span, none, message, help⟩

def internalError (span : Span) (message : String) : Diagnostic :=
  diagnostic span ("internal compiler error: " ++ message)
    "report this compiler error with the input program"

def orInternalError {α : Type} (value : Option α) (span : Span) (message : String) :
    Except Diagnostic α :=
  match value with
  | some present => .ok present
  | none => .error (internalError span message)

theorem orInternalError_eq_ok {α : Type} {value : Option α} {span : Span} {message : String}
    {a : α} : orInternalError value span message = .ok a ↔ value = some a := by
  cases value <;> simp [orInternalError]

/-! ## Runtime operations -/

inductive EntryResult where
  | integerExitStatus
  | successfulExit
  deriving DecidableEq, Repr

inductive Entrypoint (Function : Type) where
  | noArguments (function : Function) (result : EntryResult)
  | withArguments (function : Function) (result : EntryResult)
  deriving DecidableEq, Repr

def Entrypoint.entryFunction {Function : Type} : Entrypoint Function → Function
  | .noArguments function _ => function
  | .withArguments function _ => function

inductive SystemOperation where
  | getCurrentDirectory
  | runToFiles
  | fsReadText
  | fsWriteText
  | fsEntryKind
  | fsListDirectory
  | fsCreateDirectory
  | fsCreateDirectories
  | fsRemoveFile
  | fsRemoveDirectory
  | fsRename
  | fsRemoveDirectoryTree
  | fsCreateTemporaryDirectory
  | fsOpenRead
  | fsNextLines
  | fsClose
  deriving DecidableEq, Repr

structure DesignatedBoolean (Variant : Type) where
  trueVariant : Variant
  falseVariant : Variant
  deriving DecidableEq, Repr

structure DesignatedOption (Variant : Type) where
  someVariant : Variant
  noneVariant : Variant
  deriving DecidableEq, Repr

structure DesignatedResult (Variant : Type) where
  ok : Variant
  err : Variant
  deriving DecidableEq, Repr

/-- An operation whose result is a designated union carries that union's
constructors. -/
inductive RuntimeOperation (Variant Element : Type) where
  | intAdd
  | intSubtract
  | intMultiply
  | intDivide
  | intRemainder
  | intToString
  | floatAdd
  | floatSubtract
  | floatMultiply
  | floatDivide
  | floatRemainder
  | floatToString
  | floatCopySign
  | floatEquals (boolean : DesignatedBoolean Variant)
  | floatLessThan (boolean : DesignatedBoolean Variant)
  | stringLength
  | stringConcat
  | stringAppendInt
  | stringPrint
  | stringPrintError
  | stringParseInt (option : DesignatedOption Variant)
  | stringParseFloat (option : DesignatedOption Variant)
  | stringByteAt (option : DesignatedOption Variant)
  | stringFromCodepoint (option : DesignatedOption Variant)
  | stringSlice (option : DesignatedOption Variant)
  | systemCall (operation : SystemOperation) (result : DesignatedResult Variant)
  | listRepeat (element : Element)
  | listLength (element : Element)
  | listGet (element : Element) (option : DesignatedOption Variant)
  | listAppend (element : Element)
  | listSet (element : Element)
  | listConcat (element : Element)
  | stringEquals (boolean : DesignatedBoolean Variant)
  | intEquals (boolean : DesignatedBoolean Variant)
  | intLessThan (boolean : DesignatedBoolean Variant)
  deriving Repr

/-- Whether a runtime operation may reuse operand 0's buffer in place when it
receives that operand's obligation.  The one authority for in-place updates. -/
def RuntimeOperation.reusesFirstOperand {Variant Element : Type} :
    RuntimeOperation Variant Element → Bool
  | .stringConcat | .stringAppendInt | .listAppend _ | .listSet _ | .listConcat _ => true
  | _ => false

/-! ## Instance identities and types -/

namespace Specialize

abbrev FunctionInstanceId := Nat
abbrev UnionInstanceId := Nat
abbrev RecordInstanceId := Nat

structure FieldInstanceId where
  owner : RecordInstanceId
  position : Nat
  deriving DecidableEq, Repr

structure VariantInstanceId where
  owner : UnionInstanceId
  position : Nat
  deriving DecidableEq, Repr

structure VariantFieldInstanceId where
  variant : VariantInstanceId
  position : Nat
  deriving DecidableEq, Repr

inductive TypeRef where
  | voidType
  | intType
  | floatType
  | stringType
  | listType (element : TypeRef)
  | callableType (parameters : List TypeRef) (result : TypeRef)
  | recordType (id : RecordInstanceId)
  | unionType (id : UnionInstanceId)
  deriving Repr

mutual

def TypeRef.beq : TypeRef → TypeRef → Bool
  | .voidType, .voidType => true
  | .intType, .intType => true
  | .floatType, .floatType => true
  | .stringType, .stringType => true
  | .listType left, .listType right => TypeRef.beq left right
  | .callableType left result, .callableType right result' =>
      TypeRef.beqAll left right && TypeRef.beq result result'
  | .recordType left, .recordType right => left == right
  | .unionType left, .unionType right => left == right
  | _, _ => false

def TypeRef.beqAll : List TypeRef → List TypeRef → Bool
  | [], [] => true
  | left :: lefts, right :: rights => TypeRef.beq left right && TypeRef.beqAll lefts rights
  | _, _ => false

end

mutual

theorem TypeRef.beq_iff : ∀ left right : TypeRef, TypeRef.beq left right = true ↔ left = right := by
  intro left right
  cases left with
  | listType element => cases right <;> simp [TypeRef.beq, TypeRef.beq_iff element]
  | callableType parameters result =>
    cases right <;> simp [TypeRef.beq, TypeRef.beqAll_iff parameters, TypeRef.beq_iff result]
  | _ => cases right <;> simp [TypeRef.beq]

theorem TypeRef.beqAll_iff : ∀ lefts rights : List TypeRef,
    TypeRef.beqAll lefts rights = true ↔ lefts = rights := by
  intro lefts rights
  cases lefts with
  | nil => cases rights <;> simp [TypeRef.beqAll]
  | cons left lefts =>
    cases rights <;> simp [TypeRef.beqAll, TypeRef.beq_iff left, TypeRef.beqAll_iff lefts]

end

instance : DecidableEq TypeRef :=
  fun left right => decidable_of_iff (TypeRef.beq left right = true) (TypeRef.beq_iff left right)

/-- A record's storage: by value without a managed field, by value with managed
fields, or a counted heap cell. -/
inductive ConcreteRecord where
  | inlineFields (fields : List TypeRef)
  | valueFields (fields : List TypeRef)
  | countedFields (fields : List TypeRef)
  deriving Repr

/-- A union's storage, derived once from every child. -/
inductive ConcreteUnion where
  | plainCases (variants : List (List TypeRef))
  | owningCases (variants : List (List TypeRef))
  | boxedCases (variants : List (List TypeRef))
  deriving Repr

structure FunctionSignature where
  parameters : List TypeRef
  returnType : TypeRef
  deriving Repr

inductive CallTarget where
  | userFunction (id : FunctionInstanceId)
  | runtimeFunction (operation : RuntimeOperation VariantInstanceId TypeRef)
  deriving Repr

mutual

structure ConcretePatternPlace where
  valueType : TypeRef
  route : ConcretePatternRoute
  deriving DecidableEq

inductive ConcretePatternRoute where
  | matchRoot
  | unionField (parent : ConcretePatternPlace) (field : VariantFieldInstanceId)
  | listElement (parent : ConcretePatternPlace) (index : Nat)
  | recordField (parent : ConcretePatternPlace) (field : FieldInstanceId)
  deriving DecidableEq

end

def ConcreteRecord.recordFields : ConcreteRecord → List TypeRef
  | .inlineFields fields | .valueFields fields | .countedFields fields => fields

def ConcreteUnion.unionVariants : ConcreteUnion → List (List TypeRef)
  | .plainCases variants | .owningCases variants | .boxedCases variants => variants

def TypeRef.valueNeedsOwnership (typeRef : TypeRef) (unions : List ConcreteUnion)
    (records : List ConcreteRecord) : Except Diagnostic Bool :=
  match typeRef with
  | .voidType | .intType | .floatType => .ok false
  | .stringType | .listType _ | .callableType _ _ => .ok true
  | .recordType id =>
      match records[id]? with
      | none =>
          .error (internalError compilerSpan "invalid record identity in ownership representation")
      | some (.inlineFields _) => .ok false
      | some (.valueFields _) | some (.countedFields _) => .ok true
  | .unionType id =>
      match unions[id]? with
      | none =>
          .error (internalError compilerSpan "invalid union identity in ownership representation")
      | some (.plainCases _) => .ok false
      | some (.owningCases _) | some (.boxedCases _) => .ok true

end Specialize

end Blorp
