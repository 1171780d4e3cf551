import MessageCode.Generate.Shape
import MessageCode.Generate.TypedValue

/-!
Reading a field of a message. A read gives the logical value of the field; it is null for a checked
field that is unset, and never null otherwise.
-/

namespace MessageCode

namespace Access

def nativeBase (base : TypedValue) (message : String) : Assembler GenerateError Unit := do
  Assembler.append base.code
  if base.isBoxed then
    Assembler.checkCast (.boxed .proto)
    Assembler.invoke Signature.getProto
    Assembler.checkCast (.message message)

/-- Boxes a primitive, so that it can meet the null of the other arm. -/
def boxPrimitiveTop (type : ValueType) : Assembler GenerateError Unit := do
  if (← Assembler.top).isPrimitive then boxTop type false

/-- The arm of an unset field: null in place of the message. -/
def absent : Assembler GenerateError Unit := do
  Assembler.pop
  Assembler.pushNull

/-- Repeated fields are read through the boxed message, which gives their elements boxed. -/
def readRepeated (base : TypedValue) (f : Field) (element : Coercion) :
    Except GenerateError TypedValue := do
  let base ← base.box
  TypedValue.assemble base.code.inputs true (.list element.logicalType) do
    Assembler.append base.code
    Assembler.checkCast (.boxed .proto)
    Assembler.pushConst (.text f.name)
    Assembler.invoke Signature.getField
    Assembler.invoke Signature.resolve
    Assembler.checkCast (.boxed .list)

def readExtension (base : TypedValue) (message : String) (f : Field) (coercion : Coercion)
    (presence : PresencePolicy) : Except GenerateError TypedValue :=
  let type := coercion.logicalType
  TypedValue.assemble base.code.inputs (!presence.checks) type do
    nativeBase base message
    let id ← Assembler.ofExcept (Signature.extensionId f)
    if presence.checks then
      Assembler.dup
      Assembler.getStatic id
      Assembler.invoke Signature.hasExtension
      Assembler.branch .isTrue
        (do
          Assembler.getStatic id
          Assembler.invoke Signature.getExtension
          coercion.interpretExtension
          boxPrimitiveTop type)
        absent
    else
      Assembler.getStatic id
      Assembler.invoke Signature.getExtension
      coercion.interpretExtension

/-- Leaves the operands of the branch on presence. -/
def testPresence (f : Field) : PresenceTest → Assembler GenerateError Test
  | .hasser => do
      Assembler.invoke (Signature.hasser f)
      return .isTrue
  | .oneofCase oneof number => do
      Assembler.invoke (Signature.caseGetter f.container oneof)
      Assembler.invoke (Signature.caseNumber f.container oneof)
      Assembler.pushConst (.int number)
      return .intEq

def readSingular (base : TypedValue) (message : String) (f : Field) (coercion : Coercion)
    (presence : PresencePolicy) (test : PresenceTest) : Except GenerateError TypedValue :=
  let getter := Signature.getter f coercion.storageType
  let type := coercion.logicalType
  TypedValue.assemble base.code.inputs (!presence.checks) type do
    nativeBase base message
    if presence.checks then
      Assembler.dup
      let branchTest ← testPresence f test
      Assembler.branch branchTest
        (do
          Assembler.invoke getter
          coercion.interpret
          boxPrimitiveTop type)
        absent
    else
      Assembler.invoke getter
      coercion.interpret

end Access

/-- Code that reads a field of a message, whose base is given in boxed or native form. -/
def generateAccess (schema : Schema) (message : String) (base : TypedValue) (field : String) :
    Except GenerateError TypedValue := do
  if (schema.message? message).isNone then throw (.unknownMessage message)
  match schema.field? message field with
  | none => throw (.unknownField message field)
  | some f =>
      let shape ← Shape.of schema f
      if !base.isBoxed && base.native ≠ .message message then
        throw (.baseMismatch message base.native.render)
      match shape with
      | .repeated element _ => Access.readRepeated base f element
      | .extension coercion presence => Access.readExtension base message f coercion presence
      | .singular coercion presence test =>
          Access.readSingular base message f coercion presence test

end MessageCode
