import MessageCode.Generate.Signature
import MessageCode.Generate.ValueType

/-!
Typed values: code that produces one value, with the logical type of that value. A value is boxed
when its code produces a boxed value, and native otherwise.
-/

namespace MessageCode

structure TypedValue where
  code : Sequence
  /-- What the code leaves on the stack. -/
  native : NativeType
  type : ValueType
  output_eq : code.output = some native

def boxPresent (type : ValueType) : Assembler GenerateError Unit := do
  let top ← Assembler.top
  match top with
  | .bool => Assembler.invoke (Signature.forValue .bool)
  | .int | .long =>
      Assembler.convert .long
      Assembler.invoke (Signature.forValue .int)
  | .float | .double =>
      Assembler.convert .double
      Assembler.invoke (Signature.forValue .float)
  | .ref .text =>
      match type with
      | .sanitized kind =>
          Assembler.pushConst (.int kind.ordinal)
          Assembler.invoke Signature.ordain
      | _ => Assembler.invoke (Signature.forValue .text)
  | .ref (.message _) => Assembler.invoke (Signature.forValue .proto)
  | .ref .list => Assembler.invoke (Signature.forValue .list)
  | .ref .null => Assembler.checkCast (.boxed .any)
  | _ => throw (.unsupported type.render ("boxing of " ++ top.render))

/-- The boxed form of the value on top. A reference that may be null is tested, so that null stays
null. -/
def boxTop (type : ValueType) (nullable : Bool) : Assembler GenerateError Unit := do
  let top ← Assembler.top
  if top.boxedKind?.isSome then pure ()
  else if nullable && !top.isPrimitive then
    Assembler.dup
    Assembler.branch .isNull
      (do
        Assembler.pop
        Assembler.pushNull)
      (boxPresent type)
  else boxPresent type

def cannotUnbox (target found : NativeType) : GenerateError :=
  .unsupported ("unbox to " ++ target.render) ("value of type " ++ found.render)

def unboxBoxed (target : NativeType) : Assembler GenerateError Unit := do
  match target with
  | .bool => Assembler.invoke (Signature.unbox "boolean_value" .bool)
  | .int | .long =>
      Assembler.invoke (Signature.unbox "long_value" .long)
      Assembler.convert target
  | .float | .double =>
      Assembler.invoke (Signature.unbox "float_value" .double)
      Assembler.convert target
  | .ref .text => Assembler.invoke (Signature.unbox "string_value" .text)
  | .ref .list =>
      Assembler.checkCast (.boxed .list)
      Assembler.invoke Signature.asList
  | .ref .object =>
      Assembler.checkCast (.boxed .proto)
      Assembler.invoke Signature.getProto
  | .ref (.message name) =>
      Assembler.checkCast (.boxed .proto)
      Assembler.invoke Signature.getProto
      Assembler.checkCast (.message name)
  | _ => throw (cannotUnbox target (← Assembler.top))

/-- The native form of the value on top: boxed values are unboxed, numbers converted, and an object
of no known type is taken for a boxed value. -/
def unboxTop (target : NativeType) : Assembler GenerateError Unit := do
  let top ← Assembler.top
  if top.boxedKind?.isSome then unboxBoxed target
  else if top.assignableTo target then pure ()
  else if top.isNumeric && target.isNumeric then Assembler.convert target
  else if top = .ref .object && !target.isPrimitive then
    Assembler.checkCast (.boxed .any)
    unboxBoxed target
  else throw (cannotUnbox target top)

namespace TypedValue

/-- The value of a finished sequence, which has to leave one. -/
def ofSequence (code : Sequence) (type : ValueType) : Except GenerateError TypedValue :=
  match h : code.output with
  | some native => .ok { code, native, type, output_eq := h }
  | none => .error (.unsupported type.render "statement sequence as a value")

def assemble (inputs : List NativeType) (nonNull : Bool) (type : ValueType)
    (steps : Assembler GenerateError Unit) : Except GenerateError TypedValue := do
  ofSequence (← Assembler.expression inputs nonNull steps) type

def ofConstant (c : Constant) (type : ValueType) : TypedValue :=
  { code := .constant c, native := c.type, type, output_eq := rfl }

def ofBool (b : Bool) : TypedValue := ofConstant (.bool b) .bool

def ofLong (n : Int64) : TypedValue := ofConstant (.long n) .int

def ofDouble (x : Numeric.Double) : TypedValue := ofConstant (.double x) .float

def ofText (s : String) : TypedValue := ofConstant (.text s) .text

def null : TypedValue := ofConstant .null .null

def ofSanitized (kind : SanitizedKind) (content : String) : Except GenerateError TypedValue :=
  assemble [] true (.sanitized kind) do
    Assembler.pushConst (.text content)
    Assembler.pushConst (.int kind.ordinal)
    Assembler.invoke Signature.ordain

def isNullable (v : TypedValue) : Bool := !v.code.nonNull

def isBoxed (v : TypedValue) : Bool := v.native.boxedKind?.isSome

/-- Adds an item, boxed and in a provider, to the list on top. -/
def addItem (element : ValueType) (item : TypedValue) : Assembler GenerateError Unit := do
  unless item.code.inputs.isEmpty do
    throw (.unsupported ("list<" ++ element.render ++ ">") "list item with inputs")
  Assembler.dup
  Assembler.append item.code
  boxTop item.type item.isNullable
  Assembler.invoke Signature.provider
  Assembler.invoke Signature.listAdd
  Assembler.pop

def listOf (element : ValueType) (items : List TypedValue) : Except GenerateError TypedValue :=
  assemble [] true (.list element) do
    Assembler.invoke Signature.newList
    items.forM (addItem element)
    Assembler.invoke (Signature.forValue .list)

def emptyList : Except GenerateError TypedValue :=
  assemble [] true .emptyList do
    Assembler.invoke Signature.newList
    Assembler.invoke (Signature.forValue .list)

/-- A value that the caller supplies on the stack. -/
def input (type : ValueType) (boxed nullable : Bool) : Except GenerateError TypedValue :=
  assemble [if boxed then type.boxedType else type.nativeType] (!nullable) type (pure ())

/-- The same value without the claim that it is never null. -/
def asNullable (v : TypedValue) : TypedValue :=
  { v with code := v.code.withNonNull false, output_eq := v.output_eq }

/-- The value after further steps on it; whether it may be null does not change. -/
def extend (v : TypedValue) (steps : Assembler GenerateError Unit) :
    Except GenerateError TypedValue :=
  assemble v.code.inputs v.code.nonNull v.type do
    Assembler.append v.code
    steps

def box (v : TypedValue) : Except GenerateError TypedValue :=
  if v.isBoxed then .ok v else v.extend (boxTop v.type v.isNullable)

def unboxAs (v : TypedValue) (target : NativeType) : Except GenerateError TypedValue :=
  v.extend (unboxTop target)

def cast (v : TypedValue) (target : RefType) : Except GenerateError TypedValue :=
  v.extend (Assembler.checkCast target)

end TypedValue

end MessageCode
