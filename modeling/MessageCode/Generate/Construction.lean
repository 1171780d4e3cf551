import MessageCode.Generate.Access

/-!
Building a message from arguments. Without arguments it is the shared default instance; otherwise a
builder is made, every argument is stored in turn, and the builder is built.
-/

namespace MessageCode

/-- How the code waits for the elements of a list: a sequence from list to list. -/
structure ListResolver where
  resolveList : Except EmitError Sequence

/-- Waits for all elements in a single suspending call. -/
def ListResolver.immediate : ListResolver :=
  { resolveList :=
      Assembler.expression [Signature.list] true (Assembler.suspend Signature.resolveAll) }

namespace ValueType

def accepts (expected found : ValueType) : Bool :=
  match expected, found with
  | _, .any => true
  | _, .null => true
  | .float, .int => true
  | _, _ => expected = found

end ValueType

namespace Shape

def acceptsArgument (shape : Shape) (found : ValueType) : Bool :=
  match shape with
  | .repeated element _ =>
      match found with
      | .list item => element.logicalType.accepts item
      | .emptyList | .any | .null => true
      | _ => false
  | _ => shape.coercion.logicalType.accepts found

def expectedArgument (shape : Shape) : ValueType :=
  match shape with
  | .repeated element _ => .list element.logicalType
  | _ => shape.coercion.logicalType

end Shape

namespace Construction

/-- Whether a value has to be tested for null before it is stored. -/
def needsNullTest (v : TypedValue) : Bool := v.isNullable && !v.native.isPrimitive

def unboxFor (coercion : Coercion) (type : ValueType) : Assembler GenerateError Unit := do
  match coercion.unboxTarget with
  | some target => unboxTop target
  | none => if (← Assembler.top).boxedKind?.isNone then boxTop type false

def storeValue (f : Field) (coercion : Coercion) (type : ValueType) :
    Assembler GenerateError Unit := do
  unboxFor coercion type
  coercion.coerce
  Assembler.invoke (Signature.setter f coercion.storageType)

/-- Writes steps for a value that may have to be skipped when it is null. -/
def unlessNull (v : TypedValue) (steps : Assembler GenerateError Unit) :
    Assembler GenerateError Unit := do
  Assembler.append v.code
  if needsNullTest v then
    Assembler.dup
    Assembler.branch .isNull Assembler.pop steps
  else steps

def setSingular (f : Field) (coercion : Coercion) (v : TypedValue) :
    Assembler GenerateError Unit :=
  unlessNull v (storeValue f coercion v.type)

/-- The value on top in the form in which extensions are stored, primitives wrapped. -/
def extensionValue (coercion : Coercion) (type : ValueType) : Assembler GenerateError Unit := do
  unboxFor coercion type
  coercion.coerce
  if (← Assembler.top).isPrimitive then Assembler.boxPrimitive

def setExtension (f : Field) (coercion : Coercion) (v : TypedValue) :
    Assembler GenerateError Unit := do
  let id ← Assembler.ofExcept (Signature.extensionId f)
  Assembler.checkCast .extendableBuilder
  if needsNullTest v then
    Assembler.append v.code
    Assembler.dup
    Assembler.branch .isNull Assembler.pop do
      extensionValue coercion v.type
      Assembler.getStatic id
      Assembler.swap
      Assembler.invoke Signature.setExtension
  else
    Assembler.getStatic id
    Assembler.append v.code
    extensionValue coercion v.type
    Assembler.invoke Signature.setExtension
  Assembler.checkCast (.builder f.container)

/-- Leaves the element at the index, resolved and of the boxed kind of its type. -/
def loadElement (list index : Local) (kind : BoxedKind) : Assembler GenerateError Unit := do
  Assembler.load list
  Assembler.load index
  Assembler.invoke Signature.listGet
  Assembler.checkCast .provider
  Assembler.invoke Signature.resolve
  Assembler.checkCast (.boxed kind)

def addExtensionElement (f : Field) (element : Coercion) (type : ValueType) (list index : Local) :
    Assembler GenerateError Unit := do
  Assembler.checkCast .extendableBuilder
  Assembler.getStatic (← Assembler.ofExcept (Signature.extensionId f))
  loadElement list index type.boxedKind
  extensionValue element type
  Assembler.invoke Signature.addExtension
  Assembler.checkCast (.builder f.container)

/-- Adds the elements of the list on top in order, with an index that counts up. -/
def addAll (f : Field) (element : Coercion) (extension : Bool) (type : ValueType) :
    Assembler GenerateError Unit :=
  Assembler.scope do
    let list ← Assembler.declareLocal (f.name ++ "__list") Signature.list
    Assembler.store list
    let size ← Assembler.declareLocal (f.name ++ "__size") .int
    Assembler.load list
    Assembler.invoke Signature.listSize
    Assembler.store size
    let index ← Assembler.declareLocal (f.name ++ "__index") .int
    Assembler.pushConst (.int 0)
    Assembler.store index
    Assembler.whileLoop
      (do
        Assembler.load index
        Assembler.load size)
      .intLt
      (do
        if extension then addExtensionElement f element type list index
        else
          loadElement list index type.boxedKind
          storeValue f element type
        Assembler.increment index 1)

def elementType : ValueType → ValueType
  | .list element => element
  | _ => .any

/-- Adds each element of a list argument in order; the literal `[]` adds none. -/
def setRepeated (resolver : ListResolver) (f : Field) (element : Coercion) (extension : Bool)
    (v : TypedValue) : Assembler GenerateError Unit :=
  if v.type = .emptyList then pure ()
  else
    unlessNull v do
      unboxTop Signature.list
      let wait ← Assembler.ofExcept (resolver.resolveList.mapError OfEmitError.ofEmitError)
      Assembler.append wait
      addAll f element extension (elementType v.type)

/-- Stores an argument. One of type null is left out. -/
def setArgument (schema : Schema) (resolver : ListResolver) (message : String)
    (argument : String × TypedValue) : Assembler GenerateError Unit := do
  let (name, v) := argument
  match schema.field? message name with
  | none => throw (.unknownField message name)
  | some f =>
      unless v.code.inputs.isEmpty do
        throw (.unsupported f.fullName "argument that takes stack inputs")
      unless v.type = .null do
        let shape ← Assembler.ofExcept (Shape.of schema f)
        unless shape.acceptsArgument v.type do
          throw (.argumentMismatch f.fullName shape.expectedArgument.render v.type.render)
        match shape with
        | .repeated element extension => setRepeated resolver f element extension v
        | .extension coercion _ => setExtension f coercion v
        | .singular coercion _ _ => setSingular f coercion v

end Construction

/-- Code that builds a message from fields and their values, whose code must not take inputs. -/
def generateConstruction (schema : Schema) (resolver : ListResolver) (message : String)
    (arguments : List (String × TypedValue)) : Except GenerateError TypedValue := do
  if (schema.message? message).isNone then throw (.unknownMessage message)
  TypedValue.assemble [] true (.message message) do
    if arguments.isEmpty then Assembler.invoke (Signature.defaultInstance message)
    else
      Assembler.invoke (Signature.newBuilder message)
      arguments.forM (Construction.setArgument schema resolver message)
      Assembler.invoke (Signature.build message)

end MessageCode
