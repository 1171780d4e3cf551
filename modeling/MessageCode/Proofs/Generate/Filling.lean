import MessageCode.Proofs.Generate.Coerce
import MessageCode.Proofs.Generate.Proper
import MessageCode.Proofs.Machine.Contents

/-!
What building a message comes to: the arguments one after the other, on the contents that the message
has so far. No stack and no locals play a part in it, and nothing but the arguments changes the contents.
Objects are made where the code makes them, so that the identities agree too.
-/

namespace MessageCode

/-- The setter of a declared field, or the identifier of an extension, leads back to the field. -/
def Field.SetsBack (s : Schema) (m : Message) (f : Field) : Prop :=
  match f.extensionScope with
  | none => m.builderMethod? (Naming.setter f) = some (if f.isRepeated then .add f else .set f)
  | some scope => s.extensionById? scope.owner f.name = some f

def TypedValue.evaluate (host : Host) (fuel : Nat) (v : TypedValue) : Run Value := do
  return (← v.code.runOn host fuel []).getD .null

theorem TypedValue.run_of_evaluate {s : Schema} {fuel : Nat} {v : TypedValue} {w : Value} {m m' : Machine}
    (run : (v.evaluate (.ofSchema s) fuel).run m = (.ok w, m')) (present : w ≠ .null) :
    (v.code.run s fuel []).run m = (.ok (some w), m') := by
  obtain ⟨result, m₁, run, given⟩ := Stateful.bind_eq_ok.mp run
  cases given
  cases result with
  | none => exact absurd rfl present
  | some w => exact run

/-- Only a value that is not marked, and that is not primitive, can be null. -/
def TypedValue.Truthful (host : Host) (fuel : Nat) (v : TypedValue) : Prop :=
  v.code.nonNull = true ∨ v.native.isPrimitive = true →
    ∀ m w m', (v.evaluate host fuel).run m = (.ok w, m') → w ≠ .null

namespace Filling

def method (f : Field) (c : Coercion) : Method :=
  if f.isExtension then if f.isRepeated then Signature.addExtension else Signature.setExtension
  else Signature.setter f c.storageType

def identify : Run Unit := do
  let _ ← (Machine.freshId : StateM Machine ObjectId)

def keep (id : ObjectId) (data : MessageData) : Run MessageData := do
  (Machine.setBuilder id data : StateM Machine Unit)
  return data

section

variable (host : Host)

/-- The stored form of a value of the field. An extension may be referred to after its operand is made. -/
def stored (f : Field) (c : Coercion) (type : ValueType) (t : NativeType) (late : Bool) (v : Value) :
    Run Stored := do
  let operand ← operandFrom host c type t v
  let call : Call := { method := method f c, receiver := none, args := [] }
  if f.isExtension then
    let wrapped ← wrapFrom (c.operandType type t) operand
    if late then identify
    Run.ofExcept (Storage.ofExtensionValue call f wrapped)
  else Run.ofExcept (Storage.ofValue call f operand)

/-- The items of a native list, all resolved in a single suspending call, as a list of its own. -/
def waitFor (list : Value) : Run (List Value) := do
  let call : Call := { method := Signature.resolveAll, receiver := none, args := [list] }
  modify fun m => { m with suspensions := m.suspensions + 1 }
  let items ← (Machine.listItems (← Run.ofExcept (call.listArg 0)) : StateM Machine (List Value))
  let _ ← (Machine.allocList (items.map Native.resolved) : StateM Machine Value)
  return items.map Native.resolved

def element (kind : BoxedKind) (item : Value) : Run Value := do
  let provider ← Turns.castTo .provider item
  castFrom (.boxed .any) (.boxed kind) (← Signature.resolve.act host [provider])

def addElement (m : Message) (f : Field) (c : Coercion) (type : ValueType) (id : ObjectId)
    (data : MessageData) (item : Value) : Run MessageData := do
  if f.isExtension then identify
  let v ← element host type.boxedKind item
  keep id (m.adding f (← stored host f c type (.boxed type.boxedKind) false v) data)

def reached (items : List Value) : List Value := items.take Int32.maxValue.toInt.toNat

def addList (m : Message) (f : Field) (c : Coercion) (v : TypedValue) (id : ObjectId)
    (data : MessageData) (list : Value) : Run MessageData := do
  let items ← waitFor (← unboxFrom host v.native Signature.list list)
  (reached items).foldlM (addElement host m f c (Construction.elementType v.type) id) data

def setValue (m : Message) (f : Field) (c : Coercion) (v : TypedValue) (id : ObjectId)
    (data : MessageData) (w : Value) : Run MessageData := do
  keep id (m.adding f (← stored host f c v.type v.native (Construction.needsNullTest v) w) data)

/-- The contents after a value is stored. A null value changes nothing. -/
def unlessNull (fuel : Nat) (v : TypedValue) (store : ObjectId → MessageData → Value → Run MessageData)
    (id : ObjectId) (data : MessageData) : Run MessageData := do
  let w ← v.evaluate host fuel
  if w.isNull then return data else store id data w

/-- The contents after an argument. One of type null, or the literal `[]` for a repeated field, is not
evaluated. -/
def fill (fuel : Nat) (m : Message) (f : Field) (c : Coercion) (v : TypedValue) (id : ObjectId)
    (data : MessageData) : Run MessageData := do
  if v.type = .null ∨ f.isRepeated ∧ v.type = .emptyList then return data
  else if f.isRepeated then unlessNull host fuel v (addList host m f c v) id data
  else
    if f.isExtension && !Construction.needsNullTest v then identify
    unlessNull host fuel v (setValue host m f c v) id data

end

def argument (s : Schema) (fuel : Nat) (m : Message) (id : ObjectId) (data : MessageData)
    (a : String × TypedValue) : Run MessageData :=
  match s.field? m.fullName a.1 with
  | none => pure data
  | some f =>
      match Coercion.of s f with
      | .error _ => pure data
      | .ok c => fill (.ofSchema s) fuel m f c a.2 id data

/-- A message from arguments: the shared default instance without any, and else an empty message that
is filled by one argument after the other. -/
def message (s : Schema) (fuel : Nat) (m : Message) (arguments : List (String × TypedValue)) :
    Run Value := do
  if arguments.isEmpty then Run.ofNative (Native.defaultInstance s m.fullName)
  else
    let id ← (Machine.freshId : StateM Machine ObjectId)
    let empty ← keep id (.empty m.fullName)
    let data ← arguments.foldlM (argument s fuel m id) empty
    (Machine.alloc (.message data) : StateM Machine Value)

end Filling

end MessageCode
