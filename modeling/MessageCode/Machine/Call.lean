import MessageCode.Code.Op
import MessageCode.Machine.Fault
import MessageCode.Machine.Store
import MessageCode.Schema.Basic

/-!
Calls of native operations, with the checks that these share. An operation that faults leaves the
machine as it is at that point.
-/

namespace MessageCode

/-- A step of the machine that can fault. -/
abbrev Native (α : Type) := ExceptT Fault (StateM Machine) α

structure Call where
  method : Method
  receiver : Option Value
  args : List Value

namespace Call

def name (c : Call) : String := c.method.name

def describe (c : Call) : String := c.method.render

def castError (expected : String) (found : Object) : Fault :=
  .classCast expected found.typeName

def badOperand (c : Call) (expected : String) (found : Value) : Fault :=
  .badOperand c.describe expected found.typeName

def receiverValue (c : Call) : Except Fault Value :=
  match c.receiver with
  | some v => .ok v
  | none => .error (.nullPointer c.describe)

def receiverObject (c : Call) : Except Fault (ObjectId × Object) := do
  match ← c.receiverValue with
  | .ref id object => .ok (id, object)
  | v => .error (.classCast c.method.owner.render v.typeName)

def arg (c : Call) (index : Nat) : Except Fault Value :=
  match c.args[index]? with
  | some v => .ok v
  | none => .error (.stackUnderflow c.describe)

def objectArg (c : Call) (index : Nat) : Except Fault (ObjectId × Object) := do
  match ← c.arg index with
  | .ref id object => .ok (id, object)
  | .null => .error (.nullPointer c.describe)
  | v => .error (c.badOperand "object" v)

def textArg (c : Call) (index : Nat) : Except Fault String := do
  match ← c.objectArg index with
  | (_, .text s) => .ok s
  | (_, other) => .error (castError "Text" other)

def intArg (c : Call) (index : Nat) : Except Fault Int32 := do
  match ← c.arg index with
  | .int n => .ok n
  | v => .error (c.badOperand "int" v)

def bytesArg (c : Call) (index : Nat) : Except Fault (List UInt8) := do
  match ← c.objectArg index with
  | (_, .byteArray b) => .ok b
  | (_, .byteString b) => .ok b
  | (_, other) => .error (castError "byte[]" other)

def listArg (c : Call) (index : Nat) : Except Fault ObjectId := do
  match ← c.objectArg index with
  | (id, .list) => .ok id
  | (_, other) => .error (castError "List" other)

end Call

namespace Native

def ofExcept {α : Type} (e : Except Fault α) : Native α :=
  match e with
  | .ok a => pure a
  | .error fault => throw fault

def alloc (object : Object) : Native Value := (Machine.alloc object : StateM Machine Value)

def allocText (s : String) : Native Value := alloc (.text s)

def allocList (items : List Value) : Native Value :=
  (Machine.allocList items : StateM Machine Value)

/-- The identity of the shared empty instance of a message type. -/
def defaultId (schema : Schema) (typeName : String) : Native ObjectId := do
  match (← get).defaults.find? fun entry => entry.1 = typeName with
  | some (_, id) => return id
  | none =>
      if (schema.message? typeName).isNone then
        throw (.unknownMethod (typeName ++ ".default_instance"))
      let id ← (Machine.freshId : StateM Machine ObjectId)
      modify fun m => { m with defaults := (typeName, id) :: m.defaults }
      return id

def defaultInstance (schema : Schema) (typeName : String) : Native Value := do
  return .ref (← defaultId schema typeName) (.message (.empty typeName))

end Native

end MessageCode
