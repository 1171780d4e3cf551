import MessageCode.Machine.Storage

/-!
The operations of boxed values and of providers: boxing, unboxing, fields by name, and the way from
sanitized content to its wrapper message.
-/

namespace MessageCode

namespace Native

open Storage

def forValue (kind : BoxedKind) (c : Call) : Native Value := do
  let arg ← ofExcept (c.arg 0)
  match kind, arg with
  | .bool, .bool b => allocBoxed (.bool b)
  | .int, .long n => allocBoxed (.int n)
  | .float, .double x => allocBoxed (.float x)
  | _, .null => throw (.nullPointer c.describe)
  | .text, _ => allocBoxed (.text (← ofExcept (c.textArg 0)))
  | .proto, _ =>
      match ← ofExcept (c.objectArg 0) with
      | (_, .message _) => allocBoxed (.proto arg)
      | (_, other) => throw (Call.castError "Message" other)
  | .list, _ =>
      let id ← ofExcept (c.listArg 0)
      allocBoxed (.list (← (Machine.listItems id : StateM Machine (List Value))))
  | _, _ => throw (c.badOperand kind.render arg)

def ordain (c : Call) : Native Value := do
  let content ← ofExcept (c.textArg 0)
  let ordinal ← ofExcept (c.intArg 1)
  match SanitizedKind.ofOrdinal? ordinal with
  | some kind => allocBoxed (.sanitized kind content)
  | none =>
      throw (.illegalArgument ("no sanitized kind with ordinal " ++ toString ordinal.toInt))

/-- The wrapper message of sanitized content, through the conversion of its own kind only. -/
def toSafeProto (schema : Schema) (c : Call) (receiver : Object) (b : Boxed) :
    Native (Option Value) := do
  match b with
  | .sanitized kind content =>
      match SanitizedKind.all.find? fun k => k.toProtoMethod = c.name with
      | none => return none
      | some target =>
          if target ≠ kind then
            throw (.illegalArgument
              (kind.render ++ " content cannot become " ++ target.messageName))
          if (schema.message? target.messageName).isNone then
            throw (.unknownMethod c.describe)
          let id ← (Machine.freshId : StateM Machine ObjectId)
          let data := (Record.empty target.messageName).set 1 target.wrappedField
            (.single (.text id content))
          return some (← alloc (.message data))
  | _ => throw (Call.castError "SanitizedContent" receiver)

/-- An accessor of a boxed value; a value of another kind faults. -/
def unboxed (c : Call) (receiver : Object) (b : Boxed) (schema : Schema) :
    Native (Option Value) := do
  let mismatch := Call.castError c.name receiver
  match c.name with
  | "boolean_value" =>
      match b with
      | .bool b => return some (.bool b)
      | _ => throw mismatch
  | "long_value" =>
      match b with
      | .int n => return some (.long n)
      | _ => throw mismatch
  | "float_value" =>
      match b with
      | .float x => return some (.double x)
      | .int n => return some (.double (.ofInt .double n.toInt))
      | _ => throw mismatch
  | "string_value" =>
      match b with
      | .text s => return some (← allocText s)
      | .sanitized _ s => return some (← allocText s)
      | _ => throw mismatch
  | "get_proto" =>
      match b with
      | .proto v => return some v
      | _ => throw mismatch
  | "get_field" =>
      let name ← ofExcept (c.textArg 0)
      match b with
      | .proto v =>
          match v.asMessage? with
          | some data => return some (← boxedField schema data name)
          | none => throw mismatch
      | _ => throw mismatch
  | "as_list" =>
      match b with
      | .list items => return some (← allocList items)
      | _ => throw mismatch
  | _ => toSafeProto schema c receiver b

def callBoxed (schema : Schema) (kind : BoxedKind) (c : Call) : Native (Option Value) := do
  if c.method.isStatic then
    if c.name = "for_value" then return some (← forValue kind c)
    else if c.name = "ordain" ∧ kind = .sanitized then return some (← ordain c)
    else return none
  else
    match ← ofExcept c.receiverObject with
    | (_, .boxed b) => unboxed c (.boxed b) b schema
    | (_, other) => throw (Call.castError kind.render other)

/-- A deferred value; boxed values resolve to themselves. -/
def callProvider (c : Call) : Native (Option Value) := do
  if c.name ≠ "resolve" then return none
  else
    match ← ofExcept c.receiverObject with
    | (_, .provider v) => return some v
    | (id, .boxed b) => return some (.ref id (.boxed b))
    | (_, other) => throw (Call.castError "Provider" other)

end Native

end MessageCode
