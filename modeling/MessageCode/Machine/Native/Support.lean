import MessageCode.Machine.Show
import MessageCode.Machine.Storage
import MessageCode.Text.Numeral

/-!
The support library: wrappers, numbers, byte strings, the base64 codec and native lists.
-/

namespace MessageCode

namespace Native

def callWrapper (content : NativeType) (c : Call) : Native (Option Value) := do
  match content, c.name with
  | .long, "to_string" =>
      match ← ofExcept (c.arg 0) with
      | .long n => return some (← allocText (toString n.toInt))
      | v => throw (c.badOperand "long" v)
  | .long, "parse" =>
      let text ← ofExcept (c.textArg 0)
      match Text.int64? text with
      | some n => return some (.long n)
      | none => throw (.numberFormat text)
  | .bool, "boolean_value" =>
      let receiver ← ofExcept c.receiverValue
      match receiver.asBool? with
      | some b => return some (.bool b)
      | none => throw (c.badOperand "Wrapper<bool>" receiver)
  | _, _ => return none

def callNumber (c : Call) : Native (Option Value) := do
  let receiver ← ofExcept c.receiverValue
  match c.name with
  | "long_value" =>
      match receiver.asLong? with
      | some n => return some (.long n)
      | none => throw (c.badOperand "Number" receiver)
  | "double_value" =>
      match receiver.asDouble?, receiver.asLong? with
      | some x, _ => return some (.double x)
      | none, some n => return some (.double (.ofInt .double n.toInt))
      | none, none => throw (c.badOperand "Number" receiver)
  | _ => return none

def callObject (c : Call) : Native (Option Value) := do
  if c.name ≠ "to_string" then return none
  else
    match ← ofExcept c.receiverObject with
    | (_, .text s) => return some (← allocText s)
    | (_, .boxed (.text s)) => return some (← allocText s)
    | (id, other) => return some (← allocText (other.render (← get).store id))

def callByteString (c : Call) : Native (Option Value) := do
  match c.name with
  | "copy_from" => return some (← alloc (.byteString (← ofExcept (c.bytesArg 0))))
  | "to_byte_array" =>
      match ← ofExcept c.receiverObject with
      | (_, .byteString b) => return some (← alloc (.byteArray b))
      | (_, other) => throw (Call.castError "ByteString" other)
  | _ => return none

/-- A call of the codec. The fault for text that is not base64 names the text, and leaves out the reason
that the decoder, which is a library, gives after it. -/
def callCodec (c : Call) : Native (Option Value) := do
  match c.name with
  | "base64" => return some (← alloc .codec)
  | "encode" => return some (← allocText (Text.Base64.encode (← ofExcept (c.bytesArg 0))))
  | "decode" =>
      let text ← ofExcept (c.textArg 0)
      match Text.Base64.decode? text with
      | some b => return some (← alloc (.byteArray b))
      | none => throw (.illegalArgument ("bad base64 " ++ Text.quoted text))
  | _ => return none

/-- The length of a list as an int, the greatest one for a longer list. -/
def listSize (items : List Value) : Int32 :=
  Int32.ofInt (min (items.length : Int) Int32.maxValue.toInt)

def listItem (items : List Value) (index : Int32) : Except Fault Value :=
  match if index < 0 then none else items[index.toInt.toNat]? with
  | some v => .ok v
  | none =>
      .error (.illegalArgument ("index " ++ toString index.toInt ++ " out of bounds for length "
        ++ toString items.length))

def callList (c : Call) : Native (Option Value) := do
  match ← ofExcept c.receiverObject with
  | (id, .list) =>
      let items ← (Machine.listItems id : StateM Machine (List Value))
      match c.name with
      | "size" => return some (.int (listSize items))
      | "get" =>
          let index ← ofExcept (c.intArg 0)
          return some (← ofExcept (listItem items index))
      | "add" =>
          let v ← ofExcept (c.arg 0)
          Machine.setList id (items ++ [v])
          return some (.bool true)
      | _ => return none
  | (_, other) => throw (Call.castError "List" other)

/-- A provider's value, and any other value itself. -/
def resolved : Value → Value
  | .ref _ (.provider v) => v
  | v => v

def callRuntime (c : Call) : Native (Option Value) := do
  match c.name with
  | "new_list" => return some (← allocList [])
  | "provider" => return some (← alloc (.provider (← ofExcept (c.arg 0))))
  | "resolve_all" =>
      let id ← ofExcept (c.listArg 0)
      let items ← (Machine.listItems id : StateM Machine (List Value))
      return some (← allocList (items.map resolved))
  | _ => return none

end Native

end MessageCode
