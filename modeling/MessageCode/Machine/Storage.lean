import MessageCode.Machine.Call
import MessageCode.Text.Base64

/-!
Between the stored form of a field and the values that operations take and give: what an unset field
reads as, what getters show, what setters accept, and the boxed view of a field.
-/

namespace MessageCode

namespace Storage

def default (schema : Schema) (f : Field) : Native Stored :=
  match f.kind with
  | .bool => return .bool (match f.default with
      | some (.bool b) => b
      | _ => false)
  | .int32 => return .int (match f.default with
      | some (.int n) => n.toInt32
      | _ => 0)
  | .int64 => return .long (match f.default with
      | some (.int n) => n
      | _ => 0)
  | .float => return .float (match f.default with
      | some (.float x) => x.narrow
      | _ => .zero .single false)
  | .double => return .double (match f.default with
      | some (.float x) => x
      | _ => .zero .double false)
  | .text => do
      let id ← (Machine.freshId : StateM Machine ObjectId)
      return .text id (match f.default with
        | some (.text s) => s
        | _ => "")
  | .bytes => do
      let id ← (Machine.freshId : StateM Machine ObjectId)
      return .bytes id (match f.default with
        | some (.text s) => s.toUTF8.toList
        | _ => [])
  | .enum name => return .int (match f.default with
      | some (.enum n) => n
      | _ =>
          if f.isModernEnum then 0
          else ((schema.enum? name).map (·.defaultNumber)).getD 0)
  | .message name => do
      return .message (← Native.defaultId schema name) (.empty name)

/-- The constant of an enum field, in place of its number. -/
def enumView (f : Field) (stored : Stored) : Native Value :=
  match f.kind, stored with
  | .enum name, .int n => Native.alloc (.enumConst name n)
  | _, _ => return stored.toValue

def getterView (f : Field) (stored : Stored) : Native Value :=
  if f.isModernEnum then return stored.toValue else enumView f stored

/-- What `get_extension` gives: primitives are wrapped. -/
def extensionView (f : Field) (stored : Stored) : Native Value :=
  match f.kind, stored with
  | .enum _, _ =>
      if f.isModernEnum then Native.alloc (.wrapper stored.toValue) else enumView f stored
  | _, .text .. => return stored.toValue
  | _, .bytes .. => return stored.toValue
  | _, .message .. => return stored.toValue
  | _, _ => Native.alloc (.wrapper stored.toValue)

/-- The stored form of a setter's operand, if it is one for the field. -/
def ofValue? (f : Field) : Value → Option Stored
  | .bool b => if f.kind = .bool then some (.bool b) else none
  | .int n => if f.kind = .int32 ∨ f.isModernEnum then some (.int n) else none
  | .long n => if f.kind = .int64 then some (.long n) else none
  | .float x => if f.kind = .float then some (.float x) else none
  | .double x => if f.kind = .double then some (.double x) else none
  | .ref id object =>
      match f.kind, object with
      | .enum name, .enumConst enum number => if enum = name then some (.int number) else none
      | .text, .text s => some (.text id s)
      | .bytes, .byteString b => some (.bytes id b)
      | .message name, .message data =>
          if data.typeName = name then some (.message id data) else none
      | _, _ => none
  | .null => none

def ofValue (c : Call) (f : Field) (v : Value) : Except Fault Stored :=
  if v.isNull then .error (.nullPointer c.describe)
  else
    match ofValue? f v with
    | some stored => .ok stored
    | none => .error (.classCast f.kind.render v.typeName)

def ofExtensionValue (c : Call) (f : Field) (v : Value) : Except Fault Stored :=
  match v with
  | .ref _ (.wrapper content) => ofValue c f content
  | _ => ofValue c f v

/-- What a field of a message gives through a view of its stored form. -/
def readThrough (view : Field → Stored → Native Value) (schema : Schema) (data : MessageData)
    (f : Field) : Native Value := do
  match data.content? f.number with
  | some (.single stored) => view f stored
  | some (.repeated items) => Native.allocList (← items.mapM (view f))
  | none =>
      if f.isRepeated then Native.allocList []
      else view f (← default schema f)

def wrappedText (data : MessageData) : String :=
  match data.content? 1 with
  | some (.single (.text _ s)) => s
  | _ => ""

def boxedView (f : Field) : Stored → Boxed
  | .bool b => .bool b
  | .int n => .int n.toInt64
  | .long n => if f.numericAsText ∧ f.kind = .int64 then .text (toString n.toInt) else .int n
  | .float x => .float x.widen
  | .double x => .float x
  | .text _ s => .text s
  | .bytes _ b => .text (Text.Base64.encode b)
  | .message id data =>
      match f.sanitizedKind? with
      | some kind => .sanitized kind (wrappedText data)
      | none => .proto (.ref id (.message data))

def allocBoxed (b : Boxed) : Native Value := Native.alloc (.boxed b)

/-- A field of a boxed message by name: a boxed list for a repeated field; a boxed value, or null
when the field is unset and has no default, for a singular one. -/
def boxedField (schema : Schema) (data : MessageData) (name : String) : Native Value := do
  match schema.field? data.typeName name with
  | none => throw (.unknownField (data.typeName ++ "." ++ name))
  | some f =>
      match data.content? f.number with
      | some (.repeated items) =>
          allocBoxed (.list (← items.mapM fun item => allocBoxed (boxedView f item)))
      | some (.single stored) => allocBoxed (boxedView f stored)
      | none =>
          if f.isRepeated then allocBoxed (.list [])
          else if f.default.isNone then return .null
          else allocBoxed (boxedView f (← default schema f))

end Storage

end MessageCode
