import MessageCode.Code.Sequence
import MessageCode.Json.Basic

/-!
The JSON form of instruction sequences, written and read. Alternatives are words or objects with
one member; records are objects with their fields in order. Reading also takes the fields of a
record by position, but not those of a conversion or an increment. A real constant that is not
finite has no JSON form of its own and is written as null.
-/

namespace MessageCode

namespace BoxedKind

def toWord : BoxedKind → String
  | .any => "any"
  | .bool => "bool"
  | .int => "int"
  | .float => "float"
  | .text => "text"
  | .proto => "proto"
  | .list => "list"
  | .sanitized => "sanitized"

def ofWord? : String → Option BoxedKind
  | "any" => some .any
  | "bool" => some .bool
  | "int" => some .int
  | "float" => some .float
  | "text" => some .text
  | "proto" => some .proto
  | "list" => some .list
  | "sanitized" => some .sanitized
  | _ => none

end BoxedKind

mutual

def RefType.toJson : RefType → Json
  | .object => .text "object"
  | .null => .text "null"
  | .text => .text "text"
  | .byteString => .text "byte_string"
  | .byteArray => .text "byte_array"
  | .codec => .text "codec"
  | .list => .text "list"
  | .provider => .text "provider"
  | .boxed kind => .tagged "boxed" (.text kind.toWord)
  | .number => .text "number"
  | .wrapper content => .tagged "wrapper" content.toJson
  | .message name => .tagged "message" (.text name)
  | .builder message => .tagged "builder" (.text message)
  | .enum name => .tagged "enum" (.text name)
  | .oneofCase key => .tagged "oneof_case" (.text key)
  | .extendableMessage => .text "extendable_message"
  | .extendableBuilder => .text "extendable_builder"
  | .extension => .text "extension"
  | .extensionHolder name => .tagged "extension_holder" (.text name)
  | .runtime => .text "runtime"

def NativeType.toJson : NativeType → Json
  | .bool => .text "bool"
  | .int => .text "int"
  | .long => .text "long"
  | .float => .text "float"
  | .double => .text "double"
  | .ref r => .tagged "ref" r.toJson

end

def RefType.ofWord? : String → Option RefType
  | "object" => some .object
  | "null" => some .null
  | "text" => some .text
  | "byte_string" => some .byteString
  | "byte_array" => some .byteArray
  | "codec" => some .codec
  | "list" => some .list
  | "provider" => some .provider
  | "number" => some .number
  | "extendable_message" => some .extendableMessage
  | "extendable_builder" => some .extendableBuilder
  | "extension" => some .extension
  | "runtime" => some .runtime
  | _ => none

def RefType.ofName? (tag name : String) : Option RefType :=
  match tag with
  | "message" => some (.message name)
  | "builder" => some (.builder name)
  | "enum" => some (.enum name)
  | "oneof_case" => some (.oneofCase name)
  | "extension_holder" => some (.extensionHolder name)
  | _ => none

def NativeType.ofWord? : String → Option NativeType
  | "bool" => some .bool
  | "int" => some .int
  | "long" => some .long
  | "float" => some .float
  | "double" => some .double
  | _ => none

mutual

def RefType.ofJson? : Json → Option RefType
  | .text word => RefType.ofWord? word
  | .object [(tag, value)] =>
      if tag = "boxed" then do
        let word ← value.word?
        return .boxed (← BoxedKind.ofWord? word)
      else if tag = "wrapper" then (NativeType.ofJson? value).map .wrapper
      else
        match value with
        | .null => RefType.ofWord? tag
        | .text name => RefType.ofName? tag name
        | _ => none
  | _ => none

def NativeType.ofJson? : Json → Option NativeType
  | .text word => NativeType.ofWord? word
  | .object [(tag, value)] =>
      if tag = "ref" then (RefType.ofJson? value).map .ref
      else
        match value with
        | .null => NativeType.ofWord? tag
        | _ => none
  | _ => none

end

def CallKind.toWord : CallKind → String
  | .onType => "static"
  | .onInstance => "instance"

def CallKind.ofWord? : String → Option CallKind
  | "static" => some .onType
  | "instance" => some .onInstance
  | _ => none

namespace Method

def toJson (m : Method) : Json :=
  .object
    [("owner", m.owner.toJson), ("name", .text m.name), ("kind", .text m.kind.toWord),
      ("params", .ofList NativeType.toJson m.params),
      ("returns", .ofOption NativeType.toJson m.returns), ("non_null", .bool m.nonNull)]

def ofJson? (j : Json) : Option Method :=
  match j.fields? ["owner", "name", "kind", "params", "returns", "non_null"] with
  | some [owner, name, kind, params, returns, nonNull] => do
      let owner ← Json.required? RefType.ofJson? owner
      let name ← Json.required? Json.text? name
      let kind ← Json.required? Json.word? kind
      let kind ← CallKind.ofWord? kind
      let params ← Json.required? (Json.list? NativeType.ofJson?) params
      let returns ← Json.optional? NativeType.ofJson? returns
      let nonNull ← Json.required? Json.bool? nonNull
      return { owner, name, kind, params, returns, nonNull }
  | _ => none

end Method

namespace StaticField

def toJson (f : StaticField) : Json :=
  .object [("owner", f.owner.toJson), ("name", .text f.name), ("ty", f.type.toJson)]

def ofJson? (j : Json) : Option StaticField :=
  match j.fields? ["owner", "name", "ty"] with
  | some [owner, name, type] => do
      let owner ← Json.required? RefType.ofJson? owner
      let name ← Json.required? Json.text? name
      let type ← Json.required? NativeType.ofJson? type
      return { owner, name, type }
  | _ => none

end StaticField

/-- A number of locals or of one of them; it has sixteen bits. -/
def Json.localIndex? (j : Json) : Option Nat := do
  let n ← j.integer?
  if 0 ≤ n ∧ n < UInt16.size then some n.toNat else none

namespace Constant

def toJson : Constant → Json
  | .null => .text "null"
  | .bool b => .tagged "bool" (.bool b)
  | .int n => .tagged "int" (.integer n.toInt)
  | .long n => .tagged "long" (.integer n.toInt)
  | .double x => .tagged "double" (if x.isFinite then .real x else .null)
  | .text s => .tagged "text" (.text s)

def ofJson? : Json → Option Constant
  | .text "null" => some .null
  | .object [(tag, value)] =>
      match tag with
      | "null" => match value with
          | .null => some .null
          | _ => none
      | "bool" => value.bool?.map .bool
      | "int" => value.int32?.map .int
      | "long" => value.int64?.map .long
      | "double" => value.real?.map .double
      | "text" => value.text?.map .text
      | _ => none
  | _ => none

end Constant

namespace Local

def toJson (l : Local) : Json := .object [("index", .integer l.index), ("ty", l.type.toJson)]

def ofJson? (j : Json) : Option Local :=
  match j.fields? ["index", "ty"] with
  | some [index, type] => do
      let index ← Json.required? Json.localIndex? index
      let type ← Json.required? NativeType.ofJson? type
      return { index, type }
  | _ => none

end Local

namespace Declaration

def toJson (d : Declaration) : Json := .object [("name", .text d.name), ("local", d.slot.toJson)]

def ofJson? (j : Json) : Option Declaration :=
  match j.fields? ["name", "local"] with
  | some [name, slot] => do
      let name ← Json.required? Json.text? name
      let slot ← Json.required? Local.ofJson? slot
      return { name, slot }
  | _ => none

end Declaration

namespace Test

def toWord : Test → String
  | .isNull => "is_null"
  | .nonNull => "non_null"
  | .isTrue => "is_true"
  | .isZero => "is_zero"
  | .intEq => "int_eq"
  | .intLt => "int_lt"

def ofWord? : String → Option Test
  | "is_null" => some .isNull
  | "non_null" => some .nonNull
  | "is_true" => some .isTrue
  | "is_zero" => some .isZero
  | "int_eq" => some .intEq
  | "int_lt" => some .intLt
  | _ => none

def ofJson? (j : Json) : Option Test := do
  let word ← j.word?
  ofWord? word

end Test

mutual

def Op.toJson : Op → Json
  | .push c => .tagged "push" c.toJson
  | .dup => .text "dup"
  | .pop => .text "pop"
  | .swap => .text "swap"
  | .load l => .tagged "load" l.toJson
  | .store l => .tagged "store" l.toJson
  | .increment l delta =>
      .tagged "increment" (.object [("local", l.toJson), ("delta", .integer delta.toInt)])
  | .invoke m => .tagged "invoke" m.toJson
  | .suspend m => .tagged "suspend" m.toJson
  | .getStatic f => .tagged "get_static" f.toJson
  | .convert source target =>
      .tagged "convert" (.object [("from", source.toJson), ("to", target.toJson)])
  | .checkCast type => .tagged "check_cast" type.toJson
  | .box type => .tagged "box" type.toJson
  | .branch test thenOps elseOps =>
      .tagged "branch" (.object
        [("test", .text test.toWord), ("then_ops", .array (Op.toJsonAll thenOps)),
          ("else_ops", .array (Op.toJsonAll elseOps))])
  | .loop condition test body =>
      .tagged "loop" (.object
        [("condition", .array (Op.toJsonAll condition)), ("test", .text test.toWord),
          ("body", .array (Op.toJsonAll body))])
  | .scope locals body =>
      .tagged "scope" (.object
        [("locals", .ofList Declaration.toJson locals), ("body", .array (Op.toJsonAll body))])

def Op.toJsonAll : List Op → List Json
  | [] => []
  | op :: rest => op.toJson :: Op.toJsonAll rest

end

def Op.ofWord? : String → Option Op
  | "dup" => some .dup
  | "pop" => some .pop
  | "swap" => some .swap
  | _ => none

/-- An instruction without regions, from its tag and content. -/
def Op.ofSimple? (tag : String) (value : Json) : Option Op :=
  match tag with
  | "push" => (Constant.ofJson? value).map .push
  | "load" => (Local.ofJson? value).map .load
  | "store" => (Local.ofJson? value).map .store
  | "increment" =>
      match value.keyed? ["local", "delta"] with
      | some [slot, delta] => do
          let slot ← Json.required? Local.ofJson? slot
          let delta ← Json.required? Json.int32? delta
          return .increment slot delta
      | _ => none
  | "invoke" => (Method.ofJson? value).map .invoke
  | "suspend" => (Method.ofJson? value).map .suspend
  | "get_static" => (StaticField.ofJson? value).map .getStatic
  | "convert" =>
      match value.keyed? ["from", "to"] with
      | some [source, target] => do
          let source ← Json.required? NativeType.ofJson? source
          let target ← Json.required? NativeType.ofJson? target
          return .convert source target
      | _ => none
  | "check_cast" => (RefType.ofJson? value).map .checkCast
  | "box" => (NativeType.ofJson? value).map .box
  | _ =>
      match value with
      | .null => Op.ofWord? tag
      | _ => none

/-- An instruction from its JSON form; the fuel bounds the nesting of regions. -/
def Op.ofJsonWithin? : Nat → Json → Option Op
  | 0, _ => none
  | fuel + 1, j => do
      let region := Json.required? (Json.list? (Op.ofJsonWithin? fuel))
      match j with
      | .text word => Op.ofWord? word
      | .object [("branch", value)] =>
          match value.fields? ["test", "then_ops", "else_ops"] with
          | some [test, thenOps, elseOps] =>
              let test ← Json.required? Test.ofJson? test
              return .branch test (← region thenOps) (← region elseOps)
          | _ => none
      | .object [("loop", value)] =>
          match value.fields? ["condition", "test", "body"] with
          | some [condition, test, body] =>
              let condition ← region condition
              let test ← Json.required? Test.ofJson? test
              return .loop condition test (← region body)
          | _ => none
      | .object [("scope", value)] =>
          match value.fields? ["locals", "body"] with
          | some [locals, body] =>
              let locals ← Json.required? (Json.list? Declaration.ofJson?) locals
              return .scope locals (← region body)
          | _ => none
      | .object [(tag, value)] => Op.ofSimple? tag value
      | _ => none

mutual

def Json.height : Json → Nat
  | .array items => Json.heightOfItems items + 1
  | .object members => Json.heightOfMembers members + 1
  | _ => 1

def Json.heightOfItems : List Json → Nat
  | [] => 0
  | j :: rest => max j.height (Json.heightOfItems rest)

def Json.heightOfMembers : List (String × Json) → Nat
  | [] => 0
  | (_, j) :: rest => max j.height (Json.heightOfMembers rest)

end

def Op.ofJson? (j : Json) : Option Op := Op.ofJsonWithin? j.height j

namespace Sequence

def toJson (s : Sequence) : Json :=
  .object
    [("ops", .array (Op.toJsonAll s.ops)), ("inputs", .ofList NativeType.toJson s.inputs),
      ("output", .ofOption NativeType.toJson s.output), ("non_null", .bool s.nonNull),
      ("max_locals", .integer s.maxLocals)]

def ofJson? (j : Json) : Option Sequence :=
  match j.fields? ["ops", "inputs", "output", "non_null", "max_locals"] with
  | some [ops, inputs, output, nonNull, maxLocals] => do
      let ops ← Json.required? (Json.list? Op.ofJson?) ops
      let inputs ← Json.required? (Json.list? NativeType.ofJson?) inputs
      let output ← Json.optional? NativeType.ofJson? output
      let nonNull ← Json.required? Json.bool? nonNull
      let maxLocals ← Json.required? Json.localIndex? maxLocals
      return { ops, inputs, output, nonNull, maxLocals }
  | _ => none

end Sequence

end MessageCode
