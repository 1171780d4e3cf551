import MessageCode.Generate.Construction
import MessageCode.Text.Blank
import MessageCode.Text.Numeral
import MessageCode.Text.Quoted

/-!
Arguments of the form `field=literal`. A literal is read as the logical type of its field; `null`
stands for every field, and a repeated field takes items between brackets with commas.
-/

namespace MessageCode

inductive LiteralError where
  /-- No equals sign, or no field in front of it. -/
  | malformed (argument : String)
  | unknownField (message field : String)
  | invalid (literal : String) (type : ValueType)
  | unsupported (type : ValueType)
  | generate (e : GenerateError)
  deriving DecidableEq

def LiteralError.message : LiteralError → String
  | .malformed argument => "expected FIELD=LITERAL, found " ++ Text.quoted argument
  | .unknownField message field => message ++ " has no field " ++ field
  | .invalid literal type => "cannot read " ++ Text.quoted literal ++ " as " ++ type.render
  | .unsupported type => type.render ++ " literals are not supported; leave the field unset"
  | .generate e => e.message

namespace Literal

/-- Splits an argument at its first equals sign; blanks around the two parts are dropped. -/
def split (argument : String) : Except LiteralError (String × String) :=
  let chars := argument.toList
  let field := Text.trim (chars.takeWhile (· ≠ '='))
  match chars.dropWhile (· ≠ '=') with
  | _ :: rest =>
      if field.isEmpty then .error (.malformed argument)
      else .ok (String.ofList field, String.ofList (Text.trim rest))
  | [] => .error (.malformed argument)

/-- What stands between two characters, if they enclose the text. -/
def between? (opening closing : Char) : List Char → Option (List Char)
  | c :: rest =>
      if c = opening ∧ rest.getLast? = some closing then some rest.dropLast else none
  | [] => none

def unquote (literal : List Char) : List Char := (between? '"' '"' literal).getD literal

/-- The items between commas; there is always one. -/
def items : List Char → List (List Char)
  | [] => [[]]
  | c :: rest =>
      if c = ',' then [] :: items rest
      else
        match items rest with
        | item :: more => (c :: item) :: more
        | [] => [[c]]

def parseScalar (type : ValueType) (literal : List Char) : Except LiteralError TypedValue :=
  let text := String.ofList literal
  let read {α : Type} (value : Option α) (ofValue : α → TypedValue) :
      Except LiteralError TypedValue :=
    match value with
    | some a => .ok (ofValue a)
    | none => .error (.invalid text type)
  match type with
  | .bool => read (Text.bool? text) TypedValue.ofBool
  | .int => read (Text.int64? text) TypedValue.ofLong
  | .float => read (Text.double? text) TypedValue.ofDouble
  | .text => .ok (TypedValue.ofText (String.ofList (unquote literal)))
  | .sanitized kind =>
      (TypedValue.ofSanitized kind (String.ofList (unquote literal))).mapError .generate
  | other => .error (.unsupported other)

/-- A list literal; the brackets may be left out. -/
def parseList (element : ValueType) (literal : List Char) : Except LiteralError TypedValue := do
  let inner := Text.trim ((between? '[' ']' literal).getD literal)
  if inner.isEmpty then TypedValue.emptyList.mapError .generate
  else
    let values ← (items inner).mapM fun item => parseScalar element (Text.trim item)
    (TypedValue.listOf element values).mapError .generate

def parse (schema : Schema) (message field literal : String) :
    Except LiteralError TypedValue := do
  match schema.field? message field with
  | none => .error (.unknownField message field)
  | some f =>
      if literal = "null" then return TypedValue.null
      let shape ← (Shape.of schema f).mapError .generate
      let element := shape.coercion.logicalType
      match shape with
      | .repeated .. => parseList element literal.toList
      | _ => parseScalar element literal.toList

end Literal

end MessageCode
