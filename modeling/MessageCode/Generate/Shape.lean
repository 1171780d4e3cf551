import MessageCode.Generate.Coercion

/-!
Shapes: how a field is read and written, as both generators need to know it.
-/

namespace MessageCode

/-- Whether reading a field first tests that it is set. -/
inductive PresencePolicy where
  /-- It has an explicit default, or it is a modern field of no message type. -/
  | noCheck
  /-- A legacy field without a default. -/
  | alwaysCheck
  /-- A modern field of a message type. -/
  | checkIfMessage
  deriving DecidableEq

namespace PresencePolicy

def of (f : Field) : PresencePolicy :=
  if f.hasDefault then .noCheck
  else
    match f.revision, f.kind with
    | .legacy, _ => .alwaysCheck
    | .modern, .message _ => .checkIfMessage
    | .modern, _ => .noCheck

def checks (p : PresencePolicy) : Bool := p ≠ .noCheck

end PresencePolicy

/-- How the presence of a singular field is tested. -/
inductive PresenceTest where
  | hasser
  /-- By the number that the discriminant of its oneof gives. -/
  | oneofCase (oneof : String) (number : Int32)
  deriving DecidableEq

inductive Shape where
  | repeated (element : Coercion) (extension : Bool)
  | extension (coercion : Coercion) (presence : PresencePolicy)
  | singular (coercion : Coercion) (presence : PresencePolicy) (test : PresenceTest)
  deriving DecidableEq

namespace Shape

def of (schema : Schema) (f : Field) : Except GenerateError Shape := do
  let coercion ← Coercion.of schema f
  if f.isRepeated then return .repeated coercion f.isExtension
  else if f.isExtension then
    return .extension coercion (if f.hasDefault then .noCheck else .alwaysCheck)
  else
    let test := match f.oneof with
      | some oneof => .oneofCase oneof f.number
      | none => .hasser
    return .singular coercion (PresencePolicy.of f) test

def coercion : Shape → Coercion
  | .repeated element _ => element
  | .extension coercion _ => coercion
  | .singular coercion _ _ => coercion

end Shape

end MessageCode
