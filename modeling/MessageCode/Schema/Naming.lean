import MessageCode.Schema.Descriptor

/-!
Names of the operations of messages and builders. Generators write calls by these names and the
machine resolves them back to fields, so both directions are here.
-/

namespace MessageCode

namespace Naming

def newBuilder : String := "new_builder"

def defaultInstance : String := "default_instance"

def build : String := "build"

/-- Operations on modern enums deal in numbers and say so. -/
def valueEnding (f : Field) : String := if f.isModernEnum then "_value" else ""

def getter (f : Field) : String := "get_" ++ f.name ++ valueEnding f

def hasser (f : Field) : String := "has_" ++ f.name

def caseGetter (oneof : String) : String := "get_" ++ oneof ++ "_case"

/-- Singular fields are set, repeated ones are added to. -/
def setter (f : Field) : String :=
  (if f.isRepeated then "add" else "set") ++ "_" ++ f.name ++ valueEnding f

end Naming

inductive MessageMethod where
  | get (f : Field)
  | has (f : Field)
  | case (oneof : String)
  deriving DecidableEq

inductive BuilderMethod where
  | set (f : Field)
  | add (f : Field)
  | build
  deriving DecidableEq

namespace Message

/-- The operation that a name stands for; discriminants come before fields. -/
def method? (m : Message) (name : String) : Option MessageMethod :=
  match m.oneofs.find? fun oneof => Naming.caseGetter oneof = name with
  | some oneof => some (.case oneof)
  | none =>
      m.fields.findSome? fun f =>
        if Naming.getter f = name then some (.get f)
        else if Naming.hasser f = name then some (.has f)
        else none

def builderMethod? (m : Message) (name : String) : Option BuilderMethod :=
  if name = Naming.build then some .build
  else
    (m.fields.find? fun f => Naming.setter f = name).map fun f =>
      if f.isRepeated then .add f else .set f

end Message

end MessageCode
