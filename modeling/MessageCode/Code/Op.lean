import MessageCode.Code.Type
import MessageCode.Numeric.Binary

/-!
Instructions. Control flow is structured: branches, loops and scopes nest lists of instructions, so
that code spliced into other code cannot jump out of itself.
-/

namespace MessageCode

/-- Whether an operation has a receiver below its arguments. -/
inductive CallKind where
  | onType
  | onInstance
  deriving DecidableEq

structure Method where
  owner : RefType
  name : String
  kind : CallKind
  /-- Deepest first. -/
  params : List NativeType
  /-- None for an operation without a result. -/
  returns : Option NativeType
  /-- The result is never null. -/
  nonNull : Bool
  deriving DecidableEq

namespace Method

def isStatic (m : Method) : Bool := m.kind = .onType

/-- The same operation with its result marked as never null. -/
def neverNull (m : Method) : Method := { m with nonNull := true }

def render (m : Method) : String :=
  m.owner.render ++ "." ++ m.name ++ "(" ++ NativeType.renderList m.params ++ ")"
    ++ match m.returns with
      | some result => " -> " ++ result.render
      | none => ""

end Method

/-- A static field; these hold extension identifiers. -/
structure StaticField where
  owner : RefType
  name : String
  type : NativeType
  deriving DecidableEq

def StaticField.render (f : StaticField) : String :=
  f.owner.render ++ "." ++ f.name ++ " : " ++ f.type.render

inductive Constant where
  | null
  | bool (b : Bool)
  | int (n : Int32)
  | long (n : Int64)
  | double (x : Numeric.Double)
  | text (s : String)
  deriving DecidableEq

def Constant.type : Constant → NativeType
  | .null => .null
  | .bool _ => .bool
  | .int _ => .int
  | .long _ => .long
  | .double _ => .double
  | .text _ => .text

structure Local where
  index : Nat
  type : NativeType
  deriving DecidableEq

/-- A local with the name that listings show. -/
structure Declaration where
  name : String
  slot : Local
  deriving DecidableEq

inductive Test where
  | isNull
  | nonNull
  | isTrue
  | isZero
  /-- Two equal ints. -/
  | intEq
  /-- Two ints of which the deeper is less. -/
  | intLt
  deriving DecidableEq

namespace Test

def operands : Test → List NativeType
  | .isNull | .nonNull => [.ref .object]
  | .isTrue => [.bool]
  | .isZero => [.int]
  | .intEq | .intLt => [.int, .int]

/-- The jump taken when it holds. -/
def mnemonic : Test → String
  | .isNull => "ifnull"
  | .nonNull => "ifnonnull"
  | .isTrue => "ifne"
  | .isZero => "ifeq"
  | .intEq => "if_icmpeq"
  | .intLt => "if_icmplt"

/-- The jump taken when it fails. -/
def inverseMnemonic : Test → String
  | .isNull => "ifnonnull"
  | .nonNull => "ifnull"
  | .isTrue => "ifeq"
  | .isZero => "ifne"
  | .intEq => "if_icmpne"
  | .intLt => "if_icmpge"

end Test

inductive Op where
  | push (constant : Constant)
  | dup
  | pop
  | swap
  | load (slot : Local)
  | store (slot : Local)
  | increment (slot : Local) (delta : Int32)
  | invoke (method : Method)
  /-- A call at which the scheduler may pause the caller. -/
  | suspend (method : Method)
  | getStatic (field : StaticField)
  | convert (source target : NativeType)
  | checkCast (type : RefType)
  /-- Wraps the primitive on top. -/
  | box (type : NativeType)
  /-- Both arms end with the same stack. -/
  | branch (test : Test) (thenOps elseOps : List Op)
  /-- The condition pushes the operands of the test, and the body leaves the stack as it was. -/
  | loop (condition : List Op) (test : Test) (body : List Op)
  /-- The locals are released at its end. -/
  | scope (locals : List Declaration) (body : List Op)

def Local.relocate (offset : Nat) (l : Local) : Local := { l with index := l.index + offset }

def Declaration.relocate (offset : Nat) (d : Declaration) : Declaration :=
  { d with slot := d.slot.relocate offset }

mutual

def Op.relocate (offset : Nat) : Op → Op
  | .load l => .load (l.relocate offset)
  | .store l => .store (l.relocate offset)
  | .increment l delta => .increment (l.relocate offset) delta
  | .branch test thenOps elseOps =>
      .branch test (Op.relocateAll offset thenOps) (Op.relocateAll offset elseOps)
  | .loop condition test body =>
      .loop (Op.relocateAll offset condition) test (Op.relocateAll offset body)
  | .scope locals body =>
      .scope (locals.map (Declaration.relocate offset)) (Op.relocateAll offset body)
  | op => op

def Op.relocateAll (offset : Nat) : List Op → List Op
  | [] => []
  | op :: rest => op.relocate offset :: Op.relocateAll offset rest

end

mutual

/-- The number of instructions, those inside regions included; a scope itself is none. -/
def Op.count : Op → Nat
  | .branch _ thenOps elseOps => 1 + Op.countAll thenOps + Op.countAll elseOps
  | .loop condition _ body => 1 + Op.countAll condition + Op.countAll body
  | .scope _ body => Op.countAll body
  | _ => 1

def Op.countAll : List Op → Nat
  | [] => 0
  | op :: rest => op.count + Op.countAll rest

end

mutual

def Op.any (p : Op → Bool) : Op → Bool
  | .branch test thenOps elseOps =>
      p (.branch test thenOps elseOps) || Op.anyOf p thenOps || Op.anyOf p elseOps
  | .loop condition test body =>
      p (.loop condition test body) || Op.anyOf p condition || Op.anyOf p body
  | .scope locals body => p (.scope locals body) || Op.anyOf p body
  | op => p op

def Op.anyOf (p : Op → Bool) : List Op → Bool
  | [] => false
  | op :: rest => op.any p || Op.anyOf p rest

end

end MessageCode
