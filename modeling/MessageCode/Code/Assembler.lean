import MessageCode.Code.Sequence

/-!
The assembler. It records instructions while it tracks the types on the operand stack, so that
malformed code is refused when it is written. A refused call emits nothing, but the operands it
took before the refusal stay taken.
-/

namespace MessageCode

/-- A piece of code that has to leave the stack as it was. -/
inductive NeutralPart where
  | loopCondition
  | loopBody
  | statement
  deriving DecidableEq

def NeutralPart.render : NeutralPart → String
  | .loopCondition => "loop condition"
  | .loopBody => "loop body"
  | .statement => "statement"

/-- Why the assembler refuses a call. Stacks are given deepest first. -/
inductive EmitError where
  | stackUnderflow (op : String)
  | typeMismatch (op : String) (expected found : NativeType)
  | notPrimitive (op : String) (found : NativeType)
  | branchMismatch (thenStack elseStack : List NativeType)
  | notNeutral (part : NeutralPart) (expected found : List NativeType)
  | notAnExpression (found : List NativeType)
  deriving DecidableEq

def EmitError.message : EmitError → String
  | .stackUnderflow op => "stack underflow in " ++ op
  | .typeMismatch op expected found =>
      "type mismatch in " ++ op ++ ": expected " ++ expected.render ++ ", found " ++ found.render
  | .notPrimitive op found => op ++ " requires a primitive, found " ++ found.render
  | .branchMismatch thenStack elseStack =>
      "branch arms disagree: then leaves [" ++ NativeType.renderList thenStack
        ++ "], else leaves [" ++ NativeType.renderList elseStack ++ "]"
  | .notNeutral part expected found =>
      part.render ++ " must leave the stack unchanged: expected ["
        ++ NativeType.renderList expected ++ "], found [" ++ NativeType.renderList found ++ "]"
  | .notAnExpression found =>
      "sequence must leave exactly one value, found [" ++ NativeType.renderList found ++ "]"

/-- The code written so far, for a sequence or for one region of it. -/
structure Assembly where
  ops : List Op
  /-- Deepest first. -/
  inputs : List NativeType
  /-- The top of the stack first. -/
  stack : List NativeType
  nextLocal : Nat
  maxLocals : Nat
  declared : List Declaration

namespace Assembly

def start (inputs : List NativeType) : Assembly :=
  { ops := []
    inputs
    stack := inputs.reverse
    nextLocal := 0
    maxLocals := 0
    declared := [] }

def slots (a : Assembly) : List NativeType := a.stack.reverse

def fork (a : Assembly) : Assembly :=
  { ops := []
    inputs := []
    stack := a.stack
    nextLocal := a.nextLocal
    maxLocals := a.nextLocal
    declared := [] }

def emit (op : Op) (a : Assembly) : Assembly := { a with ops := a.ops ++ [op] }

def push (type : NativeType) (a : Assembly) : Assembly := { a with stack := type :: a.stack }

def declare (d : Declaration) (a : Assembly) : Assembly :=
  { a with
    nextLocal := a.nextLocal + 1
    maxLocals := max a.maxLocals (a.nextLocal + 1)
    declared := a.declared ++ [d] }

/-- Takes over the locals that a region declared outside its inner scopes; they stay in use until
the enclosing scope ends. -/
def adopt (a region : Assembly) : Assembly :=
  { a with
    nextLocal := max a.nextLocal region.nextLocal
    maxLocals := max a.maxLocals region.maxLocals
    declared := a.declared ++ region.declared }

end Assembly

/-- An error type in which refusals of the assembler can be reported. -/
class OfEmitError (ε : Type) where
  ofEmitError : EmitError → ε

instance : OfEmitError EmitError := ⟨id⟩

/-- Code-writing steps. What a failed step did to the assembly before it failed remains. -/
abbrev Assembler (ε : Type) (α : Type) := ExceptT ε (StateM Assembly) α

namespace Assembler

variable {ε : Type} [OfEmitError ε]

def refuse {α : Type} (e : EmitError) : Assembler ε α := throw (OfEmitError.ofEmitError e)

def ofExcept {ε α : Type} (result : Except ε α) : Assembler ε α :=
  match result with
  | .ok a => pure a
  | .error e => throw e

def top : Assembler ε NativeType := do
  match (← get).stack with
  | type :: _ => return type
  | [] => refuse (.stackUnderflow "top")

def popType (op : String) : Assembler ε NativeType := do
  let a ← get
  match a.stack with
  | type :: rest =>
      set { a with stack := rest }
      return type
  | [] => refuse (.stackUnderflow op)

def popExpect (expected : NativeType) (op : String) : Assembler ε NativeType := do
  let found ← popType op
  if found.assignableTo expected then return found
  else refuse (.typeMismatch op expected found)

def popOperands (expected : List NativeType) (op : String) : Assembler ε Unit :=
  expected.reverse.forM fun type => do
    let _ ← popExpect type op

def popTest (test : Test) : Assembler ε Unit := popOperands test.operands test.mnemonic

def pushType (type : NativeType) : Assembler ε Unit := modify (Assembly.push type)

def emit (op : Op) : Assembler ε Unit := modify (Assembly.emit op)

def pushConst (c : Constant) : Assembler ε Unit := do
  pushType c.type
  emit (.push c)

def pushNull : Assembler ε Unit := pushConst .null

def dup : Assembler ε Unit := do
  pushType (← top)
  emit .dup

def pop : Assembler ε Unit := do
  let _ ← popType "pop"
  emit .pop

def swap : Assembler ε Unit := do
  let a ← popType "swap"
  let b ← popType "swap"
  pushType a
  pushType b
  emit .swap

def applyCall (m : Method) : Assembler ε Unit := do
  let op := "call " ++ m.owner.render ++ "." ++ m.name
  popOperands m.params op
  unless m.isStatic do
    let _ ← popExpect (.ref m.owner) op
  match m.returns with
  | some result => pushType result
  | none => pure ()

def invoke (m : Method) : Assembler ε Unit := do
  applyCall m
  emit (.invoke m)

def suspend (m : Method) : Assembler ε Unit := do
  applyCall m
  emit (.suspend m)

def getStatic (f : StaticField) : Assembler ε Unit := do
  pushType f.type
  emit (.getStatic f)

/-- Converts the number on top; nothing is emitted when it has the type already. -/
def convert (target : NativeType) : Assembler ε Unit := do
  let source ← popType "convert"
  if source = target then pushType source
  else if !source.isNumeric then
    refuse (.notPrimitive ("convert to " ++ target.render) source)
  else if !target.isNumeric then
    refuse (.notPrimitive ("convert from " ++ source.render) target)
  else
    pushType target
    emit (.convert source target)

/-- Checks the class of the reference on top; a cast to a supertype needs no instruction. -/
def checkCast (target : RefType) : Assembler ε Unit := do
  let source ← popExpect (.ref .object) ("checkcast " ++ target.render)
  if source.assignableTo (.ref target) && source ≠ .null then pushType source
  else
    pushType (.ref target)
    emit (.checkCast target)

def boxPrimitive : Assembler ε Unit := do
  let type ← popType "box"
  if type.isPrimitive then
    pushType (.ref (.wrapper type))
    emit (.box type)
  else refuse (.notPrimitive "box" type)

def declareLocal (name : String) (type : NativeType) : Assembler ε Local := do
  let slot : Local := ⟨(← get).nextLocal, type⟩
  modify fun a => a.declare ⟨name, slot⟩
  return slot

def load (l : Local) : Assembler ε Unit := do
  pushType l.type
  emit (.load l)

def store (l : Local) : Assembler ε Unit := do
  let _ ← popExpect l.type "store"
  emit (.store l)

def increment (l : Local) (delta : Int32) : Assembler ε Unit :=
  if l.type = .int then emit (.increment l delta)
  else refuse (.typeMismatch "iinc" .int l.type)

/-- Splices a finished sequence: its inputs are taken and its output is left. Its locals are
renumbered above those in use. -/
def append (s : Sequence) : Assembler ε Unit := do
  popOperands s.inputs "append"
  match s.output with
  | some type => pushType type
  | none => pure ()
  modify fun a =>
    { a with
      ops := a.ops ++ Op.relocateAll a.nextLocal s.ops
      maxLocals := max a.maxLocals (a.nextLocal + s.maxLocals) }

/-- Writes a region on its own, on top of the stack at this point. -/
def region (body : Assembler ε Unit) : Assembler ε Assembly := do
  let (result, written) := body.run (← get).fork
  match result with
  | .ok () => return written
  | .error e => throw e

/-- The slots of two stacks that meet, merged one by one. -/
def mergeSlots : List NativeType → List NativeType → Option (List NativeType)
  | [], [] => some []
  | a :: as, b :: bs => do
      let merged ← a.merge b
      let rest ← mergeSlots as bs
      return merged :: rest
  | _, _ => none

/-- Joins two written arms. They are exclusive, so they may share the numbers of locals. -/
def joinArms (test : Test) (thenArm elseArm : Assembly) : Assembler ε Unit :=
  match mergeSlots thenArm.stack elseArm.stack with
  | some stack =>
      modify fun a =>
        { (a.adopt thenArm).adopt elseArm with stack }
          |>.emit (.branch test thenArm.ops elseArm.ops)
  | none => refuse (.branchMismatch thenArm.slots elseArm.slots)

/-- Writes a branch; the operands of the test are taken before either arm. -/
def branch (test : Test) (thenArm elseArm : Assembler ε Unit) : Assembler ε Unit := do
  popTest test
  let thenArm ← region thenArm
  let elseArm ← region elseArm
  joinArms test thenArm elseArm

def expectUnchanged (part : NeutralPart) (written : Assembly) : Assembler ε Unit := do
  let a ← get
  unless written.stack = a.stack do
    refuse (.notNeutral part a.slots written.slots)

/-- Closes the written condition of a loop and gives its code. Its locals stay in use. -/
def closeCondition (written : Assembly) (test : Test) : Assembler ε (List Op) := do
  let (result, condition) := (popTest test : Assembler ε Unit).run written
  match result with
  | .ok () =>
      expectUnchanged .loopCondition condition
      modify (·.adopt condition)
      return condition.ops
  | .error e => throw e

def closeLoop (conditionOps : List Op) (test : Test) (body : Assembly) : Assembler ε Unit := do
  expectUnchanged .loopBody body
  modify (·.adopt body)
  emit (.loop conditionOps test body.ops)

/-- Writes `while (condition; test) body`. -/
def whileLoop (condition : Assembler ε Unit) (test : Test) (body : Assembler ε Unit) :
    Assembler ε Unit := do
  let conditionOps ← closeCondition (← region condition) test
  closeLoop conditionOps test (← region body)

def closeScope (inner : Assembly) : Assembler ε Unit :=
  modify fun a =>
    { a with maxLocals := max a.maxLocals inner.maxLocals, stack := inner.stack }
      |>.emit (.scope inner.declared inner.ops)

def scope (body : Assembler ε Unit) : Assembler ε Unit := do
  closeScope (← region body)

end Assembler

namespace Assembly

def finishExpression (a : Assembly) (nonNull : Bool) : Except EmitError Sequence :=
  match a.stack with
  | [type] =>
      .ok
        { ops := a.ops, inputs := a.inputs, output := some type, nonNull
          maxLocals := a.maxLocals }
  | _ => .error (.notAnExpression a.slots)

def finishStatement (a : Assembly) : Except EmitError Sequence :=
  match a.stack with
  | [] =>
      .ok
        { ops := a.ops, inputs := a.inputs, output := none, nonNull := false
          maxLocals := a.maxLocals }
  | _ => .error (.notNeutral .statement [] a.slots)

end Assembly

def Assembler.expression {ε : Type} [OfEmitError ε] (inputs : List NativeType) (nonNull : Bool)
    (steps : Assembler ε Unit) : Except ε Sequence :=
  match steps.run (Assembly.start inputs) with
  | (.ok (), a) => (a.finishExpression nonNull).mapError OfEmitError.ofEmitError
  | (.error e, _) => .error e

end MessageCode
