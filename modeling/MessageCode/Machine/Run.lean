import MessageCode.Code.Sequence
import MessageCode.Machine.Native

/-!
Running code. Instructions act on a frame, which holds the operand stack and the locals, and through
the operations of their host on the machine. The rounds of every loop are bounded by fuel; running
out of it is told apart from faults.
-/

namespace MessageCode

/-- Why a run ends without a result. -/
inductive Stop where
  | fault (f : Fault)
  | outOfFuel
  deriving DecidableEq

abbrev Run (α : Type) := ExceptT Stop (StateM Machine) α

structure Frame where
  /-- The top of the stack first. -/
  stack : List Value
  locals : List Value

namespace Run

def fault {α : Type} (f : Fault) : Run α := throw (.fault f)

def ofExcept {α : Type} (e : Except Fault α) : Run α :=
  match e with
  | .ok a => pure a
  | .error f => fault f

def ofNative {α : Type} (step : Native α) : Run α := fun m =>
  let (result, m) := step.run m
  (result.mapError .fault, m)

/-- Repeats a round until it tells to stop. -/
def iterate (round : Frame → Run (Frame × Bool)) : Nat → Frame → Run Frame
  | 0, _ => throw .outOfFuel
  | fuel + 1, frame => do
      let (frame, again) ← round frame
      if again then iterate round fuel frame else return frame

end Run

namespace Frame

def push (v : Value) (frame : Frame) : Frame := { frame with stack := v :: frame.stack }

def pop (op : String) (frame : Frame) : Except Fault (Value × Frame) :=
  match frame.stack with
  | v :: rest => .ok (v, { frame with stack := rest })
  | [] => .error (.stackUnderflow op)

def top (op : String) (frame : Frame) : Except Fault Value :=
  match frame.stack with
  | v :: _ => .ok v
  | [] => .error (.stackUnderflow op)

def popMany (op : String) : Nat → Frame → Except Fault (List Value × Frame)
  | 0, frame => .ok ([], frame)
  | count + 1, frame => do
      let (v, frame) ← frame.pop op
      let (deeper, frame) ← popMany op count frame
      return (deeper ++ [v], frame)

def noLocal (l : Local) : Fault :=
  .illegalArgument ("local " ++ toString l.index ++ " out of range")

def getLocal (l : Local) (frame : Frame) : Except Fault Value :=
  match frame.locals[l.index]? with
  | some v => .ok v
  | none => .error (noLocal l)

def setLocal (l : Local) (v : Value) (frame : Frame) : Except Fault Frame :=
  if l.index < frame.locals.length then
    .ok { frame with locals := frame.locals.set l.index v }
  else .error (noLocal l)

def release (locals : List Declaration) (frame : Frame) : Except Fault Frame :=
  locals.foldlM (fun frame d => frame.setLocal d.slot .null) frame

end Frame

def Constant.load : Constant → StateM Machine Value
  | .null => return .null
  | .bool b => return .bool b
  | .int n => return .int n
  | .long n => return .long n
  | .double x => return .double x
  | .text s => Machine.alloc (.text s)

namespace Test

def eval (test : Test) (frame : Frame) : Except Fault (Bool × Frame) := do
  let op := test.mnemonic
  let bad {α : Type} (expected : String) (v : Value) : Except Fault α :=
    .error (.badOperand op expected v.typeName)
  let (b, frame) ← frame.pop op
  match test with
  | .isNull => return (b.isNull, frame)
  | .nonNull => return (!b.isNull, frame)
  | .isTrue =>
      match b with
      | .bool b => return (b, frame)
      | v => bad "bool" v
  | .isZero =>
      match b with
      | .int n => return (n = 0, frame)
      | v => bad "int" v
  | .intEq | .intLt =>
      let (a, frame) ← frame.pop op
      match a, b with
      | .int a, .int b => return (if test = .intEq then a = b else a < b, frame)
      | .int _, v => bad "int" v
      | v, _ => bad "int" v

end Test

/-- A number as a number of another type. Integers wrap, reals are cut to integers in range, and an
integer becomes a 32-bit real by way of a 64-bit one. -/
def Value.convert (target : NativeType) (v : Value) : Except Fault Value := do
  let (whole, narrowed, real) ← match v with
    | .int n => .ok (n.toInt64, n, Numeric.Binary.ofInt .double n.toInt)
    | .long n => .ok (n, n.toInt32, Numeric.Binary.ofInt .double n.toInt)
    | .float x => .ok (x.toInt64, x.toInt32, x.widen)
    | .double x => .ok (x.toInt64, x.toInt32, x)
    | v => .error (.badOperand ("convert to " ++ target.render) "number" v.typeName)
  match target with
  | .int => return .int narrowed
  | .long => return .long whole
  | .float => return .float (Numeric.Double.narrow real)
  | .double => return .double real
  | other => .error (.badOperand "convert" "numeric target" other.render)

def StaticField.load (schema : Schema) (f : StaticField) : Except Fault Object :=
  let find (owner : String) : Except Fault Object :=
    if (schema.extensionById? owner f.name).isSome then .ok (.extension owner f.name)
    else .error (.unknownField (owner ++ "." ++ f.name))
  match f.owner with
  | .message name => find name
  | .extensionHolder name => find name
  | other => .error (.unknownField (other.render ++ "." ++ f.name))

/-- What code reaches beside its frame: the operations it calls and the static fields it reads. -/
structure Host where
  call : Call → Native Value
  static : StaticField → Except Fault Object

def Host.ofSchema (schema : Schema) : Host :=
  { call := Native.invoke schema, static := StaticField.load schema }

/-- Takes the operands of a method; a receiver must not be null. -/
def Method.takeOperands (m : Method) (frame : Frame) : Except Fault (Call × Frame) := do
  let op := m.render
  let (args, frame) ← frame.popMany op m.params.length
  if m.isStatic then return ({ method := m, receiver := none, args }, frame)
  else
    let (receiver, frame) ← frame.pop op
    if receiver.isNull then .error (.nullPointer op)
    else return ({ method := m, receiver := some receiver, args }, frame)

/-- Calls a method and leaves its result; a suspension point is counted before the call. -/
def Method.exec (host : Host) (suspends : Bool) (m : Method) (frame : Frame) : Run Frame := do
  let (c, frame) ← Run.ofExcept (m.takeOperands frame)
  if suspends then modify fun s => { s with suspensions := s.suspensions + 1 }
  let result ← Run.ofNative (host.call c)
  return if m.returns.isSome then frame.push result else frame

mutual

def Op.exec (host : Host) (fuel : Nat) : Op → Frame → Run Frame
  | .push c, frame => do
      return frame.push (← (c.load : StateM Machine Value))
  | .dup, frame => do
      return frame.push (← Run.ofExcept (frame.top "dup"))
  | .pop, frame => do
      return (← Run.ofExcept (frame.pop "pop")).2
  | .swap, frame => Run.ofExcept do
      let (a, frame) ← frame.pop "swap"
      let (b, frame) ← frame.pop "swap"
      return (frame.push a).push b
  | .load l, frame => do
      return frame.push (← Run.ofExcept (frame.getLocal l))
  | .store l, frame => Run.ofExcept do
      let (v, frame) ← frame.pop "store"
      frame.setLocal l v
  | .increment l delta, frame => Run.ofExcept do
      match ← frame.getLocal l with
      | .int n => frame.setLocal l (.int (n + delta))
      | v => .error (.badOperand "iinc" "int" v.typeName)
  | .invoke m, frame => m.exec host false frame
  | .suspend m, frame => m.exec host true frame
  | .getStatic f, frame => do
      let object ← Run.ofExcept (host.static f)
      return frame.push (← (Machine.alloc object : StateM Machine Value))
  | .convert _ target, frame => Run.ofExcept do
      let (v, frame) ← frame.pop "convert"
      return frame.push (← v.convert target)
  | .checkCast type, frame => Run.ofExcept do
      let v ← frame.top "checkcast"
      if v.isInstance type then return frame
      else .error (.classCast type.render v.typeName)
  | .box type, frame => do
      let (v, frame) ← Run.ofExcept (frame.pop "box")
      if v.primitiveType? = some type then
        return frame.push (← (Machine.alloc (.wrapper v) : StateM Machine Value))
      else Run.fault (.badOperand "box" type.render v.typeName)
  | .branch test thenOps elseOps, frame => do
      let (holds, frame) ← Run.ofExcept (test.eval frame)
      if holds then Op.execAll host fuel thenOps frame
      else Op.execAll host fuel elseOps frame
  | .loop condition test body, frame =>
      Run.iterate
        (fun frame => do
          let frame ← Op.execAll host fuel condition frame
          let (holds, frame) ← Run.ofExcept (test.eval frame)
          if holds then return (← Op.execAll host fuel body frame, true)
          else return (frame, false))
        fuel frame
  | .scope locals body, frame => do
      let frame ← Op.execAll host fuel body frame
      Run.ofExcept (frame.release locals)

def Op.execAll (host : Host) (fuel : Nat) : List Op → Frame → Run Frame
  | [], frame => return frame
  | op :: rest, frame => do
      let frame ← op.exec host fuel frame
      Op.execAll host fuel rest frame

end

def Frame.finish (frame : Frame) (output : Option NativeType) : Run (Option Value) :=
  match output with
  | some _ => return some (← Run.ofExcept (frame.pop "result")).1
  | none => return none

namespace Sequence

/-- Runs a sequence on its inputs, given deepest first, and gives its output if it has one. -/
def runOn (host : Host) (fuel : Nat) (s : Sequence) (inputs : List Value) :
    Run (Option Value) := do
  if inputs.length ≠ s.inputs.length then
    Run.fault (.illegalArgument ("sequence takes " ++ toString s.inputs.length
      ++ " inputs, got " ++ toString inputs.length))
  let frame ← Op.execAll host fuel s.ops
    { stack := inputs.reverse, locals := List.replicate s.maxLocals .null }
  frame.finish s.output

def run (schema : Schema) (fuel : Nat) (s : Sequence) (inputs : List Value) :
    Run (Option Value) :=
  s.runOn (.ofSchema schema) fuel inputs

/-- Runs a sequence without inputs on a new machine, whose objects are apart from all others. -/
def execute (schema : Schema) (fuel : Nat) (s : Sequence) : Except Stop (Option Value) :=
  ((s.run schema fuel []).run Machine.start).1

end Sequence

end MessageCode
