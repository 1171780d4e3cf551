import MessageCode.Code.Assembler

/-!
Scripts of assembler calls as data. A script names the locals it declares; a region ends at its
first refused call, while the outermost steps can be run on past one. Running records what every
step left on the stack.
-/

namespace MessageCode

inductive Finish where
  | expression
  | nullable
  | statement
  deriving DecidableEq

mutual

/-- One call. Further calls of type `κ` are given their meaning by the caller. -/
inductive Step (κ ε : Type) where
  | push (c : Constant)
  | dup
  | pop
  | swap
  | box
  | top
  | depth
  | invoke (m : Method)
  | suspend (m : Method)
  | getStatic (f : StaticField)
  | convert (type : NativeType)
  | cast (type : RefType)
  /-- Declares a local and remembers it under the name. -/
  | declare (name : String) (type : NativeType)
  | load (name : String)
  | store (name : String)
  | increment (name : String) (delta : Int32)
  /-- Finishes a script of its own and splices the result. -/
  | append (script : Script κ ε)
  | branch (test : Test) (thenSteps elseSteps : List (Step κ ε))
  | loop (condition : List (Step κ ε)) (test : Test) (body : List (Step κ ε))
  | scope (body : List (Step κ ε))
  | call (action : κ)

inductive Script (κ ε : Type) where
  /-- A sequence at hand, or the reason why there is none. -/
  | given (result : Except ε Sequence)
  | written (inputs : List NativeType) (steps : List (Step κ ε)) (finish : Finish)

end

/-- What a step tells about the stack or about its local. -/
inductive Note where
  | none
  | top (type : NativeType)
  | depth (slots : Nat)
  | index (slot : Nat)

/-- The record of a step: the stack it left, deepest slot first, its refusal if it was refused, and
the records of its regions in the order in which they were written. -/
inductive StepRecord (ε : Type) where
  | mk (slots : List NativeType) (failure : Option ε) (note : Note)
      (regions : List (List (StepRecord ε)))

structure Script.Handlers (κ ε : Type) where
  perform : κ → Assembler ε Unit
  unknownLocal : String → ε

/-- The locals a script has declared, the latest first. -/
abbrev LocalNames := List (String × Local)

/-- The outcome of a call: its note or refusal, the records of its regions, and what it left. -/
structure StepOutcome (ε : Type) where
  result : Except ε Note
  regions : List (List (StepRecord ε))
  names : LocalNames
  assembly : Assembly

namespace StepOutcome

variable {ε : Type}

def ofCall (names : LocalNames) (a : Assembly) (call : Assembler ε Note) : StepOutcome ε :=
  let (result, written) := call.run a
  { result, regions := [], names, assembly := written }

def failure? (o : StepOutcome ε) : Option ε :=
  match o.result with
  | .ok _ => none
  | .error e => some e

def record (o : StepOutcome ε) : StepRecord ε :=
  let note := match o.result with
    | .ok note => note
    | .error _ => .none
  .mk o.assembly.slots o.failure? note o.regions

end StepOutcome

structure RegionOutcome (ε : Type) where
  records : List (StepRecord ε)
  failure : Option ε
  names : LocalNames
  assembly : Assembly

/-- A call on a local that the script has declared. -/
def LocalNames.withLocal {κ ε : Type} (h : Script.Handlers κ ε) (names : LocalNames)
    (name : String) (call : Local → Assembler ε Unit) : Assembler ε Note :=
  match names.find? fun entry => entry.1 == name with
  | some (_, slot) => do
      call slot
      return .none
  | none => throw (h.unknownLocal name)

def Assembler.noted {ε : Type} (call : Assembler ε Unit) : Assembler ε Note := do
  call
  return .none

def Finish.apply (finish : Finish) (a : Assembly) : Except EmitError Sequence :=
  match finish with
  | .expression => a.finishExpression true
  | .nullable => a.finishExpression false
  | .statement => a.finishStatement

section

variable {κ ε : Type} [OfEmitError ε]

/-- The outcome of the last part of a call with regions, after all of them were written. -/
def StepOutcome.close (names : LocalNames) (a : Assembly) (regions : List (List (StepRecord ε)))
    (call : Assembler ε Unit) : StepOutcome ε :=
  let (result, written) := call.run a
  { result := result.map fun () => .none, regions, names, assembly := written }

mutual

def Step.run (h : Script.Handlers κ ε) (names : LocalNames) (a : Assembly) :
    Step κ ε → StepOutcome ε
  | .push c => .ofCall names a (Assembler.pushConst c).noted
  | .dup => .ofCall names a Assembler.dup.noted
  | .pop => .ofCall names a Assembler.pop.noted
  | .swap => .ofCall names a Assembler.swap.noted
  | .box => .ofCall names a Assembler.boxPrimitive.noted
  | .top => .ofCall names a (Note.top <$> Assembler.top)
  | .depth => .ofCall names a (pure (.depth a.stack.length))
  | .invoke m => .ofCall names a (Assembler.invoke m).noted
  | .suspend m => .ofCall names a (Assembler.suspend m).noted
  | .getStatic f => .ofCall names a (Assembler.getStatic f).noted
  | .convert type => .ofCall names a (Assembler.convert type).noted
  | .cast type => .ofCall names a (Assembler.checkCast type).noted
  | .declare name type =>
      let slot : Local := ⟨a.nextLocal, type⟩
      .ofCall ((name, slot) :: names) a do
        return .index (← Assembler.declareLocal name type).index
  | .load name => .ofCall names a (names.withLocal h name Assembler.load)
  | .store name => .ofCall names a (names.withLocal h name Assembler.store)
  | .increment name delta =>
      .ofCall names a (names.withLocal h name (Assembler.increment · delta))
  | .append script =>
      .ofCall names a do
        match script.build h with
        | .ok s => (Assembler.append s).noted
        | .error e => throw e
  | .branch test thenSteps elseSteps =>
      match (Assembler.popTest test).run a with
      | (.error e, a) => { result := .error e, regions := [[], []], names, assembly := a }
      | (.ok (), a) =>
          let thenArm := Step.runRegion h names a.fork thenSteps
          match thenArm.failure with
          | some e =>
              { result := .error e, regions := [thenArm.records, []], names := thenArm.names
                assembly := a }
          | none =>
              let elseArm := Step.runRegion h thenArm.names a.fork elseSteps
              let regions := [thenArm.records, elseArm.records]
              match elseArm.failure with
              | some e =>
                  { result := .error e, regions, names := elseArm.names, assembly := a }
              | none =>
                  .close elseArm.names a regions
                    (Assembler.joinArms test thenArm.assembly elseArm.assembly)
  | .loop condition test body =>
      let conditionPart := Step.runRegion h names a.fork condition
      match conditionPart.failure with
      | some e =>
          { result := .error e, regions := [conditionPart.records, []]
            names := conditionPart.names, assembly := a }
      | none =>
          match (Assembler.closeCondition conditionPart.assembly test).run a with
          | (.error e, a) =>
              { result := .error e, regions := [conditionPart.records, []]
                names := conditionPart.names, assembly := a }
          | (.ok conditionOps, a) =>
              let bodyPart := Step.runRegion h conditionPart.names a.fork body
              let regions := [conditionPart.records, bodyPart.records]
              match bodyPart.failure with
              | some e =>
                  { result := .error e, regions, names := bodyPart.names, assembly := a }
              | none =>
                  .close bodyPart.names a regions
                    (Assembler.closeLoop conditionOps test bodyPart.assembly)
  | .scope body =>
      let inner := Step.runRegion h names a.fork body
      match inner.failure with
      | some e =>
          { result := .error e, regions := [inner.records], names := inner.names, assembly := a }
      | none => .close inner.names a [inner.records] (Assembler.closeScope inner.assembly)
  | .call action => .ofCall names a (h.perform action).noted

/-- Runs steps up to the first refusal. -/
def Step.runRegion (h : Script.Handlers κ ε) (names : LocalNames) (a : Assembly) :
    List (Step κ ε) → RegionOutcome ε
  | [] => { records := [], failure := none, names, assembly := a }
  | step :: rest =>
      let o := step.run h names a
      match o.failure? with
      | some e =>
          { records := [o.record], failure := some e, names := o.names, assembly := o.assembly }
      | none =>
          let more := Step.runRegion h o.names o.assembly rest
          { more with records := o.record :: more.records }

def Script.build (h : Script.Handlers κ ε) : Script κ ε → Except ε Sequence
  | .given result => result
  | .written inputs steps finish =>
      let o := Step.runRegion h [] (Assembly.start inputs) steps
      match o.failure with
      | some e => .error e
      | none => (finish.apply o.assembly).mapError OfEmitError.ofEmitError

end

def Step.runAll (h : Script.Handlers κ ε) (names : LocalNames) (a : Assembly) :
    List (Step κ ε) → List (StepRecord ε) × Assembly
  | [] => ([], a)
  | step :: rest =>
      let o := step.run h names a
      let (records, final) := Step.runAll h o.names o.assembly rest
      (o.record :: records, final)

end

end MessageCode
