import MessageCode.Proofs.Code.Assembled
import Mathlib.Data.Nat.Basic
import Mathlib.Order.MinMax

/-!
Refused calls. A call of the assembler that fails has written nothing. The operands that it took before
stay taken, and a loop keeps the locals of its condition, which was closed before the body was written.
-/

namespace MessageCode

open Stateful

/-- An assembly as a refused call may leave it: the code and the inputs are the same, of the stack only
slots on top are gone, and locals were at most added. -/
structure Assembly.Stripped (a' a : Assembly) : Prop where
  ops : a'.ops = a.ops
  inputs : a'.inputs = a.inputs
  slots : a'.slots <+: a.slots
  nextLocal : a.nextLocal ≤ a'.nextLocal
  maxLocals : a.maxLocals ≤ a'.maxLocals
  declared : a.declared <+: a'.declared

namespace Assembly.Stripped

variable {a b c : Assembly}

theorem refl (a : Assembly) : a.Stripped a :=
  ⟨rfl, rfl, List.prefix_rfl, le_rfl, le_rfl, List.prefix_rfl⟩

theorem trans (h : c.Stripped b) (h' : b.Stripped a) : c.Stripped a where
  ops := h.ops.trans h'.ops
  inputs := h.inputs.trans h'.inputs
  slots := h.slots.trans h'.slots
  nextLocal := le_trans h'.nextLocal h.nextLocal
  maxLocals := le_trans h'.maxLocals h.maxLocals
  declared := h'.declared.trans h.declared

theorem take {t : NativeType} {rest : List NativeType} (h : a.stack = t :: rest) :
    Assembly.Stripped { a with stack := rest } a where
  ops := rfl
  inputs := rfl
  slots := by
    unfold Assembly.slots
    rw [h, List.reverse_cons]
    exact List.prefix_append ..
  nextLocal := le_rfl
  maxLocals := le_rfl
  declared := List.prefix_rfl

theorem adopt (a region : Assembly) : (a.adopt region).Stripped a where
  ops := rfl
  inputs := rfl
  slots := List.prefix_rfl
  nextLocal := le_max_left ..
  maxLocals := le_max_left ..
  declared := List.prefix_append ..

end Assembly.Stripped

namespace Assembler

variable {ε α β : Type}

/-- Steps that write nothing and leave nothing on the stack, whatever they come to. -/
def Strips (steps : Assembler ε α) : Prop := ∀ a, (steps.run a).2.Stripped a

/-- Steps that have written nothing when they fail. -/
def Refuses (steps : Assembler ε α) : Prop :=
  ∀ a e a', steps.run a = (.error e, a') → a'.Stripped a

abbrev Writes (steps : Assembler ε α) : Prop := Gives steps fun _ => True

namespace Strips

variable {steps more : Assembler ε α}

theorem pure (x : α) : Strips (Pure.pure x : Assembler ε α) := .refl

theorem throw (e : ε) : Strips (MonadExcept.throw e : Assembler ε α) := .refl

theorem bind {more : α → Assembler ε β} (h : Strips steps) (h' : ∀ x, Strips (more x)) :
    Strips (steps >>= more) := by
  intro a
  have first := h a
  rw [run_bind]
  rcases run : steps.run a with ⟨e | x, b⟩
  · rw [run] at first
    exact first
  · rw [run] at first
    exact (h' x b).trans first

theorem get {more : Assembly → Assembler ε α} (h : ∀ a, ((more a).run a).2.Stripped a) :
    Strips (MonadState.get >>= more) := by
  intro a
  rw [run_bind_ok (run_get a)]
  exact h a

theorem ite {p : Prop} [Decidable p] (h : Strips steps) (h' : Strips more) :
    Strips (if p then steps else more) := by
  split
  · exact h
  · exact h'

theorem forM {items : List α} {step : α → Assembler ε Unit} (h : ∀ item, Strips (step item)) :
    Strips (items.forM step) := by
  induction items with
  | nil => exact pure ()
  | cons item items ih => exact (h item).bind fun _ => ih

/-- What a region does is done to an assembly of its own. -/
theorem region (body : Assembler ε Unit) : Strips (Assembler.region body) := by
  refine get fun a => ?_
  rcases body.run a.fork with ⟨e | ⟨⟩, b⟩
  · exact .refl a
  · exact .refl a

variable [OfEmitError ε]

theorem refuse (e : EmitError) : Strips (Assembler.refuse e : Assembler ε α) := throw _

theorem top : Strips (Assembler.top : Assembler ε NativeType) := by
  rintro ⟨ops, inputs, _ | ⟨t, rest⟩, next, size, declared⟩
  · exact .refl _
  · exact .refl _

theorem popType (op : String) : Strips (Assembler.popType op : Assembler ε NativeType) := by
  rintro ⟨ops, inputs, _ | ⟨t, rest⟩, next, size, declared⟩
  · exact .refl _
  · exact .take rfl

theorem popExpect (expected : NativeType) (op : String) :
    Strips (Assembler.popExpect expected op : Assembler ε NativeType) :=
  (popType op).bind fun found => ite (pure found) (refuse _)

theorem popOperands (expected : List NativeType) (op : String) :
    Strips (Assembler.popOperands expected op : Assembler ε Unit) :=
  forM fun type => (popExpect type op).bind fun _ => pure ()

theorem popTest (test : Test) : Strips (Assembler.popTest test : Assembler ε Unit) :=
  popOperands _ _

theorem expectUnchanged (part : NeutralPart) (written : Assembly) :
    Strips (Assembler.expectUnchanged part written : Assembler ε Unit) :=
  get fun a => ite (pure ()) (refuse _) a

/-- The operands of the test are taken from the condition and not from the stack of the loop. -/
theorem closeCondition (written : Assembly) (test : Test) :
    Strips (Assembler.closeCondition written test : Assembler ε (List Op)) := by
  unfold Assembler.closeCondition
  rcases (Assembler.popTest test : Assembler ε Unit).run written with ⟨e | ⟨⟩, condition⟩
  · exact throw e
  · exact (expectUnchanged _ _).bind fun _ => bind (fun a => .adopt a condition) fun _ => pure _

end Strips

namespace Writes

theorem change (f : Assembly → Assembly) : Writes (modify f : Assembler ε PUnit) :=
  fun a => ⟨_, f a, rfl, trivial⟩

theorem seq {steps more : Assembler ε Unit} (h : Writes steps) (h' : Writes more) :
    Writes (steps >>= fun _ => more) := h.bind fun _ _ => h'

theorem emit (op : Op) : Writes (Assembler.emit op : Assembler ε Unit) := change _

theorem pushType (t : NativeType) : Writes (Assembler.pushType t : Assembler ε Unit) := change _

theorem pushed (t : NativeType) (op : Op) :
    Writes (Assembler.pushType t >>= fun _ => Assembler.emit op : Assembler ε Unit) :=
  (pushType t).seq (emit op)

theorem pushResult (returns : Option NativeType) :
    Writes (Assembler.pushResult returns : Assembler ε Unit) :=
  fun a => ⟨_, _, run_pushResult returns a, trivial⟩

end Writes

namespace Refuses

variable {steps more : Assembler ε α}

theorem of_strips (h : Strips steps) : Refuses steps := by
  intro a e a' run
  have left := h a
  rwa [run] at left

theorem of_writes (h : Writes steps) : Refuses steps := by
  intro a e a' run
  obtain ⟨x, b, run', -⟩ := h a
  cases run.symm.trans run'

theorem bind {more : α → Assembler ε β} (h : Strips steps) (h' : ∀ x, Refuses (more x)) :
    Refuses (steps >>= more) := by
  intro a e a' run
  rcases bind_eq_error.mp run with run | ⟨x, b, run, run'⟩
  · exact of_strips h a e a' run
  · have first := h a
    rw [run] at first
    exact (h' x b e a' run').trans first

theorem before {more : α → Assembler ε β} (h : Refuses steps) (h' : ∀ x, Writes (more x)) :
    Refuses (steps >>= more) := by
  intro a e a' run
  rcases bind_eq_error.mp run with run | ⟨x, b, -, run'⟩
  · exact h a e a' run
  · obtain ⟨y, c, run'', -⟩ := h' x b
    cases run'.symm.trans run''

theorem ite {p : Prop} [Decidable p] (h : Refuses steps) (h' : Refuses more) :
    Refuses (if p then steps else more) := by
  split
  · exact h
  · exact h'

theorem scope (body : Assembler ε Unit) : Refuses (Assembler.scope body) :=
  bind (.region body) fun _ => of_writes (.change _)

variable [OfEmitError ε]

theorem applyCall (m : Method) : Refuses (Assembler.applyCall m : Assembler ε Unit) := by
  rw [applyCall_eq]
  refine bind (.forM fun type => (Strips.popExpect type _).bind fun _ => .pure ()) fun _ => ?_
  exact of_writes (.pushResult m.returns)

theorem write (d : Directive) : Refuses (d.write : Assembler ε Unit) := by
  cases d with
  | push c => exact of_writes (.pushed _ _)
  | dup => exact bind .top fun t => of_writes (.pushed t _)
  | pop => exact bind (.popType _) fun _ => of_writes (.emit _)
  | swap =>
      refine bind (.popType _) fun first => bind (.popType _) fun second => of_writes ?_
      exact (Writes.pushType first).seq (.pushed second _)
  | load l => exact of_writes (.pushed _ _)
  | store l => exact bind (.popExpect _ _) fun _ => of_writes (.emit _)
  | increment l delta => exact ite (of_writes (.emit _)) (of_strips (.refuse _))
  | invoke m => exact (applyCall m).before fun _ => .emit _
  | suspend m => exact (applyCall m).before fun _ => .emit _
  | getStatic f => exact of_writes (.pushed _ _)
  | convert target =>
      refine bind (.popType _) fun source => ite (of_writes (.pushType source)) ?_
      refine ite (of_strips (.refuse _)) (ite (of_strips (.refuse _)) ?_)
      exact of_writes (.pushed target _)
  | checkCast target =>
      refine bind (.popExpect _ _) fun source => ite (of_writes (.pushType source)) ?_
      exact of_writes (.pushed _ _)
  | box =>
      refine bind (.popType _) fun type => ite (of_writes (.pushed _ _)) ?_
      exact of_strips (.refuse _)

theorem append (s : Sequence) : Refuses (Assembler.append s : Assembler ε Unit) := by
  refine bind (.popOperands _ _) fun _ => of_writes ?_
  cases s.output with
  | some type => exact (Writes.pushType type).seq (.change _)
  | none => exact .change _

theorem joinArms (test : Test) (thenArm elseArm : Assembly) :
    Refuses (Assembler.joinArms test thenArm elseArm : Assembler ε Unit) := by
  unfold Assembler.joinArms
  split
  · exact of_writes (.change _)
  · exact of_strips (.refuse _)

theorem closeLoop (conditionOps : List Op) (test : Test) (body : Assembly) :
    Refuses (Assembler.closeLoop conditionOps test body : Assembler ε Unit) :=
  bind (.expectUnchanged _ _) fun _ => of_writes ((Writes.change _).seq (.emit _))

theorem branch (test : Test) (thenArm elseArm : Assembler ε Unit) :
    Refuses (Assembler.branch test thenArm elseArm) :=
  bind (.popTest test) fun _ => bind (.region thenArm) fun _ => bind (.region elseArm) fun _ =>
    joinArms test _ _

/-- The condition is closed before the body is written, so that its locals may be left. -/
theorem whileLoop (condition : Assembler ε Unit) (test : Test) (body : Assembler ε Unit) :
    Refuses (Assembler.whileLoop condition test body) :=
  bind (.region condition) fun written => bind (.closeCondition written test) fun _ =>
    bind (.region body) fun _ => closeLoop _ test _

end Refuses

end Assembler

/-- A call of the assembler, with all that it is given. Regions are steps of any kind. -/
inductive Operation (ε : Type) where
  | write (d : Directive)
  | top
  | declareLocal (name : String) (type : NativeType)
  | append (s : Sequence)
  | branch (test : Test) (thenArm elseArm : Assembler ε Unit)
  | whileLoop (condition : Assembler ε Unit) (test : Test) (body : Assembler ε Unit)
  | scope (body : Assembler ε Unit)

namespace Operation

variable {ε : Type} [OfEmitError ε]

def perform : Operation ε → Assembler ε Unit
  | .write d => d.write
  | .top => do
      let _ ← Assembler.top
  | .declareLocal name type => do
      let _ ← Assembler.declareLocal name type
  | .append s => Assembler.append s
  | .branch test thenArm elseArm => Assembler.branch test thenArm elseArm
  | .whileLoop condition test body => Assembler.whileLoop condition test body
  | .scope body => Assembler.scope body

/-- A refused call leaves the written instructions and the inputs as they were, and a prefix of the
stack. Locals are numbered, counted and declared from where they were, whatever the regions did. -/
theorem refused_emits_nothing (call : Operation ε) {a a' : Assembly} {e : ε}
    (h : call.perform.run a = (.error e, a')) :
    a'.ops = a.ops ∧ a'.inputs = a.inputs ∧ a'.slots <+: a.slots ∧ a.nextLocal ≤ a'.nextLocal ∧
      a.maxLocals ≤ a'.maxLocals ∧ a.declared <+: a'.declared := by
  have refuses : call.perform.Refuses := by
    cases call with
    | write d => exact .write d
    | top => exact .of_strips (.bind .top fun _ => .pure ())
    | declareLocal name type => exact .of_writes fun a => ⟨_, _, rfl, trivial⟩
    | append s => exact .append s
    | branch test thenArm elseArm => exact .branch test thenArm elseArm
    | whileLoop condition test body => exact .whileLoop condition test body
    | scope body => exact .scope body
  have left := refuses a e a' h
  exact ⟨left.ops, left.inputs, left.slots, left.nextLocal, left.maxLocals, left.declared⟩

/-- Behind a text, a loop whose condition declares a local and whose body takes the text and one more. -/
def emptying : Operation EmitError :=
  .whileLoop (do Assembler.load (← Assembler.declareLocal "more" .bool)) .isTrue
    (do Assembler.pop; Assembler.pop)

theorem emptying_refused :
    let a := (Assembly.start []).put [.push (.text "kept")] [.text]
    let a' := { a with nextLocal := 1, maxLocals := 1, declared := [⟨"more", ⟨0, .bool⟩⟩] }
    emptying.perform.run a = (.error (.stackUnderflow "pop"), a') ∧
      a'.ops = a.ops ∧ a'.inputs = a.inputs ∧ a'.slots <+: a.slots ∧ a.nextLocal ≤ a'.nextLocal ∧
        a.maxLocals ≤ a'.maxLocals ∧ a.declared <+: a'.declared :=
  ⟨rfl, refused_emits_nothing emptying rfl⟩

end Operation

end MessageCode
