import MessageCode.Code.Assembler
import Mathlib.Data.List.Forall2
import MessageCode.Proofs.Stateful

/-!
What instructions do to the stack of types and to locals, and the calls of the assembler that write
one instruction at most. Such a call writes nothing and leaves the stack as it was, or it writes one
instruction and leaves the stack that the effect of this instruction gives.
-/

namespace MessageCode

/-- Slots that can stand where others are expected, one by one. -/
abbrev Fits (found expected : List NativeType) : Prop :=
  List.Forall₂ (fun a b => a.assignableTo b = true) found expected

theorem RefType.assignableTo_refl (r : RefType) : r.assignableTo r = true := by
  simp [RefType.assignableTo]

theorem NativeType.assignableTo_refl (t : NativeType) : t.assignableTo t = true := by
  cases t <;> simp [NativeType.assignableTo, RefType.assignableTo_refl]

theorem Fits.refl (types : List NativeType) : Fits types types := by
  induction types with
  | nil => exact .nil
  | cons t types ih => exact .cons t.assignableTo_refl ih

/-- What a call takes from the stack, topmost first: the arguments and below them the receiver. -/
def Method.operands (m : Method) : List NativeType :=
  m.params.reverse ++ if m.isStatic then [] else [.ref m.owner]

def Method.arity (m : Method) : Nat := m.params.length + if m.isStatic then 0 else 1

theorem Method.operands_length (m : Method) : m.operands.length = m.arity := by
  unfold operands arity
  cases m.isStatic <;> simp

/-- The stacks before and after an instruction without regions. -/
inductive Op.Effect : Op → List NativeType → List NativeType → Prop
  | push (c : Constant) (rest) : Effect (.push c) rest (c.type :: rest)
  | dup (t rest) : Effect .dup (t :: rest) (t :: t :: rest)
  | pop (t rest) : Effect .pop (t :: rest) rest
  | swap (a b rest) : Effect .swap (a :: b :: rest) (b :: a :: rest)
  | load (l : Local) (rest) : Effect (.load l) rest (l.type :: rest)
  | store (l : Local) {t} (rest) : t.assignableTo l.type = true →
      Effect (.store l) (t :: rest) rest
  | increment (l : Local) (delta rest) : l.type = .int → Effect (.increment l delta) rest rest
  | invoke (m : Method) {found} (rest) : Fits found m.operands →
      Effect (.invoke m) (found ++ rest) (m.returns.toList ++ rest)
  | suspend (m : Method) {found} (rest) : Fits found m.operands →
      Effect (.suspend m) (found ++ rest) (m.returns.toList ++ rest)
  | getStatic (f : StaticField) (rest) : Effect (.getStatic f) rest (f.type :: rest)
  | convert {source target : NativeType} (rest) : source.isNumeric = true →
      target.isNumeric = true →
      Effect (.convert source target) (source :: rest) (target :: rest)
  | checkCast (r : RefType) {t} (rest) : t.assignableTo (.ref .object) = true →
      Effect (.checkCast r) (t :: rest) (.ref r :: rest)
  | box {t : NativeType} (rest) : t.isPrimitive = true →
      Effect (.box t) (t :: rest) (.ref (.wrapper t) :: rest)

theorem Op.Effect.splice {op : Op} {before after : List NativeType}
    (h : op.Effect before after) (offset : Nat) (below : List NativeType) :
    (op.relocate offset).Effect (before ++ below) (after ++ below) := by
  cases h with
  | push c _ => exact .push c _
  | dup t _ => exact .dup t _
  | pop t _ => exact .pop t _
  | swap a b _ => exact .swap a b _
  | load l _ => exact .load (l.relocate offset) _
  | store l _ fits => exact .store (l.relocate offset) _ fits
  | increment l delta _ int =>
      exact .increment (l.relocate offset) delta _ int
  | invoke m _ fits =>
      simp only [List.append_assoc]
      exact .invoke m _ fits
  | suspend m _ fits =>
      simp only [List.append_assoc]
      exact .suspend m _ fits
  | getStatic f _ => exact .getStatic f _
  | convert _ source target => exact .convert _ source target
  | checkCast r _ fits => exact .checkCast r _ fits
  | box _ primitive => exact .box _ primitive

inductive LocalEvent where
  /-- The local starts anew, without a value. -/
  | declare (l : Local)
  | load (l : Local)
  | store (l : Local)
  | increment (l : Local)
  /-- The end of a scope sets the local to null. -/
  | release (l : Local)

namespace LocalEvent

def target : LocalEvent → Local
  | .declare l => l
  | .load l => l
  | .store l => l
  | .increment l => l
  | .release l => l

def Reads (l : Local) : LocalEvent → Prop
  | .load k => k = l
  | .increment k => k = l
  | _ => False

/-- The slot of the local keeps its value, or the local is incremented. -/
def Spares (l : Local) : LocalEvent → Prop
  | .declare _ => True
  | .load _ => True
  | .store k => k.index ≠ l.index
  | .increment k => k.index = l.index → k = l
  | .release k => k.index ≠ l.index

def relocate (offset : Nat) : LocalEvent → LocalEvent
  | .declare l => .declare (l.relocate offset)
  | .load l => .load (l.relocate offset)
  | .store l => .store (l.relocate offset)
  | .increment l => .increment (l.relocate offset)
  | .release l => .release (l.relocate offset)

theorem target_of_reads {l : Local} {e : LocalEvent} (h : e.Reads l) : e.target = l := by
  cases e with
  | load k => exact h
  | increment k => exact h
  | _ => cases h

theorem reads_relocate {offset : Nat} {e : LocalEvent} {l : Local}
    (h : (e.relocate offset).Reads l) : ∃ k, l = k.relocate offset ∧ e.Reads k := by
  cases e with
  | load k => exact ⟨k, h.symm, rfl⟩
  | increment k => exact ⟨k, h.symm, rfl⟩
  | _ => cases h

theorem Reads.relocate {offset : Nat} {e : LocalEvent} {l : Local} (h : e.Reads l) :
    (e.relocate offset).Reads (l.relocate offset) := by
  cases e with
  | load k => exact congrArg _ h
  | increment k => exact congrArg _ h
  | _ => cases h

theorem relocate_injective (offset : Nat) {e e' : LocalEvent}
    (h : e.relocate offset = e'.relocate offset) : e = e' := by
  have same : ∀ l k : Local, l.relocate offset = k.relocate offset → l = k := by
    rintro ⟨i, t⟩ ⟨j, u⟩ h
    simp only [Local.relocate, Local.mk.injEq, Nat.add_right_cancel_iff] at h
    obtain ⟨rfl, rfl⟩ := h
    rfl
  cases e <;> cases e' <;> simp only [relocate, reduceCtorEq] at h <;>
    exact congrArg _ (same _ _ (by injection h))

theorem target_relocate (offset : Nat) (e : LocalEvent) :
    (e.relocate offset).target = e.target.relocate offset := by
  cases e <;> rfl

end LocalEvent

def Op.event? : Op → Option LocalEvent
  | .load l => some (.load l)
  | .store l => some (.store l)
  | .increment l _ => some (.increment l)
  | _ => none

/-- A call of the assembler that writes one instruction at most. -/
inductive Directive where
  | push (c : Constant)
  | dup
  | pop
  | swap
  | load (l : Local)
  | store (l : Local)
  | increment (l : Local) (delta : Int32)
  | invoke (m : Method)
  | suspend (m : Method)
  | getStatic (f : StaticField)
  | convert (target : NativeType)
  | checkCast (target : RefType)
  | box

namespace Directive

def write {ε : Type} [OfEmitError ε] : Directive → Assembler ε Unit
  | .push c => Assembler.pushConst c
  | .dup => Assembler.dup
  | .pop => Assembler.pop
  | .swap => Assembler.swap
  | .load l => Assembler.load l
  | .store l => Assembler.store l
  | .increment l delta => Assembler.increment l delta
  | .invoke m => Assembler.invoke m
  | .suspend m => Assembler.suspend m
  | .getStatic f => Assembler.getStatic f
  | .convert target => Assembler.convert target
  | .checkCast target => Assembler.checkCast target
  | .box => Assembler.boxPrimitive

def event? : Directive → Option LocalEvent
  | .load l => some (.load l)
  | .store l => some (.store l)
  | .increment l _ => some (.increment l)
  | _ => none

end Directive

namespace Assembly

def put (a : Assembly) (ops : List Op) (stack : List NativeType) : Assembly :=
  { a with ops := a.ops ++ ops, stack }

@[simp] theorem put_put (a : Assembly) (ops ops' : List Op) (stack stack' : List NativeType) :
    (a.put ops stack).put ops' stack' = a.put (ops ++ ops') stack' := by
  simp [put]

@[simp] theorem put_ops (a : Assembly) (ops stack) : (a.put ops stack).ops = a.ops ++ ops := rfl

@[simp] theorem put_stack (a : Assembly) (ops stack) : (a.put ops stack).stack = stack := rfl

@[simp] theorem put_nextLocal (a : Assembly) (ops stack) :
    (a.put ops stack).nextLocal = a.nextLocal := rfl

@[simp] theorem put_maxLocals (a : Assembly) (ops stack) :
    (a.put ops stack).maxLocals = a.maxLocals := rfl

@[simp] theorem put_declared (a : Assembly) (ops stack) :
    (a.put ops stack).declared = a.declared := rfl

@[simp] theorem put_inputs (a : Assembly) (ops stack) :
    (a.put ops stack).inputs = a.inputs := rfl

theorem put_nil_stack (a : Assembly) : a.put [] a.stack = a := by
  simp [put]

end Assembly

namespace Assembler

variable {ε : Type} [OfEmitError ε]

theorem popType_eq_ok {op : String} {a a' : Assembly} {t : NativeType} :
    (popType op : Assembler ε NativeType).run a = (.ok t, a') ↔
      ∃ rest, a.stack = t :: rest ∧ a' = a.put [] rest := by
  rcases a with ⟨_, _, _ | ⟨_, _⟩, _, _, _⟩
  · simp [popType, Stateful.run_bind, refuse]
  · simp [popType, Stateful.run_bind, Assembly.put, Except.map, eq_comm]

theorem popExpect_eq_ok {expected : NativeType} {op : String} {a a' : Assembly} {t : NativeType} :
    (popExpect expected op : Assembler ε NativeType).run a = (.ok t, a') ↔
      ∃ rest, a.stack = t :: rest ∧ t.assignableTo expected = true ∧ a' = a.put [] rest := by
  simp only [popExpect, Stateful.bind_eq_ok, popType_eq_ok]
  constructor
  · rintro ⟨found, _, ⟨rest, hs, rfl⟩, h⟩
    split at h
    · rename_i fits
      simp only [Stateful.run_pure, Stateful.result_eq_iff, Except.ok.injEq] at h
      obtain ⟨rfl, rfl⟩ := h
      exact ⟨rest, hs, fits, rfl⟩
    · simp [refuse] at h
  · rintro ⟨rest, hs, fits, rfl⟩
    exact ⟨t, _, ⟨rest, hs, rfl⟩, by simp [fits]⟩

theorem forM_popExpect_eq_ok {expected : List NativeType} {op : String} {a a' : Assembly} :
    (expected.forM fun type => (do let _ ← popExpect type op : Assembler ε Unit)).run a
        = (.ok (), a') ↔
      ∃ found rest, a.stack = found ++ rest ∧ Fits found expected ∧ a' = a.put [] rest := by
  induction expected generalizing a with
  | nil =>
      simp only [List.forM_eq_forM, List.forM_nil, Stateful.run_pure, Stateful.result_eq_iff, true_and]
      constructor
      · rintro rfl
        exact ⟨[], _, rfl, .nil, by simp [Assembly.put]⟩
      · rintro ⟨_, rest, hs, ⟨⟩, rfl⟩
        simp only [List.nil_append] at hs
        rw [← hs, Assembly.put_nil_stack]
  | cons expected more ih =>
      simp only [List.forM_eq_forM] at ih ⊢
      simp only [List.forM_cons, Stateful.bind_eq_ok, popExpect_eq_ok, ih, Stateful.run_pure]
      constructor
      · rintro ⟨_, _, ⟨t, _, ⟨rest, hs, fits, rfl⟩, h⟩, found, rest', hs', all, rfl⟩
        cases h
        refine ⟨t :: found, rest', ?_, .cons fits all, by simp⟩
        simpa [hs] using hs'
      · rintro ⟨_, rest, hs, all, rfl⟩
        cases all with
        | @cons t _ found _ fits all =>
            exact ⟨(), a.put [] (found ++ rest), ⟨t, _, ⟨_, hs, fits, rfl⟩, rfl⟩,
              found, rest, rfl, all, by simp⟩

theorem popOperands_eq_ok {expected : List NativeType} {op : String} {u : Unit}
    {a a' : Assembly} :
    (popOperands expected op : Assembler ε Unit).run a = (.ok u, a') ↔
      ∃ found rest, a.stack = found ++ rest ∧ Fits found expected.reverse ∧
        a' = a.put [] rest :=
  forM_popExpect_eq_ok

theorem popTest_eq_ok {test : Test} {u : Unit} {a a' : Assembly} :
    (popTest test : Assembler ε Unit).run a = (.ok u, a') ↔
      ∃ found rest, a.stack = found ++ rest ∧ Fits found test.operands.reverse ∧
        a' = a.put [] rest :=
  forM_popExpect_eq_ok

theorem top_eq_ok {a a' : Assembly} {t : NativeType} :
    (top : Assembler ε NativeType).run a = (.ok t, a') ↔ ∃ rest, a.stack = t :: rest ∧ a' = a := by
  rcases a with ⟨_, _, _ | ⟨_, _⟩, _, _, _⟩
  · simp [top, Stateful.run_bind, refuse]
  · simp [top, Stateful.run_bind, eq_comm]

omit [OfEmitError ε] in
@[simp] theorem run_pushType (t : NativeType) (a : Assembly) :
    (pushType t : Assembler ε Unit).run a = (.ok (), a.put [] (t :: a.stack)) := by
  simp [pushType, Assembly.push, Assembly.put]

omit [OfEmitError ε] in
@[simp] theorem run_emit (op : Op) (a : Assembly) :
    (emit op : Assembler ε Unit).run a = (.ok (), a.put [op] a.stack) := rfl

def pushResult : Option NativeType → Assembler ε Unit
  | some result => pushType result
  | none => pure ()

omit [OfEmitError ε] in
theorem run_pushResult (returns : Option NativeType) (a : Assembly) :
    (pushResult returns : Assembler ε Unit).run a =
      (.ok (), a.put [] (returns.toList ++ a.stack)) := by
  cases returns with
  | none => simp [pushResult, Assembly.put_nil_stack]
  | some result => simp [pushResult]

theorem applyCall_eq (m : Method) :
    (applyCall m : Assembler ε Unit) =
      (m.operands.forM fun type => do
        let _ ← popExpect type ("call " ++ m.owner.render ++ "." ++ m.name)) >>=
      fun _ => pushResult m.returns := by
  cases static : m.isStatic <;> cases returns : m.returns <;>
    simp [applyCall, popOperands, Method.operands, pushResult, static, returns]

theorem applyCall_eq_ok {m : Method} {u : Unit} {a a' : Assembly} :
    (applyCall m : Assembler ε Unit).run a = (.ok u, a') ↔
      ∃ found rest, a.stack = found ++ rest ∧ Fits found m.operands ∧
        a' = a.put [] (m.returns.toList ++ rest) := by
  rw [applyCall_eq, Stateful.bind_eq_ok]
  constructor
  · rintro ⟨⟨⟩, b, taken, pushed⟩
    obtain ⟨found, rest, hs, fits, rfl⟩ := forM_popExpect_eq_ok.mp taken
    rw [run_pushResult] at pushed
    cases pushed
    exact ⟨found, rest, hs, fits, by simp⟩
  · rintro ⟨found, rest, hs, fits, rfl⟩
    refine ⟨(), a.put [] rest, forM_popExpect_eq_ok.mpr ⟨found, rest, hs, fits, rfl⟩, ?_⟩
    rw [run_pushResult]
    simp

/-! What each directive writes, and when it is accepted. -/

omit [OfEmitError ε] in
theorem run_pushConst (c : Constant) (a : Assembly) :
    (pushConst c : Assembler ε Unit).run a = (.ok (), a.put [.push c] (c.type :: a.stack)) := by
  simp [pushConst, Stateful.run_bind]

omit [OfEmitError ε] in
theorem run_load (l : Local) (a : Assembly) :
    (load l : Assembler ε Unit).run a = (.ok (), a.put [.load l] (l.type :: a.stack)) := by
  simp [load, Stateful.run_bind]

omit [OfEmitError ε] in
theorem run_getStatic (f : StaticField) (a : Assembly) :
    (getStatic f : Assembler ε Unit).run a = (.ok (), a.put [.getStatic f] (f.type :: a.stack)) := by
  simp [getStatic, Stateful.run_bind]

theorem dup_eq_ok {a a' : Assembly} {u : Unit} :
    (dup : Assembler ε Unit).run a = (.ok u, a') ↔
      ∃ t rest, a.stack = t :: rest ∧ a' = a.put [.dup] (t :: t :: rest) := by
  simp only [dup, Stateful.bind_eq_ok, top_eq_ok, run_pushType, run_emit]
  constructor
  · rintro ⟨t, _, ⟨rest, stack, rfl⟩, _, _, pushed, emitted⟩
    cases pushed
    cases emitted
    exact ⟨t, rest, stack, by simp [stack]⟩
  · rintro ⟨t, rest, stack, rfl⟩
    exact ⟨t, a, ⟨rest, stack, rfl⟩, (), _, rfl, by simp [stack]⟩

theorem pop_eq_ok {a a' : Assembly} {u : Unit} :
    (pop : Assembler ε Unit).run a = (.ok u, a') ↔
      ∃ t rest, a.stack = t :: rest ∧ a' = a.put [.pop] rest := by
  simp only [pop, Stateful.bind_eq_ok, popType_eq_ok, run_emit]
  constructor
  · rintro ⟨t, _, ⟨rest, stack, rfl⟩, emitted⟩
    cases emitted
    exact ⟨t, rest, stack, by simp⟩
  · rintro ⟨t, rest, stack, rfl⟩
    exact ⟨t, _, ⟨rest, stack, rfl⟩, by simp⟩

theorem swap_eq_ok {a a' : Assembly} {u : Unit} :
    (swap : Assembler ε Unit).run a = (.ok u, a') ↔
      ∃ t t' rest, a.stack = t :: t' :: rest ∧ a' = a.put [.swap] (t' :: t :: rest) := by
  simp only [swap, Stateful.bind_eq_ok, popType_eq_ok, run_pushType, run_emit]
  constructor
  · rintro ⟨t, _, ⟨_, stack, rfl⟩, t', _, ⟨rest, stack', rfl⟩, _, _, pushed, _, _, pushed', emitted⟩
    cases pushed
    cases pushed'
    cases emitted
    rw [Assembly.put_stack] at stack'
    exact ⟨t, t', rest, stack.trans (congrArg _ stack'), by simp⟩
  · rintro ⟨t, t', rest, stack, rfl⟩
    exact ⟨t, _, ⟨_, stack, rfl⟩, t', _, ⟨rest, rfl, rfl⟩, (), _, rfl, (), _, rfl, by simp⟩

theorem store_eq_ok {l : Local} {a a' : Assembly} {u : Unit} :
    (store l : Assembler ε Unit).run a = (.ok u, a') ↔
      ∃ t rest, a.stack = t :: rest ∧ t.assignableTo l.type = true ∧ a' = a.put [.store l] rest := by
  simp only [store, Stateful.bind_eq_ok, popExpect_eq_ok, run_emit]
  constructor
  · rintro ⟨t, _, ⟨rest, stack, fits, rfl⟩, emitted⟩
    cases emitted
    exact ⟨t, rest, stack, fits, by simp⟩
  · rintro ⟨t, rest, stack, fits, rfl⟩
    exact ⟨t, _, ⟨rest, stack, fits, rfl⟩, by simp⟩

theorem increment_eq_ok {l : Local} {delta : Int32} {a a' : Assembly} {u : Unit} :
    (increment l delta : Assembler ε Unit).run a = (.ok u, a') ↔
      l.type = .int ∧ a' = a.put [.increment l delta] a.stack := by
  unfold increment
  split
  · rename_i int
    simp [int, eq_comm]
  · rename_i other
    simp [other, refuse]

theorem applyCall_emit_eq_ok {m : Method} {op : Op} {a a' : Assembly} {u : Unit} :
    (applyCall m >>= fun _ => emit op : Assembler ε Unit).run a = (.ok u, a') ↔
      ∃ found rest, a.stack = found ++ rest ∧ Fits found m.operands ∧
        a' = a.put [op] (m.returns.toList ++ rest) := by
  simp only [Stateful.bind_eq_ok, applyCall_eq_ok, run_emit]
  constructor
  · rintro ⟨⟨⟩, _, ⟨found, rest, stack, fits, rfl⟩, emitted⟩
    cases emitted
    exact ⟨found, rest, stack, fits, by simp⟩
  · rintro ⟨found, rest, stack, fits, rfl⟩
    exact ⟨(), _, ⟨found, rest, stack, fits, rfl⟩, by simp⟩

theorem invoke_eq_ok {m : Method} {a a' : Assembly} {u : Unit} :
    (invoke m : Assembler ε Unit).run a = (.ok u, a') ↔
      ∃ found rest, a.stack = found ++ rest ∧ Fits found m.operands ∧
        a' = a.put [.invoke m] (m.returns.toList ++ rest) :=
  applyCall_emit_eq_ok

theorem suspend_eq_ok {m : Method} {a a' : Assembly} {u : Unit} :
    (suspend m : Assembler ε Unit).run a = (.ok u, a') ↔
      ∃ found rest, a.stack = found ++ rest ∧ Fits found m.operands ∧
        a' = a.put [.suspend m] (m.returns.toList ++ rest) :=
  applyCall_emit_eq_ok

theorem convert_eq_ok {target : NativeType} {a a' : Assembly} {u : Unit} :
    (convert target : Assembler ε Unit).run a = (.ok u, a') ↔
      ∃ t rest, a.stack = t :: rest ∧ (t = target ∨ t.isNumeric = true ∧ target.isNumeric = true) ∧
        a' = if t = target then a else a.put [.convert t target] (target :: rest) := by
  simp only [convert, Stateful.bind_eq_ok, popType_eq_ok]
  constructor
  · rintro ⟨t, _, ⟨rest, stack, rfl⟩, run⟩
    refine ⟨t, rest, stack, ?_⟩
    split at run
    · rename_i same
      rw [run_pushType, Assembly.put_put, Assembly.put_stack, ← stack, List.append_nil,
        Assembly.put_nil_stack] at run
      cases run
      exact ⟨.inl same, (if_pos same).symm⟩
    · rename_i differ
      split at run
      · simp [refuse] at run
      · split at run
        · simp [refuse] at run
        · rename_i numeric numeric'
          rw [Stateful.run_bind_ok (run_pushType _ _), run_emit] at run
          cases run
          refine ⟨.inr ⟨by simpa using numeric, by simpa using numeric'⟩, ?_⟩
          rw [if_neg differ]
          simp
  · rintro ⟨t, rest, stack, fits, rfl⟩
    refine ⟨t, _, ⟨rest, stack, rfl⟩, ?_⟩
    by_cases same : t = target
    · rw [if_pos same, if_pos same, run_pushType, Assembly.put_put, Assembly.put_stack, ← stack,
        List.append_nil, Assembly.put_nil_stack]
    · obtain ⟨numeric, numeric'⟩ := fits.resolve_left same
      rw [if_neg same, if_neg same, numeric, numeric']
      simp [Stateful.run_bind]

/-- A cast takes a reference. It writes nothing if the type on top can stand for the target already;
null, which has no class, is checked all the same. -/
theorem checkCast_eq_ok {r : RefType} {a a' : Assembly} {u : Unit} :
    (checkCast r : Assembler ε Unit).run a = (.ok u, a') ↔
      ∃ t rest, a.stack = t :: rest ∧ t.assignableTo (.ref .object) = true ∧
        a' = if t.assignableTo (.ref r) = true ∧ t ≠ .null then a
          else a.put [.checkCast r] (.ref r :: rest) := by
  have written : ∀ t rest, a.stack = t :: rest →
      (if t.assignableTo (.ref r) && t ≠ .null then pushType t
        else do
          pushType (.ref r)
          emit (.checkCast r) : Assembler ε Unit).run (a.put [] rest) =
        (.ok (), if t.assignableTo (.ref r) = true ∧ t ≠ .null then a
          else a.put [.checkCast r] (.ref r :: rest)) := by
    intro t rest stack
    by_cases up : t.assignableTo (.ref r) = true ∧ t ≠ .null
    · rw [if_pos (by simpa using up), if_pos up, run_pushType, Assembly.put_put, Assembly.put_stack,
        ← stack, List.append_nil, Assembly.put_nil_stack]
    · rw [if_neg (by simpa using up), if_neg up, Stateful.run_bind_ok (run_pushType _ _), run_emit]
      simp
  simp only [checkCast, Stateful.bind_eq_ok, popExpect_eq_ok]
  constructor
  · rintro ⟨t, _, ⟨rest, stack, fits, rfl⟩, run⟩
    rw [written t rest stack] at run
    cases run
    exact ⟨t, rest, stack, fits, rfl⟩
  · rintro ⟨t, rest, stack, fits, rfl⟩
    exact ⟨t, _, ⟨rest, stack, fits, rfl⟩, written t rest stack⟩

theorem boxPrimitive_eq_ok {a a' : Assembly} {u : Unit} :
    (boxPrimitive : Assembler ε Unit).run a = (.ok u, a') ↔
      ∃ t rest, a.stack = t :: rest ∧ t.isPrimitive = true ∧
        a' = a.put [.box t] (.ref (.wrapper t) :: rest) := by
  simp only [boxPrimitive, Stateful.bind_eq_ok, popType_eq_ok]
  constructor
  · rintro ⟨t, _, ⟨rest, stack, rfl⟩, run⟩
    split at run
    · rename_i primitive
      rw [Stateful.run_bind_ok (run_pushType _ _), run_emit] at run
      cases run
      exact ⟨t, rest, stack, primitive, by simp⟩
    · simp [refuse] at run
  · rintro ⟨t, rest, stack, primitive, rfl⟩
    exact ⟨t, _, ⟨rest, stack, rfl⟩, by simp [primitive, Stateful.run_bind]⟩

end Assembler

namespace Directive

open Assembler

variable {ε : Type} [OfEmitError ε]

/-- A successful call writes nothing and changes nothing, or writes one instruction with its effect. -/
theorem write_eq_ok {d : Directive} {a a' : Assembly}
    (h : (d.write : Assembler ε Unit).run a = (.ok (), a')) :
    a' = a ∧ d.event? = none ∨
      ∃ op stack, a' = a.put [op] stack ∧ op.Effect a.stack stack ∧ op.event? = d.event? := by
  cases d with
  | push c =>
      cases (run_pushConst c a).symm.trans h
      exact .inr ⟨_, _, rfl, .push c a.stack, rfl⟩
  | dup =>
      obtain ⟨t, rest, stack, rfl⟩ := dup_eq_ok.mp h
      refine .inr ⟨.dup, _, rfl, ?_, rfl⟩
      rw [stack]
      exact .dup t rest
  | pop =>
      obtain ⟨t, rest, stack, rfl⟩ := pop_eq_ok.mp h
      refine .inr ⟨.pop, _, rfl, ?_, rfl⟩
      rw [stack]
      exact .pop t rest
  | swap =>
      obtain ⟨t, t', rest, stack, rfl⟩ := swap_eq_ok.mp h
      refine .inr ⟨.swap, _, rfl, ?_, rfl⟩
      rw [stack]
      exact .swap t t' rest
  | load l =>
      cases (run_load l a).symm.trans h
      exact .inr ⟨_, _, rfl, .load l a.stack, rfl⟩
  | store l =>
      obtain ⟨t, rest, stack, fits, rfl⟩ := store_eq_ok.mp h
      refine .inr ⟨.store l, _, rfl, ?_, rfl⟩
      rw [stack]
      exact .store l rest fits
  | increment l delta =>
      obtain ⟨int, rfl⟩ := increment_eq_ok.mp h
      exact .inr ⟨_, _, rfl, .increment l delta a.stack int, rfl⟩
  | invoke m =>
      obtain ⟨found, rest, stack, fits, rfl⟩ := invoke_eq_ok.mp h
      refine .inr ⟨.invoke m, _, rfl, ?_, rfl⟩
      rw [stack]
      exact .invoke m rest fits
  | suspend m =>
      obtain ⟨found, rest, stack, fits, rfl⟩ := suspend_eq_ok.mp h
      refine .inr ⟨.suspend m, _, rfl, ?_, rfl⟩
      rw [stack]
      exact .suspend m rest fits
  | getStatic f =>
      cases (run_getStatic f a).symm.trans h
      exact .inr ⟨_, _, rfl, .getStatic f a.stack, rfl⟩
  | convert target =>
      obtain ⟨t, rest, stack, fits, rfl⟩ := convert_eq_ok.mp h
      split
      · exact .inl ⟨rfl, rfl⟩
      · rename_i differ
        obtain ⟨numeric, numeric'⟩ := fits.resolve_left differ
        refine .inr ⟨.convert t target, _, rfl, ?_, rfl⟩
        rw [stack]
        exact .convert rest numeric numeric'
  | checkCast target =>
      obtain ⟨t, rest, stack, fits, rfl⟩ := checkCast_eq_ok.mp h
      split
      · exact .inl ⟨rfl, rfl⟩
      · refine .inr ⟨.checkCast target, _, rfl, ?_, rfl⟩
        rw [stack]
        exact .checkCast target rest fits
  | box =>
      obtain ⟨t, rest, stack, primitive, rfl⟩ := boxPrimitive_eq_ok.mp h
      refine .inr ⟨.box t, _, rfl, ?_, rfl⟩
      rw [stack]
      exact .box rest primitive

end Directive

end MessageCode
