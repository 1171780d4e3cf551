import MessageCode.Generate.TypedValue
import Mathlib.Data.Nat.Basic
import Mathlib.Order.MinMax
import MessageCode.Proofs.Code.Assembled
import MessageCode.Proofs.Machine.Exec

/-!
Steps that turn the value on top of the stack into another one. What they write acts on that value
alone, uses no locals, and can be spliced anywhere, so that such steps compose by their actions.
-/

namespace MessageCode

/-- The second assembly has some code more than the first and another stack, and the same regions. -/
structure Wrote (a : Assembly) (ops : List Op) (stack : List NativeType) (a' : Assembly) : Prop where
  ops : a'.ops = a.ops ++ ops
  stack : a'.stack = stack
  inputs : a'.inputs = a.inputs
  nextLocal : a'.nextLocal = a.nextLocal
  declared : a'.declared = a.declared
  maxLocals : a.maxLocals ≤ a'.maxLocals

namespace Wrote

variable {a b c : Assembly} {ops ops' : List Op} {stack stack' : List NativeType}

theorem put (a : Assembly) (ops : List Op) (stack : List NativeType) :
    Wrote a ops stack (a.put ops stack) :=
  ⟨rfl, rfl, rfl, rfl, rfl, le_rfl⟩

theorem nothing (same : a.stack = stack) : Wrote a [] stack a :=
  ⟨(List.append_nil _).symm, same, rfl, rfl, rfl, le_rfl⟩

theorem trans (h : Wrote a ops stack b) (h' : Wrote b ops' stack' c) :
    Wrote a (ops ++ ops') stack' c where
  ops := by rw [h'.ops, h.ops, List.append_assoc]
  stack := h'.stack
  inputs := h'.inputs.trans h.inputs
  nextLocal := h'.nextLocal.trans h.nextLocal
  declared := h'.declared.trans h.declared
  maxLocals := h.maxLocals.trans h'.maxLocals

/-- A branch between two arms that were written from the same point. -/
theorem branch {rest left right : List NativeType} {thenOps elseOps : List Op}
    (h : Wrote (a.put [] rest).fork thenOps left b)
    (h' : Wrote (a.put [] rest).fork elseOps right c) (test : Test) (stack : List NativeType) :
    Wrote a [.branch test thenOps elseOps] stack
      ((((a.put [] rest).adopt b).adopt c).put [.branch test b.ops c.ops] stack) where
  ops := by
    rw [h.ops, h'.ops]
    simp
  stack := rfl
  inputs := rfl
  nextLocal := by simp [Assembly.adopt, Assembly.put, h.nextLocal, h'.nextLocal, Assembly.fork]
  declared := by simp [Assembly.adopt, Assembly.put, h.declared, h'.declared, Assembly.fork]
  maxLocals := by simp [Assembly.adopt, Assembly.put]

end Wrote

/-- The code has no locals, so that relocation leaves it as it is. -/
def LocalFree (ops : List Op) : Prop := ∀ offset, Op.relocateAll offset ops = ops

namespace LocalFree

theorem nil : LocalFree [] := fun _ => rfl

theorem append {ops more : List Op} (h : LocalFree ops) (h' : LocalFree more) :
    LocalFree (ops ++ more) := by
  intro offset
  rw [Recorded.relocateAll_append, h offset, h' offset]

theorem branch {thenOps elseOps : List Op} (h : LocalFree thenOps) (h' : LocalFree elseOps)
    (test : Test) : LocalFree [.branch test thenOps elseOps] := by
  intro offset
  rw [Op.relocateAll, Op.relocate, h offset, h' offset]
  rfl

end LocalFree

/-- The code acts on the value on top and on nothing else of the frame. -/
structure Acts (host : Host) (ops : List Op) (act : Value → Run Value) : Prop where
  free : LocalFree ops
  exec : ∀ fuel v stack locals, Op.execAll host fuel ops ⟨v :: stack, locals⟩ =
    act v >>= fun w => pure ⟨w :: stack, locals⟩

namespace Acts

variable {host : Host} {ops more : List Op} {act act' : Value → Run Value}

theorem nil : Acts host [] pure :=
  ⟨.nil, fun _ _ _ _ => (pure_bind ..).symm⟩

theorem append (h : Acts host ops act) (h' : Acts host more act') :
    Acts host (ops ++ more) (fun v => act v >>= act') where
  free := h.free.append h'.free
  exec fuel v stack locals := by
    rw [Op.execAll_append, h.exec, bind_assoc, bind_assoc]
    refine congrArg _ (funext fun w => ?_)
    rw [pure_bind, h'.exec]

theorem singleton {op : Op} (free : ∀ offset, op.relocate offset = op)
    (exec : ∀ fuel v stack locals, op.exec host fuel ⟨v :: stack, locals⟩ =
      act v >>= fun w => pure ⟨w :: stack, locals⟩) : Acts host [op] act where
  free offset := by rw [Op.relocateAll, Op.relocateAll, free]
  exec fuel v stack locals := by rw [Op.execAll_singleton, exec]

end Acts

/-- The steps turn a value of the first type on top into one of the second. -/
def Turns (host : Host) (t t' : NativeType) (steps : Assembler GenerateError Unit)
    (act : Value → Run Value) : Prop :=
  ∀ a rest, a.stack = t :: rest →
    ∃ ops a', steps.run a = (.ok (), a') ∧ Wrote a ops (t' :: rest) a' ∧ Acts host ops act

/-- The steps find out whether a test holds of the value on top, and take it. -/
def Decides (host : Host) (t : NativeType) (steps : Assembler GenerateError Test) (test : Test)
    (holds : Value → Run Bool) : Prop :=
  ∀ a rest, a.stack = t :: rest →
    ∃ ops a' found, steps.run a = (.ok test, a') ∧ Wrote a ops (found ++ rest) a' ∧
      Fits found test.operands.reverse ∧ LocalFree ops ∧
      ∀ fuel v stack locals thenPart elsePart,
        Op.execAll host fuel ops ⟨v :: stack, locals⟩ >>= Op.choose test thenPart elsePart =
          holds v >>= fun b => (if b = true then thenPart else elsePart) ⟨stack, locals⟩

namespace Turns

variable {host : Host} {t t' t'' : NativeType} {steps more : Assembler GenerateError Unit}
  {act act' : Value → Run Value}

theorem pure : Turns host t t (Pure.pure ()) Pure.pure :=
  fun a _ stack => ⟨[], a, rfl, .nothing stack, .nil⟩

theorem seq (h : Turns host t t' steps act) (h' : Turns host t' t'' more act') :
    Turns host t t'' (steps >>= fun _ => more) (fun v => act v >>= act') := by
  intro a rest stack
  obtain ⟨ops, b, run, wrote, acts⟩ := h a rest stack
  obtain ⟨ops', c, run', wrote', acts'⟩ := h' b rest wrote.stack
  exact ⟨_, c, by rw [Stateful.run_bind_ok run, run'], wrote.trans wrote', acts.append acts'⟩

theorem top {steps : NativeType → Assembler GenerateError Unit} (h : Turns host t t' (steps t) act) :
    Turns host t t' (Assembler.top >>= steps) act := by
  intro a rest stack
  obtain ⟨ops, b, run, wrote, acts⟩ := h a rest stack
  refine ⟨ops, b, ?_, wrote, acts⟩
  rw [Stateful.run_bind_ok (Assembler.top_eq_ok.mpr ⟨rest, stack, rfl⟩), run]

theorem singleton {op : Op}
    (run : ∀ a rest, a.stack = t :: rest → steps.run a = (.ok (), a.put [op] (t' :: rest)))
    (acts : Acts host [op] act) : Turns host t t' steps act :=
  fun a rest stack => ⟨[op], _, run a rest stack, .put .., acts⟩

theorem convert_self : Turns host t t (Assembler.convert t) Pure.pure := by
  intro a rest stack
  exact ⟨[], a, Assembler.convert_eq_ok.mpr ⟨t, rest, stack, .inl rfl, (if_pos rfl).symm⟩,
    Wrote.nothing stack, .nil⟩

theorem convert (apart : t ≠ t') (numeric : t.isNumeric = true) (numeric' : t'.isNumeric = true) :
    Turns host t t' (Assembler.convert t') (fun v => Run.ofExcept (v.convert t')) := by
  have acts : Acts host [.convert t t'] (fun v => Run.ofExcept (v.convert t')) :=
    .singleton (fun _ => rfl) fun fuel v stack locals => Op.exec_convert ..
  refine singleton (fun a rest stack => ?_) acts
  exact Assembler.convert_eq_ok.mpr
    ⟨t, rest, stack, .inr ⟨numeric, numeric'⟩, (if_neg apart).symm⟩

/-- A cast to a supertype is no step. -/
theorem checkCast_upcast {r : RefType} (fits : t.assignableTo (.ref r) = true)
    (object : t.assignableTo (.ref .object) = true) (present : t ≠ .null) :
    Turns host t t (Assembler.checkCast r) Pure.pure := by
  intro a rest stack
  exact ⟨[], a, Assembler.checkCast_eq_ok.mpr ⟨t, rest, stack, object, (if_pos ⟨fits, present⟩).symm⟩,
    Wrote.nothing stack, .nil⟩

def castTo (r : RefType) (v : Value) : Run Value :=
  if v.isInstance r then Pure.pure v else Run.fault (.classCast r.render v.typeName)

/-- A cast leaves the values of its type. -/
theorem castTo_of_isInstance {r : RefType} {v : Value} (belongs : v.isInstance r = true) :
    castTo r v = Pure.pure v :=
  if_pos belongs

theorem castTo_message {name : String} {data : MessageData} (typeName : data.typeName = name)
    (id : ObjectId) :
    castTo (.message name) (.ref id (.message data)) = Pure.pure (.ref id (.message data)) :=
  castTo_of_isInstance (by simp [Value.isInstance, Object.isInstance, typeName])

theorem castTo_builder (message : String) (id : ObjectId) :
    castTo (.builder message) (.ref id (.builder message)) = Pure.pure (.ref id (.builder message)) :=
  castTo_of_isInstance (by simp [Value.isInstance, Object.isInstance])

theorem castTo_enumConst (name : String) (n : Int32) (id : ObjectId) :
    castTo (.enum name) (.ref id (.enumConst name n)) = Pure.pure (.ref id (.enumConst name n)) :=
  castTo_of_isInstance (by simp [Value.isInstance, Object.isInstance])

theorem checkCast {r : RefType} (object : t.assignableTo (.ref .object) = true)
    (down : t.assignableTo (.ref r) = false ∨ t = .null) :
    Turns host t (.ref r) (Assembler.checkCast r) (castTo r) := by
  have acts : Acts host [.checkCast r] (castTo r) := by
    refine .singleton (fun _ => rfl) fun fuel v stack locals => ?_
    rw [Op.exec_checkCast, castTo]
    split <;> rfl
  have checked : ¬(t.assignableTo (.ref r) = true ∧ t ≠ .null) := by
    rcases down with down | down <;> simp [down]
  refine singleton (fun a rest stack => ?_) acts
  exact Assembler.checkCast_eq_ok.mpr ⟨t, rest, stack, object, (if_neg checked).symm⟩

end Turns

def Method.act (host : Host) (m : Method) (operands : List Value) : Run Value :=
  Run.ofExcept (m.callOn operands) >>= perform host false

def Pushes (host : Host) (t : NativeType) (steps : Assembler GenerateError Unit)
    (get : Run Value) : Prop :=
  ∀ a, ∃ ops a', steps.run a = (.ok (), a') ∧ Wrote a ops (t :: a.stack) a' ∧ LocalFree ops ∧
    ∀ fuel stack locals, Op.execAll host fuel ops ⟨stack, locals⟩ =
      get >>= fun w => pure ⟨w :: stack, locals⟩

namespace Method

variable {host : Host} {m : Method} {t : NativeType} {taken : List Value} {found : List NativeType}

theorem run_invoke {ε : Type} [OfEmitError ε] {a : Assembly} {rest : List NativeType}
    (returns : m.returns = some t) (stack : a.stack = found ++ rest) (fits : Fits found m.operands) :
    (Assembler.invoke m : Assembler ε Unit).run a = (.ok (), a.put [.invoke m] (t :: rest)) := by
  refine Assembler.invoke_eq_ok.mpr ⟨found, rest, stack, fits, ?_⟩
  rw [returns]
  rfl

theorem exec_invoke (returns : m.returns = some t) (height : taken.length = m.arity) (fuel : Nat)
    (rest locals : List Value) :
    (Op.invoke m).exec host fuel ⟨taken ++ rest, locals⟩ =
      m.act host taken >>= fun w => pure ⟨w :: rest, locals⟩ := by
  change m.exec host false ⟨taken ++ rest, locals⟩ = _
  rw [exec_append height, act, bind_assoc]
  simp [results, returns]

theorem localFree_invoke (m : Method) : LocalFree [.invoke m] := fun _ => rfl

end Method

namespace Pushes

variable {host : Host}

theorem const (c : Constant) :
    Pushes host c.type (Assembler.pushConst c) (monadLift c.load : Run Value) := by
  intro a
  refine ⟨_, _, Assembler.run_pushConst c a, .put .., fun _ => rfl, ?_⟩
  intro fuel stack locals
  rw [Op.execAll_singleton, Op.exec_push]

def readStatic (host : Host) (f : StaticField) : Run Value :=
  Run.ofExcept (host.static f) >>= fun object => (monadLift (Machine.alloc object) : Run Value)

theorem getStatic (f : StaticField) :
    Pushes host f.type (Assembler.getStatic f) (readStatic host f) := by
  intro a
  refine ⟨_, _, Assembler.run_getStatic f a, .put .., fun _ => rfl, ?_⟩
  intro fuel stack locals
  rw [Op.execAll_singleton, Op.exec_getStatic, readStatic, bind_assoc]

theorem invoke {m : Method} {t : NativeType} (returns : m.returns = some t)
    (operands : m.operands = []) : Pushes host t (Assembler.invoke m) (m.act host []) := by
  intro a
  have fits : Fits [] m.operands := by
    rw [operands]
    exact .nil
  refine ⟨_, _, m.run_invoke returns (List.nil_append _).symm fits, .put ..,
    m.localFree_invoke, ?_⟩
  intro fuel stack locals
  have height : ([] : List Value).length = m.arity := by rw [← m.operands_length, operands]; rfl
  rw [Op.execAll_singleton]
  exact m.exec_invoke returns height fuel stack locals

end Pushes

namespace Turns

variable {host : Host} {t t' p r : NativeType} {steps : Assembler GenerateError Unit}
  {get : Run Value} {m : Method}

theorem invoke (returns : m.returns = some r) (fits : Fits [t] m.operands) :
    Turns host t r (Assembler.invoke m) (fun v => m.act host [v]) := by
  have height : ∀ v : Value, [v].length = m.arity := by
    intro v
    rw [← m.operands_length, ← fits.length_eq]
    rfl
  refine singleton (fun a rest stack => m.run_invoke returns stack fits) ?_
  exact .singleton (fun _ => rfl) fun fuel v stack locals => m.exec_invoke returns (height v) ..

/-- A call whose last argument is pushed before it. -/
theorem pushInvoke (h : Pushes host p steps get) (returns : m.returns = some r)
    (fits : Fits [p, t] m.operands) :
    Turns host t r (steps >>= fun _ => Assembler.invoke m)
      (fun v => get >>= fun w => m.act host [w, v]) := by
  have height : ∀ v w : Value, [w, v].length = m.arity := by
    intro v w
    rw [← m.operands_length, ← fits.length_eq]
    rfl
  intro a rest stack
  obtain ⟨ops, b, run, wrote, free, exec⟩ := h a
  have stack' : b.stack = [p, t] ++ rest := by rw [wrote.stack, stack]; rfl
  refine ⟨_, _, by rw [Stateful.run_bind_ok run, m.run_invoke returns stack' fits],
    wrote.trans (.put ..), free.append m.localFree_invoke, ?_⟩
  intro fuel v stack locals
  rw [Op.execAll_append, exec, bind_assoc, bind_assoc]
  refine congrArg _ (funext fun w => ?_)
  rw [pure_bind, Op.execAll_singleton]
  exact m.exec_invoke returns (height v w) fuel stack locals

/-- A call whose receiver or first argument is pushed before it, below the value on top. -/
theorem pushSwapInvoke (h : Pushes host p steps get) (returns : m.returns = some r)
    (fits : Fits [t, p] m.operands) :
    Turns host t r (steps >>= fun _ => Assembler.swap >>= fun _ => Assembler.invoke m)
      (fun v => get >>= fun w => m.act host [v, w]) := by
  have height : ∀ v w : Value, [v, w].length = m.arity := by
    intro v w
    rw [← m.operands_length, ← fits.length_eq]
    rfl
  intro a rest stack
  obtain ⟨ops, b, run, wrote, free, exec⟩ := h a
  rw [stack] at wrote
  have swapped : (Assembler.swap : Assembler GenerateError Unit).run b =
      (.ok (), b.put [.swap] (t :: p :: rest)) :=
    Assembler.swap_eq_ok.mpr ⟨p, t, rest, wrote.stack, rfl⟩
  refine ⟨_, _, by rw [Stateful.run_bind_ok run, Stateful.run_bind_ok swapped,
    m.run_invoke returns rfl fits], (wrote.trans (.put ..)).trans (.put ..),
    (free.append fun _ => rfl).append m.localFree_invoke, ?_⟩
  intro fuel v stack locals
  rw [Op.execAll_append, Op.execAll_append, exec, bind_assoc, bind_assoc, bind_assoc]
  refine congrArg _ (funext fun w => ?_)
  rw [pure_bind, Op.execAll_singleton, Op.exec_swap, pure_bind, Op.execAll_singleton]
  exact m.exec_invoke returns (height v w) fuel stack locals

end Turns

theorem NativeType.merge_self (t : NativeType) : t.merge t = some t := if_pos rfl

theorem Assembler.mergeSlots_self (stack : List NativeType) :
    mergeSlots stack stack = some stack := by
  induction stack with
  | nil => rfl
  | cons t stack ih => simp [mergeSlots, NativeType.merge_self, ih]

namespace Turns

variable {host : Host} {t t₁ t₂ t' : NativeType} {thenSteps elseSteps : Assembler GenerateError Unit}
  {act act' : Value → Run Value}

theorem branch {steps : Assembler GenerateError Test} {test : Test} {holds : Value → Run Bool}
    (decides : Decides host t steps test holds) (h : Turns host t t₁ thenSteps act)
    (h' : Turns host t t₂ elseSteps act') (merge : t₁.merge t₂ = some t') :
    Turns host t t'
      (Assembler.dup >>= fun _ => steps >>= fun test => Assembler.branch test thenSteps elseSteps)
      (fun v => holds v >>= fun b => if b = true then act v else act' v) := by
  intro a rest stack
  have copied : (Assembler.dup : Assembler GenerateError Unit).run a =
      (.ok (), a.put [.dup] (t :: t :: rest)) := Assembler.dup_eq_ok.mpr ⟨t, rest, stack, rfl⟩
  obtain ⟨ops, b, found, run, wrote, fits, free, exec⟩ := decides (a.put [.dup] (t :: t :: rest)) _ rfl
  have start : (b.put [] (t :: rest)).fork.stack = t :: rest := rfl
  obtain ⟨thenOps, thenArm, thenRun, thenWrote, thenActs⟩ := h _ rest start
  obtain ⟨elseOps, elseArm, elseRun, elseWrote, elseActs⟩ := h' _ rest start
  have slots : Assembler.mergeSlots thenArm.stack elseArm.stack = some (t' :: rest) := by
    rw [thenWrote.stack, elseWrote.stack, Assembler.mergeSlots, merge, Assembler.mergeSlots_self]
    rfl
  have joined : (Assembler.branch test thenSteps elseSteps).run b = (.ok (), _) :=
    Assembler.branch_eq_ok.mpr ⟨found, t :: rest, thenArm, elseArm, t' :: rest, wrote.stack, fits,
      thenRun, elseRun, slots, rfl⟩
  refine ⟨_, _, ?_, (Wrote.put ..).trans (wrote.trans (thenWrote.branch elseWrote test _)), ?_, ?_⟩
  · rw [Stateful.run_bind_ok copied, Stateful.run_bind_ok run, joined]
  · have own : LocalFree [.branch test thenOps elseOps] :=
      thenActs.free.branch elseActs.free test
    exact LocalFree.append (fun _ => rfl) (free.append own)
  · intro fuel v stack locals
    rw [Op.execAll_append, Op.execAll_singleton, Op.exec_dup, pure_bind, Op.execAll_append]
    have branched : Op.execAll host fuel [.branch test thenOps elseOps] =
        Op.choose test (Op.execAll host fuel thenOps) (Op.execAll host fuel elseOps) :=
      funext fun frame => by rw [Op.execAll_singleton, Op.exec_branch]
    rw [branched, exec, bind_assoc]
    refine congrArg _ (funext fun holds => ?_)
    cases holds with
    | true =>
        rw [if_pos rfl, if_pos rfl]
        exact thenActs.exec fuel v stack locals
    | false =>
        rw [if_neg Bool.false_ne_true, if_neg Bool.false_ne_true]
        exact elseActs.exec fuel v stack locals

end Turns

end MessageCode
