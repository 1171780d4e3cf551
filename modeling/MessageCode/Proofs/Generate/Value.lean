import MessageCode.Proofs.Generate.Turns

/-!
Values whose code takes one input and turns it into the value.
-/

namespace MessageCode

theorem Assembler.expression_eq_ok {inputs : List NativeType} {nonNull : Bool}
    {steps : Assembler GenerateError Unit} {code : Sequence}
    (finished : Assembler.expression inputs nonNull steps = .ok code) :
    ∃ a, steps.run (.start inputs) = (.ok (), a) ∧ a.finishExpression nonNull = .ok code := by
  unfold Assembler.expression at finished
  rcases run : steps.run (.start inputs) with ⟨e | ⟨⟨⟩⟩, a⟩
  · rw [run] at finished
    cases finished
  · rw [run] at finished
    refine ⟨a, rfl, ?_⟩
    dsimp only at finished
    cases last : a.finishExpression nonNull with
    | error e =>
        rw [last] at finished
        cases finished
    | ok written =>
        rw [last] at finished
        cases finished
        rfl

namespace TypedValue

theorem eq_of_ofSequence {code : Sequence} {type : ValueType} {v : TypedValue}
    (made : ofSequence code type = .ok v) : v.code = code ∧ v.type = type := by
  unfold ofSequence at made
  split at made
  · cases made
    exact ⟨rfl, rfl⟩
  · cases made

theorem assemble_eq_ok {inputs : List NativeType} {nonNull : Bool} {type : ValueType}
    {steps : Assembler GenerateError Unit} {v : TypedValue}
    (assembled : assemble inputs nonNull type steps = .ok v) :
    v.type = type ∧
    ∃ a, steps.run (.start inputs) = (.ok (), a) ∧ a.finishExpression nonNull = .ok v.code := by
  unfold assemble at assembled
  cases finished : Assembler.expression inputs nonNull steps with
  | error e =>
      rw [finished] at assembled
      cases assembled
  | ok code =>
      rw [finished] at assembled
      obtain ⟨same, type⟩ := eq_of_ofSequence assembled
      rw [same]
      exact ⟨type, Assembler.expression_eq_ok finished⟩

theorem assemble_of_run {inputs : List NativeType} {steps : Assembler GenerateError Unit} {a : Assembly}
    {t : NativeType} (run : steps.run (.start inputs) = (.ok (), a)) (stack : a.stack = [t]) (nonNull : Bool)
    (type : ValueType) : assemble inputs nonNull type steps =
      .ok ⟨⟨a.ops, a.inputs, some t, nonNull, a.maxLocals⟩, t, type, rfl⟩ := by
  have finished : a.finishExpression nonNull = .ok _ :=
    Assembly.finishExpression_eq_ok.mpr ⟨t, stack, rfl⟩
  have expression : Assembler.expression inputs nonNull steps =
      .ok ⟨a.ops, a.inputs, some t, nonNull, a.maxLocals⟩ := by
    unfold Assembler.expression
    rw [run]
    dsimp only
    rw [finished]
    rfl
  unfold assemble
  rw [expression]
  rfl

/-- The code of the value takes an input of the type and acts on it. -/
structure Converts (host : Host) (v : TypedValue) (t : NativeType) (act : Value → Run Value) : Prop where
  inputs : v.code.inputs = [t]
  acts : Acts host v.code.ops act

variable {host : Host} {v : TypedValue} {t t' : NativeType} {act : Value → Run Value}
  {steps : Assembler GenerateError Unit}

/-- Steps that turn an input into a value make a value of them. -/
theorem assemble_converts (h : Turns host t t' steps act) (nonNull : Bool) (type : ValueType) :
    ∃ v, assemble [t] nonNull type steps = .ok v ∧ v.Converts host t act ∧ v.native = t' ∧
      v.type = type ∧ v.code.nonNull = nonNull := by
  obtain ⟨ops, a, run, wrote, acts⟩ := h (.start [t]) [] rfl
  refine ⟨_, assemble_of_run run wrote.stack nonNull type, ⟨wrote.inputs, ?_⟩, rfl, rfl, rfl⟩
  rw [wrote.ops]
  exact acts

theorem input_converts (host : Host) (type : ValueType) (boxed nullable : Bool) :
    ∃ v, input type boxed nullable = .ok v ∧
      v.Converts host (if boxed then type.boxedType else type.nativeType) pure ∧
      v.native = (if boxed then type.boxedType else type.nativeType) ∧ v.type = type ∧
      v.code.nonNull = !nullable :=
  assemble_converts .pure (!nullable) type

/-- The code of a value can be spliced where its input is on top. -/
theorem Converts.turns (h : v.Converts host t act) :
    Turns host t v.native (Assembler.append v.code) act := by
  intro a rest stack
  have fits : Fits [t] v.code.inputs.reverse := by
    rw [h.inputs]
    exact .refl _
  have run := (Assembler.append_eq_ok (ε := GenerateError) (u := ())).mpr
    ⟨[t], rest, stack, fits, rfl⟩
  refine ⟨v.code.ops, _, run, ⟨?_, ?_, rfl, rfl, rfl, le_max_left ..⟩, h.acts⟩
  · exact congrArg _ (h.acts.free a.nextLocal)
  · rw [v.output_eq]
    rfl

/-- Running the value on an input does what its code does to it. -/
theorem Converts.runOn_eq (h : v.Converts host t act) (fuel : Nat) (x : Value) :
    v.code.runOn host fuel [x] = some <$> act x := by
  have count : ¬[x].length ≠ v.code.inputs.length := by simp [h.inputs]
  rw [Sequence.runOn, if_neg count]
  change Op.execAll host fuel v.code.ops ⟨[x], List.replicate v.code.maxLocals .null⟩ >>= _ = _
  rw [h.acts.exec, bind_assoc, ← bind_pure_comp]
  refine congrArg _ (funext fun w => ?_)
  rw [pure_bind, v.output_eq]
  rfl

end TypedValue

end MessageCode
