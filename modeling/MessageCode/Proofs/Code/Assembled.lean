import MessageCode.Proofs.Code.Recorded

/-!
Programs for the assembler all of whose calls succeed: any calls in any order, with regions and
finished sequences nested to any depth. What such a program writes has a consistent record.
-/

namespace MessageCode

theorem NativeType.merge_eq_some {a b c : NativeType} (h : a.merge b = some c) :
    a.assignableTo c = true ∧ b.assignableTo c = true := by
  unfold NativeType.merge at h
  split at h
  · rename_i equal
    cases h
    exact ⟨a.assignableTo_refl, equal ▸ a.assignableTo_refl⟩
  · split at h
    · rename_i r s _
      split at h
      · rename_i fits
        cases h
        exact ⟨fits, NativeType.assignableTo_refl _⟩
      · split at h
        · rename_i fits
          cases h
          exact ⟨NativeType.assignableTo_refl _, fits⟩
        · cases h
          simp [NativeType.assignableTo, RefType.assignableTo]
    · cases h

namespace Assembler

variable {ε : Type} [OfEmitError ε]

theorem mergeSlots_eq_some {left right merged : List NativeType}
    (h : mergeSlots left right = some merged) : Fits left merged ∧ Fits right merged := by
  induction left generalizing right merged with
  | nil =>
      cases right with
      | nil =>
          cases h
          exact ⟨.nil, .nil⟩
      | cons b bs => cases h
  | cons a as ih =>
      cases right with
      | nil => cases h
      | cons b bs =>
          simp only [mergeSlots, Option.bind_eq_bind, Option.bind_eq_some_iff, Option.some.injEq,
            Option.pure_def] at h
          obtain ⟨slot, merge, rest, slots, rfl⟩ := h
          obtain ⟨leftFits, rightFits⟩ := NativeType.merge_eq_some merge
          obtain ⟨leftRest, rightRest⟩ := ih slots
          exact ⟨.cons leftFits leftRest, .cons rightFits rightRest⟩

theorem joinArms_eq_ok {test : Test} {thenArm elseArm a a' : Assembly} {u : Unit} :
    (joinArms test thenArm elseArm : Assembler ε Unit).run a = (.ok u, a') ↔
      ∃ stack, mergeSlots thenArm.stack elseArm.stack = some stack ∧
        a' = ((a.adopt thenArm).adopt elseArm).put
          [.branch test thenArm.ops elseArm.ops] stack := by
  unfold joinArms
  split
  · rename_i stack merge
    simp [merge, Assembly.put, Assembly.emit, eq_comm]
  · rename_i merge
    simp [merge, refuse]

theorem expectUnchanged_eq_ok {part : NeutralPart} {written a a' : Assembly} {u : Unit} :
    (expectUnchanged part written : Assembler ε Unit).run a = (.ok u, a') ↔
      written.stack = a.stack ∧ a' = a := by
  unfold expectUnchanged
  rw [Stateful.run_bind_ok (Stateful.run_get a)]
  by_cases same : written.stack = a.stack
  · simp [same, eq_comm]
  · simp [same, refuse]

theorem closeCondition_eq_ok {written a a' : Assembly} {test : Test} {ops : List Op} :
    (closeCondition written test : Assembler ε (List Op)).run a = (.ok ops, a') ↔
      ∃ found, written.stack = found ++ a.stack ∧ Fits found test.operands.reverse ∧
        ops = written.ops ∧ a' = a.adopt written := by
  unfold closeCondition
  split
  rename_i result condition taken
  split
  · rename_i u
    obtain ⟨found, rest, stack, fits, rfl⟩ := popTest_eq_ok.mp taken
    simp only [Stateful.bind_eq_ok, expectUnchanged_eq_ok, Stateful.run_modify,
      Stateful.run_pure, Assembly.put_stack, stack]
    constructor
    · rintro ⟨_, _, ⟨rfl, rfl⟩, _, _, h, h'⟩
      cases h
      cases h'
      exact ⟨found, rfl, fits, by simp, rfl⟩
    · rintro ⟨found', same, fits', rfl, rfl⟩
      have lengths : found.length = found'.length :=
        fits.length_eq.trans fits'.length_eq.symm
      obtain ⟨rfl, rfl⟩ := List.append_inj same lengths
      exact ⟨(), a, ⟨rfl, rfl⟩, (), _, rfl, by simp [Assembly.adopt, Assembly.put]⟩
  · rename_i e
    constructor
    · intro h
      cases h
    · rintro ⟨found, stack, fits, -⟩
      have ok := (popTest_eq_ok (ε := ε) (u := ())).mpr ⟨found, a.stack, stack, fits, rfl⟩
      rw [ok] at taken
      cases taken

theorem closeLoop_eq_ok {conditionOps : List Op} {test : Test} {body a a' : Assembly} {u : Unit} :
    (closeLoop conditionOps test body : Assembler ε Unit).run a = (.ok u, a') ↔
      body.stack = a.stack ∧
        a' = (a.adopt body).put [.loop conditionOps test body.ops] a.stack := by
  simp only [closeLoop, Stateful.bind_eq_ok, expectUnchanged_eq_ok, Stateful.run_modify, run_emit]
  constructor
  · rintro ⟨_, _, ⟨same, rfl⟩, _, _, h, h'⟩
    cases h
    cases h'
    exact ⟨same, rfl⟩
  · rintro ⟨same, rfl⟩
    exact ⟨(), a, ⟨same, rfl⟩, (), _, rfl, rfl⟩

omit [OfEmitError ε] in
theorem run_closeScope (inner a : Assembly) :
    (closeScope inner : Assembler ε Unit).run a =
      (.ok (), { a with maxLocals := max a.maxLocals inner.maxLocals }.put
        [.scope inner.declared inner.ops] inner.stack) := rfl

theorem append_eq_ok {s : Sequence} {a a' : Assembly} {u : Unit} :
    (append s : Assembler ε Unit).run a = (.ok u, a') ↔
      ∃ found rest, a.stack = found ++ rest ∧ Fits found s.inputs.reverse ∧
        a' = { a with maxLocals := max a.maxLocals (a.nextLocal + s.maxLocals) }.put
          (Op.relocateAll a.nextLocal s.ops) (s.output.toList ++ rest) := by
  have eq : (append s : Assembler ε Unit) = popOperands s.inputs "append" >>= fun _ =>
      pushResult s.output >>= fun _ => modify fun a =>
        { a with
          ops := a.ops ++ Op.relocateAll a.nextLocal s.ops
          maxLocals := max a.maxLocals (a.nextLocal + s.maxLocals) } := by
    cases output : s.output <;> simp [append, pushResult, output]
  simp only [eq, Stateful.bind_eq_ok, popOperands_eq_ok, run_pushResult, Stateful.run_modify]
  constructor
  · rintro ⟨_, _, ⟨found, rest, stack, fits, rfl⟩, _, _, h, h'⟩
    cases h
    cases h'
    exact ⟨found, rest, stack, fits, by simp [Assembly.put]⟩
  · rintro ⟨found, rest, stack, fits, rfl⟩
    exact ⟨(), _, ⟨found, rest, stack, fits, rfl⟩, (), _, rfl, by simp [Assembly.put]⟩

omit [OfEmitError ε] in
theorem region_eq_ok {body : Assembler ε Unit} {a a' written : Assembly} :
    (region body).run a = (.ok written, a') ↔ body.run a.fork = (.ok (), written) ∧ a' = a := by
  unfold region
  rw [Stateful.run_bind_ok (Stateful.run_get a)]
  rcases body.run a.fork with ⟨e | ⟨⟨⟩⟩, b⟩
  · simp
  · simp [eq_comm]

theorem branch_eq_ok {test : Test} {thenArm elseArm : Assembler ε Unit} {a a' : Assembly} {u : Unit} :
    (branch test thenArm elseArm).run a = (.ok u, a') ↔
      ∃ found rest b b' stack, a.stack = found ++ rest ∧ Fits found test.operands.reverse ∧
        thenArm.run (a.put [] rest).fork = (.ok (), b) ∧
        elseArm.run (a.put [] rest).fork = (.ok (), b') ∧
        mergeSlots b.stack b'.stack = some stack ∧
        a' = (((a.put [] rest).adopt b).adopt b').put [.branch test b.ops b'.ops] stack := by
  simp only [branch, Stateful.bind_eq_ok, popTest_eq_ok, region_eq_ok, joinArms_eq_ok]
  constructor
  · rintro ⟨⟨⟩, _, ⟨found, rest, same, fits, rfl⟩, b, _, ⟨first, rfl⟩, b', _, ⟨second, rfl⟩, stack,
      merged, rfl⟩
    exact ⟨found, rest, b, b', stack, same, fits, first, second, merged, rfl⟩
  · rintro ⟨found, rest, b, b', stack, same, fits, first, second, merged, rfl⟩
    exact ⟨(), _, ⟨found, rest, same, fits, rfl⟩, b, _, ⟨first, rfl⟩, b', _, ⟨second, rfl⟩, stack,
      merged, rfl⟩

theorem whileLoop_eq_ok {condition body : Assembler ε Unit} {test : Test} {a a' : Assembly} {u : Unit} :
    (whileLoop condition test body).run a = (.ok u, a') ↔
      ∃ b found b', condition.run a.fork = (.ok (), b) ∧ b.stack = found ++ a.stack ∧
        Fits found test.operands.reverse ∧ body.run (a.adopt b).fork = (.ok (), b') ∧
        b'.stack = a.stack ∧
        a' = ((a.adopt b).adopt b').put [.loop b.ops test b'.ops] a.stack := by
  simp only [whileLoop, Stateful.bind_eq_ok, region_eq_ok, closeCondition_eq_ok, closeLoop_eq_ok]
  constructor
  · rintro ⟨b, _, ⟨first, rfl⟩, _, _, ⟨found, stack, fits, rfl, rfl⟩, b', _, ⟨second, rfl⟩, same, rfl⟩
    exact ⟨b, found, b', first, stack, fits, second, same, rfl⟩
  · rintro ⟨b, found, b', first, stack, fits, second, same, rfl⟩
    exact ⟨b, _, ⟨first, rfl⟩, _, _, ⟨found, stack, fits, rfl, rfl⟩, b', _, ⟨second, rfl⟩, same, rfl⟩

omit [OfEmitError ε] in
theorem scope_eq_ok {body : Assembler ε Unit} {a a' : Assembly} {u : Unit} :
    (scope body).run a = (.ok u, a') ↔
      ∃ b, body.run a.fork = (.ok (), b) ∧
        a' = { a with maxLocals := max a.maxLocals b.maxLocals }.put
          [.scope b.declared b.ops] b.stack := by
  simp only [scope, Stateful.bind_eq_ok, region_eq_ok, run_closeScope]
  constructor
  · rintro ⟨b, _, ⟨run, rfl⟩, closed⟩
    cases closed
    exact ⟨b, run, rfl⟩
  · rintro ⟨b, run, rfl⟩
    exact ⟨b, _, ⟨run, rfl⟩, rfl⟩

end Assembler

inductive LocalUse where
  /-- Any local at all, also one of another program. -/
  | any
  /-- Only locals whose region has not ended. -/
  | visible

def LocalUse.Allows (use : LocalUse) (seen : List Local) (d : Directive) : Prop :=
  match use with
  | .any => True
  | .visible => ∀ e, d.event? = some e → e.target ∈ seen

theorem LocalUse.allows_of_none {use : LocalUse} {seen : List Local} {d : Directive}
    (h : d.event? = none) : use.Allows seen d := by
  cases use with
  | any => exact trivial
  | visible =>
      intro e uses
      rw [h] at uses
      cases uses

theorem LocalUse.allows_of_target {use : LocalUse} {seen : List Local} {d : Directive} {l : Local}
    (h : d.event?.map LocalEvent.target = some l) (mem : l ∈ seen) : use.Allows seen d := by
  cases use with
  | any => exact trivial
  | visible =>
      intro e uses
      rw [uses] at h
      cases h
      exact mem

namespace Assembly

/-- The record of what was written after an earlier state of the assembly. -/
def since (a earlier : Assembly) : List Recorded :=
  (a.ops.drop earlier.ops.length).map (.plain earlier.stack)

/-- The sequence is what one of the ways to finish gives. -/
def Finishes (a : Assembly) (s : Sequence) : Prop :=
  (∃ nonNull, a.finishExpression nonNull = .ok s) ∨ a.finishStatement = .ok s

end Assembly

/-- Runs of the assembler in which every call succeeds, from one state and one list of visible locals
to another, with the record of what they write. -/
inductive Assembled (use : LocalUse) :
    Assembly → List Local → List Recorded → Assembly → List Local → Prop
  | start (a seen) : Assembled use a seen [] a seen
  | call {a₀ seen₀ code a seen a'} (d : Directive) :
      Assembled use a₀ seen₀ code a seen → use.Allows seen d →
      (d.write : Assembler EmitError Unit).run a = (.ok (), a') →
      Assembled use a₀ seen₀ (code ++ a'.since a) a' seen
  | declare {a₀ seen₀ code a seen a' l} (name : String) (type : NativeType) :
      Assembled use a₀ seen₀ code a seen →
      (Assembler.declareLocal name type : Assembler EmitError Local).run a = (.ok l, a') →
      Assembled use a₀ seen₀ (code ++ [.declare l]) a' (l :: seen)
  | append {a₀ seen₀ code a seen inner b innerSeen a'} (s : Sequence) :
      Assembled use a₀ seen₀ code a seen →
      Assembled use (.start s.inputs) [] inner b innerSeen → b.Finishes s →
      (Assembler.append s : Assembler EmitError Unit).run a = (.ok (), a') →
      Assembled use a₀ seen₀
        (code ++ Recorded.spliceAll a.nextLocal (a.stack.drop s.inputs.length) inner) a' seen
  | branch {a₀ seen₀ code a seen b thenCode thenArm thenSeen elseCode elseArm elseSeen a'}
      (test : Test) :
      Assembled use a₀ seen₀ code a seen →
      (Assembler.popTest test : Assembler EmitError Unit).run a = (.ok (), b) →
      Assembled use b.fork seen thenCode thenArm thenSeen →
      Assembled use b.fork seen elseCode elseArm elseSeen →
      (Assembler.joinArms test thenArm elseArm : Assembler EmitError Unit).run b = (.ok (), a') →
      Assembled use a₀ seen₀ (code ++ [.branch a.stack test thenCode elseCode]) a' seen
  | loop {a₀ seen₀ code a seen conditionCode condition conditionSeen conditionOps b bodyCode body
        bodySeen a'} (test : Test) :
      Assembled use a₀ seen₀ code a seen →
      Assembled use a.fork seen conditionCode condition conditionSeen →
      (Assembler.closeCondition condition test : Assembler EmitError (List Op)).run a
        = (.ok conditionOps, b) →
      Assembled use b.fork seen bodyCode body bodySeen →
      (Assembler.closeLoop conditionOps test body : Assembler EmitError Unit).run b
        = (.ok (), a') →
      Assembled use a₀ seen₀ (code ++ [.loop a.stack conditionCode test bodyCode]) a' seen
  | scope {a₀ seen₀ code a seen bodyCode body bodySeen a'} :
      Assembled use a₀ seen₀ code a seen → Assembled use a.fork seen bodyCode body bodySeen →
      (Assembler.closeScope body : Assembler EmitError Unit).run a = (.ok (), a') →
      Assembled use a₀ seen₀ (code ++ [.scope a.stack body.declared bodyCode]) a' seen

/-- A sequence that a program for the assembler finished, with the record of the program. -/
def Finished (use : LocalUse) (s : Sequence) (code : List Recorded) : Prop :=
  ∃ a seen, Assembled use (.start s.inputs) [] code a seen ∧ a.Finishes s

namespace Assembly

theorem finishExpression_eq_ok {a : Assembly} {nonNull : Bool} {s : Sequence} :
    a.finishExpression nonNull = .ok s ↔
      ∃ t, a.stack = [t] ∧ s = ⟨a.ops, a.inputs, some t, nonNull, a.maxLocals⟩ := by
  unfold finishExpression
  constructor
  · intro h
    split at h
    · rename_i t stack
      cases h
      exact ⟨t, stack, rfl⟩
    · cases h
  · rintro ⟨t, stack, rfl⟩
    rw [stack]

theorem Finishes.eq {a : Assembly} {s : Sequence} (h : a.Finishes s) :
    s.ops = a.ops ∧ s.inputs = a.inputs ∧ s.maxLocals = a.maxLocals ∧
      a.stack = s.output.toList := by
  rcases h with ⟨nonNull, h⟩ | h
  · obtain ⟨t, stack, rfl⟩ := finishExpression_eq_ok.mp h
    exact ⟨rfl, rfl, rfl, stack⟩
  · unfold finishStatement at h
    split at h
    · rename_i stack
      cases h
      exact ⟨rfl, rfl, rfl, stack⟩
    · cases h

@[simp] theorem since_put (a : Assembly) (ops : List Op) (stack : List NativeType) :
    (a.put ops stack).since a = ops.map (.plain a.stack) := by
  simp [since]

@[simp] theorem since_self (a : Assembly) : a.since a = [] := by
  simp [since]

@[simp] theorem fork_stack (a : Assembly) : a.fork.stack = a.stack := rfl

@[simp] theorem fork_ops (a : Assembly) : a.fork.ops = [] := rfl

@[simp] theorem adopt_stack (a region : Assembly) : (a.adopt region).stack = a.stack := rfl

@[simp] theorem adopt_ops (a region : Assembly) : (a.adopt region).ops = a.ops := rfl

@[simp] theorem adopt_inputs (a region : Assembly) : (a.adopt region).inputs = a.inputs := rfl

end Assembly

namespace Assembled

variable {use : LocalUse} {a₀ a : Assembly} {seen₀ seen : List Local} {code : List Recorded}

theorem ops_eq (h : Assembled use a₀ seen₀ code a seen) : a.ops = a₀.ops ++ Recorded.ops code := by
  induction h with
  | start a seen => simp [Recorded.ops]
  | call d _ _ written ih =>
      rcases Directive.write_eq_ok written with ⟨rfl, -⟩ | ⟨op, stack, rfl, -⟩
      · simpa using ih
      · simp [ih, Recorded.ops, Recorded.op?]
  | declare name type _ declared ih =>
      cases declared
      simpa [Recorded.ops, Recorded.op?, Assembly.declare] using ih
  | append s _ _ finish appended ih innerIh =>
      obtain ⟨found, rest, -, -, rfl⟩ := Assembler.append_eq_ok.mp appended
      have inner : s.ops = _ := finish.eq.1.trans innerIh
      simp [ih, inner, Assembly.start, Recorded.ops_spliceAll]
  | branch test _ tested _ _ joined ih thenIh elseIh =>
      obtain ⟨found, rest, -, -, rfl⟩ := Assembler.popTest_eq_ok.mp tested
      obtain ⟨stack, -, rfl⟩ := Assembler.joinArms_eq_ok.mp joined
      simp [ih, thenIh, elseIh, Recorded.ops, Recorded.op?]
  | loop test _ _ closed _ closed' ih conditionIh bodyIh =>
      obtain ⟨found, -, -, rfl, rfl⟩ := Assembler.closeCondition_eq_ok.mp closed
      obtain ⟨-, rfl⟩ := Assembler.closeLoop_eq_ok.mp closed'
      simp [ih, conditionIh, bodyIh, Recorded.ops, Recorded.op?]
  | scope _ _ closed ih bodyIh =>
      cases closed
      simp [ih, bodyIh, Recorded.ops, Recorded.op?, Assembly.emit]

/-- What the assembler tracks is consistent. -/
theorem checked (h : Assembled use a₀ seen₀ code a seen) : Checked a₀.stack code a.stack := by
  induction h with
  | start a seen => exact .done (.refl _)
  | call d _ _ written ih =>
      rcases Directive.write_eq_ok written with ⟨rfl, -⟩ | ⟨op, stack, rfl, effect, -⟩
      · simpa using ih
      · rw [Assembly.since_put]
        exact ih.append (.plain (.refl _) effect (.done (.refl _)))
  | declare name type _ declared ih =>
      cases declared
      exact ih.append (.declare (.done (.refl _)))
  | append s _ _ finish appended ih innerIh =>
      obtain ⟨found, rest, stack, fits, rfl⟩ := Assembler.append_eq_ok.mp appended
      have drop : (found ++ rest).drop s.inputs.length = rest := by
        rw [← List.length_reverse, ← fits.length_eq, List.drop_left]
      rw [finish.eq.2.2.2] at innerIh
      rw [stack, drop]
      refine ih.append ((innerIh.splice _ rest).widen ?_)
      rw [stack]
      exact fits.append (.refl rest)
  | branch test _ tested _ _ joined ih thenIh elseIh =>
      obtain ⟨found, rest, stack, fits, rfl⟩ := Assembler.popTest_eq_ok.mp tested
      obtain ⟨merged, merge, rfl⟩ := Assembler.joinArms_eq_ok.mp joined
      obtain ⟨thenFits, elseFits⟩ := Assembler.mergeSlots_eq_some merge
      rw [stack] at ih ⊢
      exact ih.append (.branch (.refl _) fits (thenIh.weaken thenFits) (elseIh.weaken elseFits)
        (.done (.refl _)))
  | loop test _ _ closed _ closed' ih conditionIh bodyIh =>
      obtain ⟨found, stack, fits, rfl, rfl⟩ := Assembler.closeCondition_eq_ok.mp closed
      obtain ⟨same, rfl⟩ := Assembler.closeLoop_eq_ok.mp closed'
      rw [stack] at conditionIh
      rw [same] at bodyIh
      exact ih.append (.loop (.refl _) conditionIh fits bodyIh (.done (.refl _)))
  | scope _ _ closed ih bodyIh =>
      cases closed
      exact ih.append (.scope (.refl _) bodyIh (.done (.refl _)))

end Assembled

theorem Finished.checked {use : LocalUse} {s : Sequence} {code : List Recorded}
    (h : Finished use s code) :
    s.ops = Recorded.ops code ∧ Checked s.inputs.reverse code s.output.toList := by
  obtain ⟨a, seen, assembled, finish⟩ := h
  obtain ⟨ops, -, -, stack⟩ := finish.eq
  refine ⟨ops.trans assembled.ops_eq, ?_⟩
  rw [← stack]
  exact assembled.checked

end MessageCode
