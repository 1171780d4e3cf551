import MessageCode.Proofs.Generate.Offered

/-!
Code that is written for literals: constants, sanitized content, and lists of them. It uses no locals, and
it offers the values that are written.
-/

namespace MessageCode

open Stateful

theorem TypedValue.eq_of_ofSanitized {kind : SanitizedKind} {content : String} {v : TypedValue}
    (made : ofSanitized kind content = .ok v) :
    v.type = .sanitized kind ∧ v.native = .boxed .sanitized ∧
      v.code = ⟨[.push (.text content), .push (.int kind.ordinal), .invoke Signature.ordain], [],
        some (.boxed .sanitized), true, 0⟩ := by
  cases made
  exact ⟨rfl, rfl, rfl⟩

namespace LogicalValue

/-- Code for a value as it is written for a literal: a constant in native form, or boxed sanitized
content. -/
inductive Written : LogicalValue → Bool → TypedValue → Prop
  | constant {l v} : l.literal? = some v → Written l false v
  | sanitized {kind content v} : TypedValue.ofSanitized kind content = .ok v →
      Written (.sanitized kind content) true v

def boxing : LogicalValue → List Op
  | .bool b => [.push (.bool b)] ++ [.invoke (Signature.forValue .bool)]
  | .int n => [.push (.long n)] ++ [.invoke (Signature.forValue .int)]
  | .float x => [.push (.double x)] ++ [.invoke (Signature.forValue .float)]
  | .text t => [.push (.text t)] ++ [.invoke (Signature.forValue .text)]
  | .sanitized kind content =>
      [.push (.text content)] ++ [.push (.int kind.ordinal)] ++ [.invoke Signature.ordain]
  | .message .. => []

def adding (l : LogicalValue) : List Op :=
  [.dup] ++ l.boxing ++ [.invoke Signature.provider] ++ [.invoke Signature.listAdd] ++ [.pop]

variable {l : LogicalValue} {v : TypedValue} {boxed : Bool}

namespace Written

theorem sound (h : l.Written boxed v) (s : Schema) : l.Sound s := by
  cases h with
  | constant literal =>
      cases l with
      | message id data => cases literal
      | _ => trivial
  | sanitized made => trivial

theorem inputs (h : l.Written boxed v) : v.code.inputs = [] := by
  cases h with
  | constant literal =>
      obtain ⟨c, rfl, -⟩ := LogicalValue.literal_eq literal
      rfl
  | sanitized made =>
      obtain ⟨-, -, code⟩ := TypedValue.eq_of_ofSanitized made
      rw [code]

theorem boxes (h : l.Written boxed v) (ops : List Op) (stack : List NativeType) :
    (Assembler.append v.code >>= fun _ => boxTop v.type v.isNullable).run (.plain ops stack) =
      (.ok (), .plain (ops ++ l.boxing) (.boxed l.type.boxedKind :: stack)) ∧
    ((Assembly.plain ops stack).Quiet →
      (Assembly.plain (ops ++ l.boxing) (.boxed l.type.boxedKind :: stack)).Quiet) := by
  cases h with
  | constant literal =>
      cases l with
      | message id data | sanitized kind content => cases literal
      | _ =>
          cases literal
          rw [boxing, ← List.append_assoc]
          refine ⟨?_, fun quiet => (quiet.push _).invoke [_] rfl (.refl _)⟩
          rw [Assembly.plain_pushed _ _ [], Assembly.plain_pushed _ _ stack]
          rfl
  | sanitized made =>
      obtain ⟨type, -, code⟩ := TypedValue.eq_of_ofSanitized made
      rw [type, TypedValue.isNullable, code]
      constructor
      · rw [Assembly.plain_pushed _ _ stack]
        rfl
      · intro quiet
        rw [boxing, ← List.append_assoc, ← List.append_assoc]
        exact ((quiet.push _).push _).invoke [_, _] rfl (.refl _)

/-- The code of the value adds it to the list on top. -/
theorem adds (h : l.Written boxed v) (element : ValueType) (ops : List Op) :
    (TypedValue.addItem element v).run (.plain ops [Signature.list]) =
      (.ok (), .plain (ops ++ l.adding) [Signature.list]) ∧
    ((Assembly.plain ops [Signature.list]).Quiet →
      (Assembly.plain (ops ++ l.adding) [Signature.list]).Quiet) := by
  obtain ⟨boxes, quiet⟩ := h.boxes (ops ++ [.dup]) [Signature.list, Signature.list]
  have fits : Fits [.boxed l.type.boxedKind] Signature.provider.operands := by
    cases l <;> exact .cons rfl .nil
  have dups : (Assembler.dup : Assembler GenerateError Unit).run (.plain ops [Signature.list]) =
      (.ok (), .plain (ops ++ [.dup]) [Signature.list, Signature.list]) := by
    rw [Assembly.plain_pushed _ _ [Signature.list]]
    rfl
  unfold adding
  simp only [← List.append_assoc]
  constructor
  · have steps : TypedValue.addItem element v = (do
        Assembler.dup
        (do
          Assembler.append v.code
          boxTop v.type v.isNullable)
        Assembler.invoke Signature.provider
        Assembler.invoke Signature.listAdd
        Assembler.pop) := by
      unfold TypedValue.addItem
      rw [h.inputs]
      simp only [bind_assoc]
      rfl
    have wrapped := Method.run_invoke (ε := GenerateError) (m := Signature.provider) (t := .ref .provider)
      (a := .plain (ops ++ [.dup] ++ l.boxing) [.boxed l.type.boxedKind, Signature.list, Signature.list])
      rfl rfl fits
    rw [← Assembly.plain_pushed] at wrapped
    rw [steps, run_bind_ok dups, run_bind_ok boxes, run_bind_ok wrapped, Assembly.plain_pushed _ _ [],
      Assembly.plain_pushed _ _ [.ref .provider, Signature.list, Signature.list]]
    rfl
  · intro start
    refine .pop (t := .bool) ?_
    refine .invoke [.ref .provider, Signature.list] ?_ rfl (.cons rfl (Fits.refl _))
    refine .invoke [.boxed l.type.boxedKind] ?_ rfl fits
    exact quiet start.dup

theorem boxing_runs (h : l.Written boxed v) (s : Schema) (fuel : Nat) (stack locals : List Value)
    (machine : Machine) :
    ∃ w after, (Op.execAll (.ofSchema s) fuel l.boxing ⟨stack, locals⟩).run machine =
      (.ok ⟨w :: stack, locals⟩, after) ∧ l.InBox w ∧ after.store.lists = machine.store.lists := by
  cases h with
  | constant literal =>
      cases l with
      | message id data | sanitized kind content => cases literal
      | _ => exact ⟨_, _, rfl, ⟨_, rfl⟩, rfl⟩
  | @sanitized kind content v made => cases kind <;> exact ⟨_, _, rfl, ⟨_, rfl⟩, rfl⟩

/-- The value is added behind the items of the list, in a provider. -/
theorem adding_runs (h : l.Written boxed v) (s : Schema) (fuel : Nat) (id : ObjectId) (locals : List Value)
    (machine : Machine) :
    ∃ item after, (Op.execAll (.ofSchema s) fuel l.adding ⟨[.ref id .list], locals⟩).run machine =
      (.ok ⟨[.ref id .list], locals⟩, after) ∧ l.Supplied item ∧
        after.store.listItems id = machine.store.listItems id ++ [item] := by
  obtain ⟨_, ready, run, ⟨boxId, rfl⟩, same⟩ :=
    h.boxing_runs s fuel [.ref id .list, .ref id .list] locals machine
  let item : Value := .ref ready.store.nextId (.provider (.ref boxId (.boxed l.boxed)))
  have added : ∃ after, (Op.execAll (.ofSchema s) fuel
      ([.invoke Signature.provider] ++ [.invoke Signature.listAdd] ++ [.pop])
      ⟨[.ref boxId (.boxed l.boxed), .ref id .list, .ref id .list], locals⟩).run ready =
        (.ok ⟨[.ref id .list], locals⟩, after) ∧
      after.store.lists = ready.store.lists.set id (ready.store.listItems id ++ [item]) := ⟨_, rfl, rfl⟩
  obtain ⟨after, run', lists⟩ := added
  refine ⟨item, after, ?_, .inr ⟨_, _, rfl, boxId, rfl⟩, ?_⟩
  · unfold adding
    rw [List.append_assoc, List.append_assoc, List.append_assoc, Op.execAll_append, Op.execAll_singleton,
      Op.exec_dup, pure_bind, Op.execAll_append, run_bind_ok run]
    exact run'
  · rw [Store.listItems, lists, Cells.get?_set_self, Store.listItems, Store.listItems, same]
    rfl

end Written

structure Listed (values : List LogicalValue) (v : TypedValue) : Prop where
  sound : ∀ s, ∀ l ∈ values, l.Sound s
  inputs : v.code.inputs = []
  proper : v.code.IsProper
  native : v.native = .boxed .list
  runs : ∀ s fuel machine, ∃ id supplied after, (v.evaluate (.ofSchema s) fuel).run machine =
    (.ok (.ref id (.boxed (.list supplied))), after) ∧ List.Forall₂ Supplied values supplied

section

variable {values : List LogicalValue} {items : List TypedValue}
  (each : List.Forall₂ (fun l v => ∃ boxed, Written l boxed v) values items)

include each

theorem Written.addAll (element : ValueType) (ops : List Op) :
    (items.forM (TypedValue.addItem element)).run (.plain ops [Signature.list]) =
      (.ok (), .plain (ops ++ values.flatMap adding) [Signature.list]) ∧
    ((Assembly.plain ops [Signature.list]).Quiet →
      (Assembly.plain (ops ++ values.flatMap adding) [Signature.list]).Quiet) := by
  induction each generalizing ops with
  | nil =>
      rw [List.flatMap_nil, List.append_nil]
      exact ⟨rfl, id⟩
  | cons first _ ih =>
      obtain ⟨boxed, written⟩ := first
      obtain ⟨run, quiet⟩ := written.adds element ops
      obtain ⟨run', quiet'⟩ := ih (ops ++ adding _)
      rw [List.flatMap_cons, ← List.append_assoc]
      refine ⟨?_, fun start => quiet' (quiet start)⟩
      exact (run_bind_ok run _).trans run'

theorem Written.addAll_runs (s : Schema) (fuel : Nat) (id : ObjectId) (locals : List Value)
    (machine : Machine) :
    ∃ supplied after, (Op.execAll (.ofSchema s) fuel (values.flatMap adding) ⟨[.ref id .list], locals⟩).run
        machine = (.ok ⟨[.ref id .list], locals⟩, after) ∧ List.Forall₂ Supplied values supplied ∧
      after.store.listItems id = machine.store.listItems id ++ supplied := by
  induction each generalizing machine with
  | nil => exact ⟨[], machine, rfl, .nil, (List.append_nil _).symm⟩
  | cons first _ ih =>
      obtain ⟨boxed, written⟩ := first
      obtain ⟨item, between, run, supplied, held⟩ := written.adding_runs s fuel id locals machine
      obtain ⟨more, after, run', rest, held'⟩ := ih between
      refine ⟨item :: more, after, ?_, .cons supplied rest, ?_⟩
      · rw [List.flatMap_cons, Op.execAll_append, run_bind_ok run, run']
      · rw [held', held, List.append_assoc]
        rfl

theorem Written.list_runs (s : Schema) (fuel : Nat) (locals : List Value) (machine : Machine) :
    ∃ id supplied after, (Op.execAll (.ofSchema s) fuel ([.invoke Signature.newList] ++
        values.flatMap adding ++ [.invoke (Signature.forValue .list)]) ⟨[], locals⟩).run machine =
      (.ok ⟨[.ref id (.boxed (.list supplied))], locals⟩, after) ∧
      List.Forall₂ Supplied values supplied := by
  let id := machine.store.nextId
  have starts : ∃ listed, (Op.execAll (.ofSchema s) fuel [.invoke Signature.newList] ⟨[], locals⟩).run
      machine = (.ok ⟨[.ref id .list], locals⟩, listed) ∧
        listed.store.lists = machine.store.lists.set id [] := ⟨_, rfl, rfl⟩
  obtain ⟨listed, start, empty⟩ := starts
  obtain ⟨supplied, filled, run, forms, held⟩ := Written.addAll_runs each s fuel id locals listed
  have none : listed.store.listItems id = [] := by
    rw [Store.listItems, empty, Cells.get?_set_self]
    rfl
  rw [none, List.nil_append] at held
  have boxes : ∃ boxId after, (Op.execAll (.ofSchema s) fuel [.invoke (Signature.forValue .list)]
      ⟨[.ref id .list], locals⟩).run filled =
        (.ok ⟨[.ref boxId (.boxed (.list (filled.store.listItems id)))], locals⟩, after) := ⟨_, _, rfl⟩
  obtain ⟨boxId, after, boxed⟩ := boxes
  rw [held] at boxed
  refine ⟨boxId, supplied, after, ?_, forms⟩
  rw [Op.execAll_append, Op.execAll_append, bind_assoc, run_bind_ok start, run_bind_ok run]
  exact boxed

theorem Written.list_written (element : ValueType) :
    (do
      Assembler.invoke Signature.newList
      items.forM (TypedValue.addItem element)
      Assembler.invoke (Signature.forValue .list)).run (.start []) =
      (.ok (), .plain ([.invoke Signature.newList] ++ values.flatMap adding ++
        [.invoke (Signature.forValue .list)]) [.boxed .list]) ∧
    (Assembly.plain ([.invoke Signature.newList] ++ values.flatMap adding ++
      [.invoke (Signature.forValue .list)]) [.boxed .list]).Quiet := by
  obtain ⟨added, quiet⟩ := Written.addAll each element [.invoke Signature.newList]
  have started : (Assembler.invoke Signature.newList : Assembler GenerateError Unit).run (.start []) =
      (.ok (), .plain [.invoke Signature.newList] [Signature.list]) := rfl
  have begun : (Assembly.plain [.invoke Signature.newList] [Signature.list]).Quiet :=
    Assembly.Quiet.nothing.invoke [] rfl .nil
  refine ⟨?_, (quiet begun).invoke [_] rfl (.refl _)⟩
  rw [run_bind_ok started, run_bind_ok added, Assembly.plain_pushed _ _ [Signature.list]]
  exact Method.run_invoke rfl (show _ = [Signature.list] ++ [] from rfl) (.refl _)

theorem Listed.of_assemble (element : ValueType) {type : ValueType} {v : TypedValue}
    (made : TypedValue.assemble [] true type (do
      Assembler.invoke Signature.newList
      items.forM (TypedValue.addItem element)
      Assembler.invoke (Signature.forValue .list)) = .ok v) : Listed values v ∧ v.type = type := by
  obtain ⟨same, a, run, finished⟩ := TypedValue.assemble_eq_ok made
  obtain ⟨written, quiet⟩ := Written.list_written each element
  cases written.symm.trans run
  obtain ⟨-, inputs, -, stack⟩ := Assembly.Finishes.eq (.inl ⟨true, finished⟩)
  rw [v.output_eq] at stack
  have native : v.native = .boxed .list := (List.head_eq_of_cons_eq stack).symm
  have sound (s : Schema) (l : LogicalValue) (mem : l ∈ values) : l.Sound s := by
    obtain ⟨_, -, boxed, written⟩ := Paired.right_of_mem each mem
    exact written.sound s
  refine ⟨⟨sound, inputs, quiet.isProper finished, native, fun s fuel machine => ?_⟩, same⟩
  obtain ⟨id, supplied, after, built, forms⟩ := Written.list_runs each s fuel _ machine
  refine ⟨id, supplied, after, ?_, forms⟩
  unfold TypedValue.evaluate
  rw [TypedValue.runOn_eq (.put ..) finished, bind_assoc, run_bind_ok built]
  rfl

theorem Written.exists_listOf (element : ValueType) :
    ∃ v, TypedValue.listOf element items = .ok v :=
  ⟨_, TypedValue.assemble_of_run (Written.list_written each element).1 rfl true _⟩

end

end LogicalValue

namespace Field.Offered

variable {s : Schema} {f : Field} {v : TypedValue}

/-- A literal offers its value. -/
theorem written {l : LogicalValue} {boxed : Bool} (h : l.Written boxed v) (alone : f.isRepeated = false)
    (typed : ∀ c, Coercion.of s f = .ok c → c.logicalType = l.type) (fuel : Nat) :
    f.Offered s fuel v boxed (· = [l]) := by
  cases h with
  | constant literal => exact .literal literal alone typed fuel
  | @sanitized kind content v made =>
      obtain ⟨type, native, code⟩ := TypedValue.eq_of_ofSanitized made
      have quiet : (Assembly.plain ([.push (.text content)] ++ [.push (.int kind.ordinal)] ++
          [.invoke Signature.ordain]) [.boxed .sanitized]).Quiet :=
        ((Assembly.Quiet.nothing.push (.text content)).push (.int kind.ordinal)).invoke [_, _] rfl (.refl _)
      refine ⟨by rw [code], ?_, ?_, ?_, ?_⟩
      · rw [code]
        exact @Assembly.Quiet.isProper _ quiet true _ rfl
      · intro c coercion
        unfold Field.Takes
        rw [alone, if_neg Bool.false_ne_true, type]
        exact (typed c coercion).symm
      · rw [native, type]
        rfl
      · intro machine
        have gives : ∃ w after, (v.evaluate (.ofSchema s) fuel).run machine = (.ok w, after) ∧
            Access.Form true (.sanitized kind content) w := by
          unfold TypedValue.evaluate
          rw [code]
          cases kind <;> exact ⟨_, _, rfl, _, rfl⟩
        obtain ⟨w, after, run, form⟩ := gives
        refine ⟨w, after, [.sanitized kind content], run, rfl, ?_, ?_, ?_⟩
        · intro c coercion l mem
          obtain rfl := List.mem_singleton.mp mem
          exact ⟨typed c coercion, trivial⟩
        · intro literal
          rw [type] at literal
          cases literal
        · unfold Field.Offers
          rw [alone, if_neg Bool.false_ne_true]
          exact ⟨_, rfl, form⟩

/-- A list literal offers its values. -/
theorem listed {values : List LogicalValue} {element : ValueType} (h : LogicalValue.Listed values v)
    (many : f.isRepeated = true) (typed : ∀ l ∈ values, element = l.type)
    (expected : ∀ c, Coercion.of s f = .ok c → c.logicalType = element)
    (type : v.type = .list element ∨ v.type = .emptyList ∧ values = []) (fuel : Nat) :
    f.Offered s fuel v true (· = values) := by
  refine ⟨h.inputs, h.proper, ?_, ?_, ?_⟩
  · intro c coercion
    unfold Field.Takes
    rw [if_pos many, expected c coercion]
    exact type.imp_right And.left
  · rw [h.native]
    rcases type with type | ⟨type, -⟩
    · rw [type]
      rfl
    · rw [type]
      rfl
  · intro machine
    obtain ⟨id, supplied, after, run, forms⟩ := h.runs s fuel machine
    refine ⟨_, after, values, run, rfl, ?_, ?_, ?_⟩
    · intro c coercion l mem
      exact ⟨(expected c coercion).trans (typed l mem), h.sound s l mem⟩
    · intro literal
      rcases type with type | ⟨-, none⟩
      · rw [type] at literal
        cases literal
      · exact none
    · unfold Field.Offers
      rw [if_pos many]
      exact ⟨supplied, ⟨id, rfl⟩, forms⟩

end Field.Offered

end MessageCode
