import MessageCode.Proofs.Generate.Restacks

/-!
Building messages. The code of a construction goes through the arguments in order, each of which fills
the builder further, and what it comes to is the message that the arguments describe.
-/

namespace MessageCode

open Stateful

theorem Schema.Loaded.settable {s : Schema} (loaded : s.Loaded) {message name : String} {m : Message}
    {f : Field} (found : s.message? message = some m) (named : s.field? message name = some f)
    (sets : f.SetsBack s m) : Settable s message m f := by
  have mem := Schema.Loaded.mem_of_field? found named
  refine ⟨found, loaded.container found mem, sets, ?_⟩
  intro extension
  rcases (Schema.Loaded.mem_fieldsOf found).mp mem with own | ⟨shared, -⟩
  · have declared := (loaded.message m (Schema.Loaded.mem_messages found)).declared f own
    cases (Field.isExtension_of_declared declared).symm.trans extension
  · exact loaded.alone f shared

namespace Filling

variable {s : Schema} {host : Host} {fuel : Nat} {m : Message} {f : Field} {c : Coercion} {v : TypedValue}

theorem argument_eq {name : String} (named : s.field? m.fullName name = some f)
    (coercion : Coercion.of s f = .ok c) (id : ObjectId) (data : MessageData) :
    argument s fuel m id data (name, v) = fill (.ofSchema s) fuel m f c v id data := by
  unfold argument
  dsimp only
  rw [named]
  dsimp only
  rw [coercion]

theorem fill_null (null : v.type = .null) (id : ObjectId) (data : MessageData) :
    fill host fuel m f c v id data = pure data := by
  unfold fill
  rw [if_pos (.inl null)]

theorem fill_repeated (present : v.type ≠ .null) (repeated : f.isRepeated = true) (id : ObjectId)
    (data : MessageData) :
    fill host fuel m f c v id data =
      if v.type = .emptyList then pure data else unlessNull host fuel v (addList host m f c v) id data := by
  unfold fill
  simp only [present, repeated, false_or, true_and, if_true]

theorem fill_singular (present : v.type ≠ .null) (singular : f.isRepeated = false) (id : ObjectId)
    (data : MessageData) :
    fill host fuel m f c v id data =
      (if f.isExtension && !Construction.needsNullTest v then identify else pure ()) >>= fun _ =>
        unlessNull host fuel v (setValue host m f c v) id data := by
  unfold fill
  simp only [present, singular, false_or, Bool.false_eq_true, false_and, if_false]
  cases f.isExtension && !Construction.needsNullTest v with
  | true => rfl
  | false => rfl

end Filling

namespace Fills

variable {s : Schema} {fuel : Nat} {message : String} {setting : Setting} {m : Message}
  {t t' : NativeType} {fill : ObjectId → MessageData → Run MessageData}

theorem throw (e : GenerateError) :
    Fills s fuel message setting [] (· = []) t t' (MonadExcept.throw e) fill := by
  intro a a' _ _ run
  cases run

/-- Steps behind a check. -/
theorem checked {p : Prop} [Decidable p] {e : GenerateError} {steps : Assembler GenerateError Unit}
    {more : PUnit → Assembler GenerateError Unit}
    (h : p → Fills s fuel message setting [] (· = []) t t' steps fill) :
    Fills s fuel message setting [] (· = []) t t'
      (if p then steps else MonadExcept.throw e >>= more) fill := by
  by_cases holds : p
  · rw [if_pos holds]
    exact h holds
  · rw [if_neg holds]
    exact throw e

theorem setArgument (enough : Int32.maxValue.toInt.toNat < fuel) (loaded : s.Loaded)
    (found : s.message? message = some m) {name : String} {v : TypedValue} (proper : v.code.IsProper)
    (truthful : v.Truthful (.ofSchema s) fuel)
    (sets : ∀ f, s.field? message name = some f → f.SetsBack s m) :
    Fills s fuel message setting [] (· = []) (.builder message) (.builder message)
      (Construction.setArgument s .immediate message (name, v))
      (fun id data => Filling.argument s fuel m id data (name, v)) := by
  unfold Construction.setArgument
  dsimp only
  cases named : s.field? message name with
  | none => exact throw _
  | some f =>
      have settable := loaded.settable found named (sets f named)
      obtain ⟨c, coercion⟩ :=
        Coercion.exists_of (loaded.field found (Schema.Loaded.mem_of_field? found named))
      have full : s.field? m.fullName name = some f := by
        rw [Schema.Loaded.fullName_eq found, named]
      simp only [Filling.argument_eq full coercion]
      apply checked
      intro isEmpty
      have alone : v.code.inputs = [] := List.isEmpty_iff.mp isEmpty
      by_cases null : v.type = .null
      · rw [if_pos null]
        exact (nothing _).of_eq (Filling.fill_null null)
      rw [if_neg null]
      -- The shape of the field tells which steps store the value.
      cases many : f.isRepeated with
      | true =>
          rw [Shape.of_repeated coercion many]
          apply checked
          intro _
          exact (setRepeated enough proper alone truthful settable many c).of_eq
            (Filling.fill_repeated null many)
      | false =>
          rcases settable.addressed.declared_or_refers with
            ⟨declared, own⟩ | ⟨extension, identifier, refers⟩
          · obtain ⟨test, shape⟩ := Shape.exists_of_declared coercion many own
            rw [shape]
            apply checked
            intro _
            apply (setSingular proper alone truthful settable declared c).of_eq
            intro id data
            rw [Filling.fill_singular null many, own]
            rfl
          · obtain ⟨presence, shape⟩ := Shape.exists_of_extension coercion many extension
            rw [shape]
            apply checked
            intro _
            apply (setExtension proper alone truthful settable extension many refers c).of_eq
            intro id data
            rw [Filling.fill_singular null many, extension]
            cases Construction.needsNullTest v with
            | true => rfl
            | false => rfl

end Fills

/-- What a construction relies on of an argument. The code of the value stores to its locals before it
loads them, its mark is right, and the field that is named is set under its own names. -/
structure Filling.Admissible (s : Schema) (fuel : Nat) (m : Message) (a : String × TypedValue) : Prop where
  proper : a.2.code.IsProper
  truthful : a.2.Truthful (.ofSchema s) fuel
  sets : ∀ f, s.field? m.fullName a.1 = some f → f.SetsBack s m

/-- The code of the arguments fills the builder by one after the other. -/
theorem Fills.setArguments {s : Schema} {fuel : Nat} {message : String} {setting : Setting} {m : Message}
    (enough : Int32.maxValue.toInt.toNat < fuel) (loaded : s.Loaded) (found : s.message? message = some m)
    {arguments : List (String × TypedValue)} (given : ∀ a ∈ arguments, Filling.Admissible s fuel m a) :
    Fills s fuel message setting [] (· = []) (.builder message) (.builder message)
      (arguments.forM (Construction.setArgument s .immediate message))
      (fun id data => arguments.foldlM (Filling.argument s fuel m id) data) := by
  induction arguments with
  | nil => exact nothing _
  | cons a arguments ih =>
      have first := given a List.mem_cons_self
      have sets := first.sets
      rw [Schema.Loaded.fullName_eq found] at sets
      simp only [List.foldlM_cons]
      exact (setArgument enough loaded found first.proper first.truthful sets).seq
        (ih fun a mem => given a (List.mem_cons_of_mem _ mem))

def Machine.building (m : Machine) (data : MessageData) : Machine :=
  { m with store := { m.store with nextId := m.store.nextId + 1 }.setBuilder m.store.nextId data }

theorem Machine.Apart.building {m : Machine} (tidy : m.Tidy) {data : MessageData}
    (ascending : data.Ascending) : (m.building data).Keeps (· = m.store.nextId) m.store.nextId data := by
  refine ⟨⟨?_, ?_⟩, rfl, Cells.get?_set_self, ascending⟩
  · rintro id rfl
    exact Nat.lt_succ_self _
  · intro cell mem v mem'
    apply Value.Within.mono (tidy.lists cell mem v mem')
    intro k shown
    exact ⟨Nat.lt_succ_of_lt shown.1, Nat.ne_of_lt shown.1⟩

namespace Native

variable {s : Schema} {message : String} {m : Message}

theorem call_defaultInstance (found : s.message? message = some m) :
    (Host.ofSchema s).call ⟨Signature.defaultInstance message, none, []⟩ =
      defaultInstance s message := by
  change callMessage s message _ >>= _ = _
  unfold callMessage
  rw [found]
  change (defaultInstance s message >>= fun v => pure (some v)) >>= _ = _
  rw [bind_assoc]
  exact bind_pure _

theorem call_newBuilder (found : s.message? message = some m) (machine : Machine) :
    ((Host.ofSchema s).call ⟨Signature.newBuilder message, none, []⟩).run machine =
      (.ok (.ref machine.store.nextId (.builder message)), machine.building (.empty message)) := by
  change (callMessage s message _ >>= _ : Native Value).run machine = _
  unfold callMessage
  rw [found]
  rfl

theorem call_build (found : s.message? message = some m) {id : ObjectId} {data : MessageData}
    {machine : Machine} (contents : machine.store.builders.get? id = some data) :
    ((Host.ofSchema s).call ⟨Signature.build message, some (.ref id (.builder message)), []⟩).run
      machine = (Machine.alloc (.message data) : Native Value).run machine := by
  have held : machine.store.builderData id message = data := by
    unfold Store.builderData
    rw [contents]
    rfl
  have receiver : builderReceiver ⟨Signature.build message, some (.ref id (.builder message)), []⟩ =
      .ok (id, message) := builderReceiver_eq_ok.mpr rfl
  change (callBuilder s message _ >>= _ : Native Value).run machine = _
  unfold callBuilder
  rw [found, receiver]
  simp only [ofExcept, pure_bind]
  have name : m.builderMethod? (Call.name ⟨Signature.build message, some (.ref id (.builder message)), []⟩) =
      some .build := if_pos rfl
  rw [if_neg (not_not.mpr rfl), name, ← held]
  rfl

end Native

/-- A value whose code takes no inputs is what that code leaves on an empty stack. -/
theorem TypedValue.runOn_eq {v : TypedValue} {ops : List Op} {t : NativeType} {a : Assembly} {nonNull : Bool}
    (wrote : Wrote (.start []) ops [t] a) (finished : a.finishExpression nonNull = .ok v.code)
    (host : Host) (fuel : Nat) :
    v.code.runOn host fuel [] =
      Op.execAll host fuel ops ⟨[], List.replicate a.maxLocals .null⟩ >>= fun frame =>
        Run.ofExcept (frame.pop "result") >>= fun popped => pure (some popped.1) := by
  obtain ⟨code, inputs, room, -⟩ := Assembly.Finishes.eq (.inl ⟨nonNull, finished⟩)
  rw [wrote.inputs] at inputs
  have own : a.ops = ops := wrote.ops
  have count : ¬([] : List Value).length ≠ v.code.inputs.length := by
    rw [inputs]
    exact not_not.mpr rfl
  rw [Sequence.runOn, if_neg count, code, own, room]
  change Op.execAll host fuel ops _ >>= _ = _
  rw [v.output_eq]
  rfl

namespace Op

variable {s : Schema} {message : String} {m : Message}

theorem exec_defaultInstance (found : s.message? message = some m) (fuel : Nat) (locals : List Value) :
    (invoke (Signature.defaultInstance message)).exec (.ofSchema s) fuel ⟨[], locals⟩ =
      Run.ofNative (Native.defaultInstance s message) >>= fun w => pure ⟨[w], locals⟩ := by
  have exec : (invoke (Signature.defaultInstance message)).exec (.ofSchema s) fuel ⟨[] ++ [], locals⟩ = _ :=
    Method.exec_invoke rfl rfl fuel [] locals
  rw [Method.act_onType rfl rfl] at exec
  exact exec.trans (congrArg (Run.ofNative · >>= _) (Native.call_defaultInstance found))

theorem run_newBuilder (found : s.message? message = some m) (fuel : Nat) (locals : List Value)
    (machine : Machine) :
    ((invoke (Signature.newBuilder message)).exec (.ofSchema s) fuel ⟨[], locals⟩).run machine =
      (.ok ⟨[.ref machine.store.nextId (.builder message)], locals⟩, machine.building (.empty message)) := by
  have exec : (invoke (Signature.newBuilder message)).exec (.ofSchema s) fuel ⟨[] ++ [], locals⟩ = _ :=
    Method.exec_invoke rfl rfl fuel [] locals
  rw [Method.act_onType rfl rfl] at exec
  have called : (Run.ofNative ((Host.ofSchema s).call ⟨Signature.newBuilder message, none, []⟩)).run
      machine = (.ok (.ref machine.store.nextId (.builder message)), machine.building (.empty message)) := by
    rw [Run.run_ofNative, Native.call_newBuilder found]
    rfl
  exact (congrArg (fun x : Run Frame => x.run machine) exec).trans (run_bind_ok called _)

theorem run_build (found : s.message? message = some m) {id : ObjectId} {data : MessageData}
    {machine : Machine} (contents : machine.store.builders.get? id = some data) (fuel : Nat)
    (locals : List Value) :
    ((invoke (Signature.build message)).exec (.ofSchema s) fuel
        ⟨[.ref id (.builder message)], locals⟩).run machine =
      ((Machine.alloc (.message data) : StateM Machine Value) >>= fun w => pure ⟨[w], locals⟩ :
        Run Frame).run machine := by
  have exec : (invoke (Signature.build message)).exec (.ofSchema s) fuel
      ⟨[.ref id (.builder message)] ++ [], locals⟩ = _ := Method.exec_invoke rfl rfl fuel [] locals
  rw [Method.act_receiver rfl rfl] at exec
  have called : (Run.ofNative ((Host.ofSchema s).call
      ⟨Signature.build message, some (.ref id (.builder message)), []⟩)).run machine =
        ((Machine.alloc (.message data) : StateM Machine Value) : Run Value).run machine := by
    rw [Run.run_ofNative, Native.call_build found contents]
    rfl
  refine (congrArg (fun x : Run Frame => x.run machine) exec).trans ?_
  rw [run_bind, called, run_bind]

end Op

/-- With arguments, the message starts from an empty builder. -/
theorem Filling.run_message {s : Schema} {fuel : Nat} {m : Message}
    {arguments : List (String × TypedValue)} (some : arguments.isEmpty = false) (machine : Machine) :
    (message s fuel m arguments).run machine =
      (arguments.foldlM (argument s fuel m machine.store.nextId) (.empty m.fullName) >>= fun data =>
        (Machine.alloc (.message data) : StateM Machine Value) : Run Value).run
          (machine.building (.empty m.fullName)) := by
  let fresh : Machine := { machine with store := { machine.store with nextId := machine.store.nextId + 1 } }
  have taken : (monadLift Machine.freshId : Run ObjectId).run machine =
      (.ok machine.store.nextId, fresh) := rfl
  have kept : (keep machine.store.nextId (.empty m.fullName)).run fresh =
      (.ok (.empty m.fullName), machine.building (.empty m.fullName)) := rfl
  unfold message
  rw [some, if_neg Bool.false_ne_true, run_bind_ok taken, run_bind_ok kept]

/-- The code for a message with arguments fills a new builder, and what is built of it is what the
arguments come to. -/
theorem Filling.run_built {s : Schema} (loaded : s.Loaded) {message : String} {m : Message}
    (found : s.message? message = some m) {arguments : List (String × TypedValue)} {v : TypedValue}
    (some : arguments.isEmpty = false)
    (assembled : TypedValue.assemble [] true (.message message) (do
      Assembler.invoke (Signature.newBuilder message)
      arguments.forM (Construction.setArgument s .immediate message)
      Assembler.invoke (Signature.build message)) = .ok v) {fuel : Nat}
    (enough : Int32.maxValue.toInt.toNat < fuel) (given : ∀ a ∈ arguments, Filling.Admissible s fuel m a)
    {machine : Machine} (tidy : machine.Tidy) :
    (v.code.run s fuel []).run machine =
      (Option.some <$> Filling.message s fuel m arguments).run machine := by
  obtain ⟨-, a, run, finished⟩ := TypedValue.assemble_eq_ok assembled
  rw [run_bind_ok (Method.run_invoke rfl rfl .nil)] at run
  obtain ⟨⟨⟩, b, filled, built⟩ := bind_eq_ok.mp run
  obtain ⟨ops, wrote, exec⟩ :=
    Fills.setArguments enough loaded found given _ b rfl (Setting.any_lasts _) filled
  rw [Method.run_invoke rfl wrote.stack (.refl _)] at built
  cases built
  unfold Sequence.run
  rw [TypedValue.runOn_eq (((Wrote.put ..).trans wrote).trans (.put ..)) finished, Op.execAll_append,
    Op.execAll_append, Op.execAll_singleton, bind_assoc, bind_assoc,
    run_bind_ok (Op.run_newBuilder found ..), run_map, Filling.run_message some, ← run_map,
    ← bind_pure_comp, bind_assoc, Schema.Loaded.fullName_eq found]
  apply Alike.run_eq
  have room : b.maxLocals ≤ (List.replicate
      (b.put [Op.invoke (Signature.build message)] [.message message]).maxLocals Value.null).length := by
    rw [List.length_replicate]
    exact le_rfl
  apply (exec (· = machine.store.nextId) machine.store.nextId (.empty message) [] _ _ rfl trivial room
    (Machine.Apart.building tidy (.empty message))).bind
  intro frame data machine' after
  obtain ⟨stack', locals'⟩ := frame
  cases after.stack
  rw [Op.execAll_singleton]
  exact .inr ⟨_, _, _, run_bind_ok (Op.run_build found after.keeps.contents fuel locals') _, rfl, rfl⟩

/-- The code that is generated for a message comes to what the arguments come to. -/
theorem Filling.run_generated {s : Schema} (loaded : s.Loaded) {message : String} {m : Message}
    (found : s.message? message = some m) {arguments : List (String × TypedValue)} {v : TypedValue}
    (generated : generateConstruction s .immediate message arguments = .ok v) {fuel : Nat}
    (enough : Int32.maxValue.toInt.toNat < fuel) (given : ∀ a ∈ arguments, Filling.Admissible s fuel m a)
    {machine : Machine} (tidy : machine.Tidy) :
    (v.code.run s fuel []).run machine = (some <$> Filling.message s fuel m arguments).run machine := by
  obtain ⟨-, assembled⟩ := generateConstruction_eq_ok.mp generated
  cases arguments with
  | nil =>
      obtain ⟨-, a, run, finished⟩ := TypedValue.assemble_eq_ok assembled
      unfold Sequence.run Filling.message
      simp only [List.isEmpty_nil, if_true] at run ⊢
      rw [Method.run_invoke rfl rfl .nil] at run
      cases run
      rw [TypedValue.runOn_eq (.put ..) finished, Op.execAll_singleton, Op.exec_defaultInstance found,
        bind_assoc, Schema.Loaded.fullName_eq found, ← bind_pure_comp]
      rfl
  | cons first rest => exact Filling.run_built loaded found rfl assembled enough given tidy

theorem TypedValue.evaluate_ofConstant (c : Constant) (type : ValueType) (host : Host) (fuel : Nat) :
    (ofConstant c type).evaluate host fuel = (monadLift c.load : Run Value) := by
  apply Stateful.ext
  intro machine
  cases c <;> rfl

/-- Only the constant null is null. -/
theorem TypedValue.ofConstant_truthful (c : Constant) (type : ValueType) (host : Host) (fuel : Nat) :
    (ofConstant c type).Truthful host fuel := by
  intro marked machine w machine' run
  rw [evaluate_ofConstant] at run
  cases c with
  | null =>
      rcases marked with mark | primitive
      · cases mark
      · cases primitive
  | _ =>
      cases run
      intro absurd
      cases absurd

end MessageCode
