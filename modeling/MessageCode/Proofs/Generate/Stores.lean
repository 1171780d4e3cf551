import MessageCode.Proofs.Generate.Deposits
import MessageCode.Proofs.Machine.Ascending
import MessageCode.Proofs.Machine.Isolated
import MessageCode.Proofs.Machine.Spliced

/-!
Storing a value. The code that coerces the value on top and hands it to the builder below it changes
the contents of that builder as storing does, and leaves all else that it could disturb as it is.
-/

namespace MessageCode

open Stateful

/-- What acts on a value leaves alone what the value does not lead to. -/
theorem Acts.guarded {host : Host} {ops : List Op} {act : Value → Run Value}
    {hidden : ObjectId → Prop} {made : Nat} {v : Value} (h : Acts host ops act)
    (guards : host.Guards hidden) (leads : LeadsOpen hidden made v) :
    Guarded hidden made (act v) (LeadsOpen hidden) := by
  intro m le apart w m' run
  have start : (Frame.mk [v] []).LeadsOpen hidden made := by
    constructor
    · intro x mem
      rw [List.mem_singleton.mp mem]
      exact leads
    · intro x mem
      cases mem
  have ran : (Op.execAll host 0 ops ⟨[v], []⟩).run m = (.ok ⟨[w], []⟩, m') := by
    rw [h.exec, run_bind_ok run]
    rfl
  obtain ⟨grows, apart', same, left⟩ := Op.execAll_guarded guards ops start m le apart _ m' ran
  exact ⟨grows, apart', same, left.stack w List.mem_cons_self⟩

/-- The builder holds the contents, with the slots in order, and nothing leads to it or to what else is hidden. -/
structure Machine.Keeps (hidden : ObjectId → Prop) (id : ObjectId) (data : MessageData)
    (m : Machine) : Prop where
  apart : m.Apart hidden
  builder : hidden id
  contents : m.store.builders.get? id = some data
  ascending : data.Ascending

/-- What holds of a frame and its machine ever since an earlier point: the locals in use are as they
were and so are the hidden lists, the rest of the stack is there, and the builder keeps its contents. -/
structure Filled (hidden : ObjectId → Prop) (id : ObjectId) (inUse : Nat) (stack locals : List Value)
    (m : Machine) (frame : Frame) (data : MessageData) (m' : Machine) : Prop where
  stack : frame.stack = stack
  length : frame.locals.length = locals.length
  slot : ∀ i, i < inUse → frame.locals[i]? = locals[i]?
  grows : m.store.nextId ≤ m'.store.nextId
  lists : ∀ k, hidden k → m'.store.lists.get? k = m.store.lists.get? k
  keeps : m'.Keeps hidden id data

namespace Filled

variable {hidden : ObjectId → Prop} {id : ObjectId} {inUse inUse' : Nat}
  {stack stack' locals : List Value} {m m' m'' : Machine} {frame frame' : Frame}
  {data data' : MessageData}

theorem trans (h : Filled hidden id inUse stack locals m frame data m')
    (h' : Filled hidden id inUse stack' frame.locals m' frame' data' m'') :
    Filled hidden id inUse stack' locals m frame' data' m'' where
  stack := h'.stack
  length := h'.length.trans h.length
  slot i used := (h'.slot i used).trans (h.slot i used)
  grows := h.grows.trans h'.grows
  lists k out := (h'.lists k out).trans (h.lists k out)
  keeps := h'.keeps

theorem mono (h : Filled hidden id inUse stack locals m frame data m') (le : inUse' ≤ inUse) :
    Filled hidden id inUse' stack locals m frame data m' :=
  { h with slot := fun i used => h.slot i (used.trans_le le) }

theorem here (keeps : m.Keeps hidden id data) (inUse : Nat) (stack locals : List Value) :
    Filled hidden id inUse stack locals m ⟨stack, locals⟩ data m where
  stack := rfl
  length := rfl
  slot _ _ := rfl
  grows := le_rfl
  lists _ _ := rfl
  keeps := keeps

theorem of_guarded {α : Type} {x : Run α} {a : α} {made : Nat} {Q : Nat → α → Prop}
    (h : Guarded hidden made x Q) (le : made ≤ m.store.nextId) (keeps : m.Keeps hidden id data)
    (run : x.run m = (.ok a, m')) (inUse : Nat) (stack locals : List Value) :
    Filled hidden id inUse stack locals m ⟨stack, locals⟩ data m' ∧ Q m'.store.nextId a := by
  obtain ⟨grows, apart, same, holds⟩ := h m le keeps.apart a m' run
  have contents : m'.store.builders.get? id = some data :=
    (same id keeps.builder).builder.trans keeps.contents
  exact ⟨⟨rfl, rfl, fun _ _ => rfl, grows, fun k out => (same k out).list,
    ⟨apart, keeps.builder, contents, keeps.ascending⟩⟩, holds⟩

theorem written (keeps : m.Keeps hidden id data) (ascending : data'.Ascending) (inUse : Nat)
    (stack locals : List Value) :
    Filled hidden id inUse stack locals m ⟨stack, locals⟩ data'
      { m with store := m.store.setBuilder id data' } where
  stack := rfl
  length := rfl
  slot _ _ := rfl
  grows := le_rfl
  lists _ _ := rfl
  keeps := ⟨keeps.apart.setBuilder id data', keeps.builder, Cells.get?_set_self, ascending⟩

end Filled

def Valued (hidden : ObjectId → Prop) (id : ObjectId) (inUse : Nat) (stack locals : List Value)
    (data : MessageData) (m : Machine) (frame : Frame) (w : Value) (m' : Machine) : Prop :=
  Filled hidden id inUse (w :: stack) locals m frame data m' ∧ LeadsOpen hidden m'.store.nextId w

section

variable {host : Host} {hidden : ObjectId → Prop} {id : ObjectId}
  {stack locals : List Value} {data : MessageData} {m : Machine}

/-- Code that acts on the value on top. -/
theorem Acts.valued {ops : List Op} {act : Value → Run Value} {v : Value} (h : Acts host ops act)
    (guards : host.Guards hidden) (leads : LeadsOpen hidden m.store.nextId v)
    (keeps : m.Keeps hidden id data) (fuel inUse : Nat) :
    Alike (Op.execAll host fuel ops ⟨v :: stack, locals⟩) (act v) m
      (Valued hidden id inUse stack locals data m) := by
  rw [h.exec]
  rcases run : (act v).run m with ⟨e | w, m'⟩
  · exact .inl ⟨e, m', run_bind_error run _, run⟩
  · have after := Filled.of_guarded (h.guarded guards leads) le_rfl keeps run inUse (w :: stack) locals
    exact .inr ⟨⟨w :: stack, locals⟩, w, m', by rw [run_bind_ok run]; rfl, run, after⟩

/-- The code of a value ends with a result. -/
theorem TypedValue.exists_result {v : TypedValue} {fuel : Nat} {inputs : List Value}
    {result : Option Value} {m' : Machine} (run : (v.code.runOn host fuel inputs).run m = (.ok result, m')) :
    ∃ w, result = some w := by
  unfold Sequence.runOn at run
  by_cases other : inputs.length ≠ v.code.inputs.length
  · rw [if_pos other] at run
    cases run
  rw [if_neg other] at run
  obtain ⟨frame, _, -, run⟩ := bind_eq_ok.mp run
  rw [v.output_eq] at run
  obtain ⟨popped, _, -, run⟩ := bind_eq_ok.mp run
  cases run
  exact ⟨popped.1, rfl⟩

/-- Finished code of a value goes as it goes alone. -/
theorem TypedValue.valued {v : TypedValue} (proper : v.code.IsProper) (guards : host.Guards hidden)
    (alone : v.code.inputs = []) {inUse : Nat} (room : inUse + v.code.maxLocals ≤ locals.length)
    (keeps : m.Keeps hidden id data) (fuel : Nat) :
    Alike (Op.execAll host fuel (Op.relocateAll inUse v.code.ops) ⟨stack, locals⟩)
      (v.evaluate host fuel) m (Valued hidden id inUse stack locals data m) := by
  obtain ⟨use, record, finished, stores⟩ := proper
  have count : ([] : List Value).length = v.code.inputs.length := by
    rw [alone]
    rfl
  have runs := finished.runsAlone_of_storesFirst stores host fuel count stack room m
  have guarded : Guarded hidden 0 (v.code.runOn host fuel []) (LeadsOpen? hidden) := by
    apply v.code.runOn_guarded guards fuel
    intro w mem
    cases mem
  rcases runs with ⟨e, m', run, run'⟩ | ⟨frame, result, m', run, run', stack', length, slot⟩
  · exact .inl ⟨e, m', run, run_bind_error run' _⟩
  · obtain ⟨w, rfl⟩ := v.exists_result run'
    have evaluated : (v.evaluate host fuel).run m = (.ok w, m') := by
      unfold evaluate
      rw [run_bind_ok run']
      rfl
    obtain ⟨after, leads⟩ := Filled.of_guarded guarded (Nat.zero_le _) keeps run' inUse stack locals
    refine .inr ⟨frame, w, m', run, evaluated, ⟨stack', length, slot, ?_, ?_, ?_⟩, leads w rfl⟩
    · exact after.grows
    · exact after.lists
    · exact after.keeps

end

/-- Storing in the builder changes the contents that it keeps. -/
theorem Filling.deposit_filled {hidden : ObjectId → Prop} {id : ObjectId} {data : MessageData}
    {machine : Machine} (keeps : machine.Keeps hidden id data) (m : Message) (f : Field)
    (message : String) (e : Except Fault Stored) (inUse : Nat) (locals : List Value) :
    Alike (Run.ofExcept e >>= fun a => deposit (m.store f) message id a >>= fun _ =>
        pure (Frame.mk [.ref id (.builder message)] locals))
      (Run.ofExcept e >>= fun a => keep id (m.adding f a data)) machine
      (Filled hidden id inUse [.ref id (.builder message)] locals machine) := by
  cases e with
  | error fault => exact .inl ⟨.fault fault, machine, rfl, rfl⟩
  | ok a =>
      have contents : machine.store.builderData id message = data := by
        unfold Store.builderData
        rw [keeps.contents]
        rfl
      have deposited := run_deposit (m.store f) message id a machine
      rw [contents, Message.store_eq_adding keeps.ascending] at deposited
      refine .inr ⟨_, _, _, ?_, rfl, Filled.written keeps (Message.adding_ascending keeps.ascending) inUse _ locals⟩
      have ready : (Run.ofExcept (.ok a)).run machine = (.ok a, machine) := rfl
      rw [run_bind_ok ready, run_bind_ok deposited]
      rfl

/-- Where the steps can be written with a value above some others above the builder, they take all but
the builder and change its contents by the value. -/
def Stores (s : Schema) (fuel : Nat) (message : String) (under : List NativeType)
    (below : List Value → Prop) (t t' : NativeType) (steps : Assembler GenerateError Unit)
    (store : ObjectId → MessageData → Value → Run MessageData) : Prop :=
  ∀ a a', a.stack = t :: (under ++ [.builder message]) → steps.run a = (.ok (), a') →
    ∃ ops, Wrote a ops [t'] a' ∧ ∀ hidden id data w others locals m, below others →
      a'.maxLocals ≤ locals.length → LeadsOpen hidden m.store.nextId w → m.Keeps hidden id data →
        Alike (Op.execAll (.ofSchema s) fuel ops ⟨w :: (others ++ [.ref id (.builder message)]), locals⟩)
          (store id data w) m
          (Filled hidden id a.nextLocal [.ref id (.builder message)] locals m)

theorem Refers.pushed {s : Schema} {f g : Field} {identifier : StaticField} (h : Refers s f g identifier)
    {hidden : ObjectId → Prop} {id : ObjectId} {data : MessageData} {m : Machine}
    (keeps : m.Keeps hidden id data) (fuel inUse : Nat) (stack locals : List Value) :
    Alike ((Op.getStatic identifier).exec (.ofSchema s) fuel ⟨stack, locals⟩) Filling.identify m
      (fun frame _ m' => ∃ others, Identified s g others ∧
        Filled hidden id inUse (others ++ stack) locals m frame data m') := by
  obtain ⟨owner, name, resolves, fetched⟩ := h.exec_getStatic fuel stack locals
  let fresh : Machine := { m with store := { m.store with nextId := m.store.nextId + 1 } }
  have ran : ((Op.getStatic identifier).exec (.ofSchema s) fuel ⟨stack, locals⟩).run m =
      (.ok ⟨.ref m.store.nextId (.extension owner name) :: stack, locals⟩, fresh) := by
    rw [fetched]
    rfl
  have guarded : Guarded hidden 0 (monadLift Machine.freshId : Run ObjectId) (Open hidden) :=
    Machine.freshId_guarded
  have taken : (monadLift Machine.freshId : Run ObjectId).run m = (.ok m.store.nextId, fresh) := rfl
  obtain ⟨after, -⟩ := Filled.of_guarded guarded (Nat.zero_le _) keeps taken inUse
    (.ref m.store.nextId (.extension owner name) :: stack) locals
  exact .inr ⟨_, (), fresh, ran, rfl, _, ⟨_, owner, name, resolves, rfl⟩, after⟩

namespace Stores

variable {s : Schema} {fuel : Nat} {message : String} {m : Message} {f : Field}

theorem of_operand {under : List NativeType} {below : List Value → Prop} {t t' t'' : NativeType}
    {steps more : Assembler GenerateError Unit} {act : Value → Run Value}
    {store : ObjectId → MessageData → Value → Run MessageData}
    (operand : Becomes (.ofSchema s) t t' steps act)
    (h : Stores s fuel message under below t' t'' more store) :
    Stores s fuel message under below t t'' (steps >>= fun _ => more)
      (fun id data w => act w >>= store id data) := by
  intro a a' stack run
  obtain ⟨⟨⟩, b, first, second⟩ := bind_eq_ok.mp run
  obtain ⟨ops, wrote, acts⟩ := operand a _ b stack first
  obtain ⟨ops', wrote', exec⟩ := h b a' wrote.stack second
  refine ⟨ops ++ ops', wrote.trans wrote', ?_⟩
  intro hidden id data w others locals machine ready room leads keeps
  rw [Op.execAll_append]
  apply (acts.valued (Host.ofSchema_guards s hidden) leads keeps fuel a.nextLocal).bind
  intro frame x machine' h
  obtain ⟨after, leads⟩ := h
  obtain ⟨stack', locals'⟩ := frame
  cases after.stack
  have room' : a'.maxLocals ≤ locals'.length := room.trans after.length.ge
  apply (exec hidden id data x others locals' machine' ready room' leads after.keeps).imp
  intro frame data' machine'' later
  rw [wrote.nextLocal] at later
  exact after.trans later

theorem of_deposits {under : List NativeType} {below : List Value → Prop} {t t' : NativeType}
    {steps : Assembler GenerateError Unit} {e : Value → Except Fault Stored}
    (h : Deposits s fuel message under below t t' steps fun id x =>
      Run.ofExcept (e x) >>= Filling.deposit (m.store f) message id) :
    Stores s fuel message under below t t' steps
      (fun id data x => Run.ofExcept (e x) >>= fun a => Filling.keep id (m.adding f a data)) := by
  intro a a' stack run
  obtain ⟨ops, wrote, exec⟩ := h a a' stack run
  refine ⟨ops, wrote, ?_⟩
  intro hidden id data x others locals machine ready _ _ keeps
  rw [exec id x others locals ready, bind_assoc]
  exact Filling.deposit_filled keeps m f message (e x) a.nextLocal locals

theorem declared (settable : Settable s message m f) (declared : f.extensionScope = none)
    (c : Coercion) (type : ValueType) (t : NativeType) (late : Bool) :
    Stores s fuel message [] (· = []) t (.builder message) (Construction.storeValue f c type)
      (fun id data w => Filling.stored (.ofSchema s) f c type t late w >>= fun a =>
        Filling.keep id (m.adding f a data)) := by
  have own := Field.isExtension_of_declared declared
  rw [Construction.storeValue_eq]
  simp only [Filling.stored_eq, Filling.storedIn_declared own, bind_assoc (operandFrom _ _ _ _ _)]
  exact of_operand (Becomes.operand (.ofSchema s) c type t)
    (of_deposits (Deposits.setter settable.addressed declared c _))

theorem extension (settable : Settable s message m f) (extension : f.isExtension = true)
    (c : Coercion) (type : ValueType) (t : NativeType) :
    Stores s fuel message [Signature.extension] (Identified s f) t (.ref .extendableBuilder)
      (Construction.extensionValue c type >>= fun _ => Assembler.invoke (Filling.method f c))
      (fun id data w => Filling.stored (.ofSchema s) f c type t false w >>= fun a =>
        Filling.keep id (m.adding f a data)) := by
  simp only [Filling.stored_eq, Filling.storedIn_extension extension, Bool.false_eq_true, if_false, pure_bind,
    bind_assoc]
  simp only [← bind_assoc (operandFrom _ _ _ _ _)]
  apply of_operand (Becomes.extensionOperand (.ofSchema s) c type t)
  exact of_deposits (Deposits.extensionCall settable.addressed extension c _)

theorem identifyLate {t t' : NativeType} {more : Assembler GenerateError Unit}
    {store : ObjectId → MessageData → Value → Run MessageData} {identifier : StaticField}
    (refers : Refers s f f identifier)
    (h : Stores s fuel message [Signature.extension] (Identified s f) t t' more store) :
    Stores s fuel message [] (· = []) t t'
      (Assembler.getStatic identifier >>= fun _ => Assembler.swap >>= fun _ => more)
      (fun id data w => Filling.identify >>= fun _ => store id data w) := by
  intro a a' stack run
  obtain ⟨ops, wrote, exec⟩ := h _ a' rfl (refers.run_below stack run)
  refine ⟨[.getStatic identifier] ++ [.swap] ++ ops, (Wrote.put ..).trans wrote, ?_⟩
  rintro hidden id data w _ locals machine rfl room leads keeps
  rw [List.nil_append, Op.execAll_append, Op.execAll_append, Op.execAll_singleton, bind_assoc]
  apply (refers.pushed keeps fuel a.nextLocal [w, .ref id (.builder message)] locals).bind
  rintro frame ⟨⟩ machine' ⟨_, ready, after⟩
  obtain ⟨extensionId, owner, name, resolves, rfl⟩ := ready
  obtain ⟨stack', locals'⟩ := frame
  cases after.stack
  have room' : a'.maxLocals ≤ locals'.length := room.trans after.length.ge
  rw [Op.execAll_singleton]
  change Alike (pure (Frame.mk (w :: ([.ref extensionId (.extension owner name)] ++ _)) locals') >>= _)
    _ _ _
  rw [pure_bind]
  have same := leads.mono after.grows
  apply (exec hidden id data w _ locals' machine' ⟨extensionId, owner, name, resolves, rfl⟩ room' same
    after.keeps).imp
  intro frame data' machine'' later
  exact after.trans later

theorem extensionLate (settable : Settable s message m f) (extension : f.isExtension = true)
    {identifier : StaticField} (refers : Refers s f f identifier) (c : Coercion)
    (type : ValueType) (t : NativeType) :
    Stores s fuel message [] (· = []) t (.ref .extendableBuilder)
      (Construction.extensionValue c type >>= fun _ => Assembler.getStatic identifier >>= fun _ =>
        Assembler.swap >>= fun _ => Assembler.invoke (Filling.method f c))
      (fun id data w => Filling.stored (.ofSchema s) f c type t true w >>= fun a =>
        Filling.keep id (m.adding f a data)) := by
  simp only [Filling.stored_eq, Filling.storedIn_extension extension, if_true, bind_assoc]
  simp only [← bind_assoc (operandFrom _ _ _ _ _)]
  apply of_operand (Becomes.extensionOperand (.ofSchema s) c type t)
  exact identifyLate refers (of_deposits (Deposits.extensionCall settable.addressed extension c _))

end Stores

end MessageCode
