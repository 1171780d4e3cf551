import MessageCode.Proofs.Generate.Access
import MessageCode.Proofs.Generate.Filling
import MessageCode.Proofs.Machine.Mutations

/-!
Handing values to a builder. The code that does it takes the value and all that it needs beside it, and
leaves the builder: what it comes to is a change of the contents of the builder, wherever it runs.
-/

namespace MessageCode

open Stateful

namespace Native

variable {s : Schema} {message : String} {f : Field} {m : Message}

/-- A setter whose name leads back to the field stores its operand. -/
theorem call_setter {method : Method} (found : s.message? message = some m)
    (owner : method.owner = .builder message)
    (sets : m.builderMethod? method.name = some (if f.isRepeated then .add f else .set f))
    (id : ObjectId) (x : Value) :
    (Host.ofSchema s).call ⟨method, some (.ref id (.builder message)), [x]⟩ =
      ofExcept (Storage.ofValue ⟨method, none, []⟩ f x) >>= storeIn (m.store f) message id := by
  have operand : operand ⟨method, some (.ref id (.builder message)), [x]⟩ f =
      Storage.ofValue ⟨method, none, []⟩ f x := by
    unfold Native.operand
    rw [owner]
    rfl
  rw [← operand]
  exact invoke_setter found owner rfl sets

theorem call_storeExtension {method : Method} {owner name : String}
    (onBuilder : method.owner = .extendableBuilder)
    (called : method.name = if f.isRepeated then "add_extension" else "set_extension")
    (resolves : s.extensionById? owner name = some f) (container : f.container = message)
    (alone : f.oneof = none) (m : Message) (id extensionId : ObjectId) (x : Value) :
    (Host.ofSchema s).call ⟨method, some (.ref id (.builder message)),
        [.ref extensionId (.extension owner name), x]⟩ =
      ofExcept (Storage.ofExtensionValue ⟨method, none, []⟩ f x) >>= storeIn (m.store f) message id := by
  let c : Call := ⟨method, some (.ref id (.builder message)), [.ref extensionId (.extension owner name), x]⟩
  have operand : operand c f = Storage.ofExtensionValue ⟨method, none, []⟩ f x := by
    unfold Native.operand
    rw [if_pos onBuilder]
    rfl
  have identified : extensionArg s c message = .ok f := by
    simp [c, extensionArg, Call.objectArg, Call.arg, bind, Except.bind, resolves, container]
  rw [← operand]
  exact invoke_storeExtension onBuilder rfl identified alone called m

/-- The operation for extensions refuses an extension of another message. -/
theorem call_foreignExtension {method : Method} {owner name : String}
    (onBuilder : method.owner = .extendableBuilder) (resolves : s.extensionById? owner name = some f)
    (foreign : f.container ≠ message) (id extensionId : ObjectId) (x : Value) :
    (Host.ofSchema s).call ⟨method, some (.ref id (.builder message)),
        [.ref extensionId (.extension owner name), x]⟩ =
      throw (.illegalArgument ("extension " ++ f.fullName ++ " does not extend " ++ message)) := by
  let c : Call := ⟨method, some (.ref id (.builder message)),
    [.ref extensionId (.extension owner name), x]⟩
  change Native.dispatch s c >>= _ = _
  unfold Native.dispatch
  have onBuilder : c.method.owner = .extendableBuilder := onBuilder
  rw [onBuilder]
  change Native.callExtendableBuilder s c >>= _ = _
  unfold Native.callExtendableBuilder
  have receiver : builderReceiver c = .ok (id, message) := builderReceiver_eq_ok.mpr rfl
  have refused : extensionArg s c message =
      .error (.illegalArgument ("extension " ++ f.fullName ++ " does not extend " ++ message)) := by
    simp [c, extensionArg, Call.objectArg, Call.arg, bind, Except.bind, resolves, foreign]
  rw [receiver]
  simp only [ofExcept, pure_bind]
  rw [refused]
  rfl

end Native

/-- The operations that are called for the first field act on the second, the first one that has the name of
its setter or shares its identifier. -/
def Field.Addresses (s : Schema) (m : Message) (f g : Field) : Prop :=
  match f.extensionScope with
  | none => m.builderMethod? (Naming.setter f) = some (if g.isRepeated then .add g else .set g)
  | some scope => s.extensionById? scope.owner f.name = some g

/-- What such an operation checks of its operand and stores. -/
def Field.take (f g : Field) (c : Coercion) (x : Value) : Except Fault Stored :=
  let call : Call := { method := Filling.method f c, receiver := none, args := [] }
  if f.isExtension then
    if g.container = f.container then Storage.ofExtensionValue call g x
    else .error (.illegalArgument ("extension " ++ g.fullName ++ " does not extend " ++ f.container))
  else Storage.ofValue call g x

structure Addressed (s : Schema) (message : String) (m : Message) (f g : Field) : Prop where
  found : s.message? message = some m
  container : f.container = message
  addresses : f.Addresses s m g
  label : g.container = message → g.isRepeated = f.isRepeated
  alone : f.isExtension = true → g.oneof = none

structure Settable (s : Schema) (message : String) (m : Message) (f : Field) : Prop where
  found : s.message? message = some m
  container : f.container = message
  sets : f.SetsBack s m
  alone : f.isExtension = true → f.oneof = none

theorem Settable.addressed {s : Schema} {message : String} {m : Message} {f : Field}
    (h : Settable s message m f) : Addressed s message m f f :=
  ⟨h.found, h.container, h.sets, fun _ => rfl, h.alone⟩

/-- The static that holds the identifier of the first extension leads to the second one. -/
structure Refers (s : Schema) (f g : Field) (id : StaticField) : Prop where
  identifier : Signature.extensionId f = .ok id
  type : id.type = Signature.extension
  load : ∃ owner name, StaticField.load s id = .ok (.extension owner name) ∧
    s.extensionById? owner name = some g

theorem Refers.ofExcept_eq {s : Schema} {f g : Field} {id : StaticField} (h : Refers s f g id) :
    (Assembler.ofExcept (Signature.extensionId f) : Assembler GenerateError StaticField) = pure id := by
  rw [h.identifier]
  rfl

/-- The assembler knows what the static holds. -/
theorem Refers.run_getStatic {s : Schema} {f g : Field} {id : StaticField} (h : Refers s f g id)
    (a : Assembly) :
    (Assembler.getStatic id : Assembler GenerateError Unit).run a =
      (.ok (), a.put [.getStatic id] (Signature.extension :: a.stack)) := by
  rw [Assembler.run_getStatic, h.type]

theorem Refers.exec_getStatic {s : Schema} {f g : Field} {id : StaticField} (h : Refers s f g id) (fuel : Nat)
    (stack locals : List Value) :
    ∃ owner name, s.extensionById? owner name = some g ∧
      (Op.getStatic id).exec (.ofSchema s) fuel ⟨stack, locals⟩ =
        (monadLift Machine.freshId : Run ObjectId) >>= fun k =>
          pure ⟨.ref k (.extension owner name) :: stack, locals⟩ := by
  obtain ⟨owner, name, load, resolves⟩ := h.load
  refine ⟨owner, name, resolves, ?_⟩
  rw [Op.exec_getStatic]
  change Run.ofExcept (StaticField.load s id) >>= _ = _
  rw [load]
  rfl

theorem Refers.run_below {s : Schema} {f g : Field} {identifier : StaticField}
    (refers : Refers s f g identifier) {t : NativeType} {rest : List NativeType}
    {more : Assembler GenerateError Unit} {a a' : Assembly} (stack : a.stack = t :: rest)
    (run : (Assembler.getStatic identifier >>= fun _ => Assembler.swap >>= fun _ => more).run a =
      (.ok (), a')) :
    more.run (a.put ([.getStatic identifier] ++ [.swap]) (t :: Signature.extension :: rest)) =
      (.ok (), a') := by
  have stack' : (a.put [.getStatic identifier] (Signature.extension :: a.stack)).stack =
      Signature.extension :: t :: rest := congrArg _ stack
  have swapped : (Assembler.swap : Assembler GenerateError Unit).run _ = (.ok (), _) :=
    Assembler.swap_eq_ok.mpr ⟨_, _, _, stack', rfl⟩
  rwa [run_bind_ok (refers.run_getStatic a), run_bind_ok swapped, Assembly.put_put] at run

theorem Addressed.declared_or_refers {s : Schema} {message : String} {m : Message} {f g : Field}
    (h : Addressed s message m f g) : f.extensionScope = none ∧ f.isExtension = false ∨
      f.isExtension = true ∧ ∃ identifier, Refers s f g identifier := by
  have addresses := h.addresses
  unfold Field.Addresses at addresses
  unfold Field.isExtension
  cases declared : f.extensionScope with
  | none => exact .inl ⟨rfl, rfl⟩
  | some scope =>
      rw [declared] at addresses
      have known : (s.extensionById? scope.owner f.name).isSome = true := by
        rw [addresses]
        rfl
      refine .inr ⟨rfl, ?_⟩
      cases scope with
      | message name =>
          refine ⟨_, by rw [Signature.extensionId, declared], rfl, name, f.name, ?_, addresses⟩
          exact if_pos known
      | file holder =>
          refine ⟨_, by rw [Signature.extensionId, declared], rfl, holder, f.name, ?_, addresses⟩
          exact if_pos known

def Identified (s : Schema) (f : Field) (values : List Value) : Prop :=
  ∃ id owner name, s.extensionById? owner name = some f ∧ values = [.ref id (.extension owner name)]

theorem Becomes.widen (host : Host) (message : String) :
    Becomes host (.builder message) (.builder message) (Assembler.checkCast .extendableBuilder)
      Pure.pure := by
  have fits : (NativeType.builder message).assignableTo (.ref .extendableBuilder) = true := by
    simp [NativeType.assignableTo, RefType.assignableTo]
  apply of_turns (.checkCast_upcast fits _ _)
  · simp [NativeType.assignableTo, RefType.assignableTo]
  · simp

theorem Becomes.narrow (host : Host) (message : String) :
    Becomes host (.ref .extendableBuilder) (.builder message) (Assembler.checkCast (.builder message))
      (Turns.castTo (.builder message)) := by
  have down : (NativeType.ref .extendableBuilder).assignableTo (.ref (.builder message)) = false := by
    simp [NativeType.assignableTo, RefType.assignableTo]
  apply of_turns (.checkCast _ (.inl down))
  simp [NativeType.assignableTo, RefType.assignableTo]

/-- Around steps that take the builder for an extendable one there is code that gives back the builder. -/
theorem Assembler.asExtendable_eq_ok (s : Schema) {message : String} {steps : Assembler GenerateError Unit}
    {a a' : Assembly} (stack : a.stack = [.builder message])
    (run : (checkCast .extendableBuilder >>= fun _ => steps >>= fun _ =>
      checkCast (.builder message)).run a = (.ok (), a')) :
    ∃ b d opening, b.stack = [.builder message] ∧ b.nextLocal = a.nextLocal ∧ steps.run b = (.ok (), d) ∧
      (∀ fuel id locals, Op.execAll (.ofSchema s) fuel opening ⟨[.ref id (.builder message)], locals⟩ =
        pure ⟨[.ref id (.builder message)], locals⟩) ∧
      ∀ ops, Wrote b ops [.ref .extendableBuilder] d → ∃ closing,
        Wrote a (opening ++ (ops ++ closing)) [.builder message] a' ∧ d.maxLocals ≤ a'.maxLocals ∧
        ∀ fuel id locals, Op.execAll (.ofSchema s) fuel closing ⟨[.ref id (.builder message)], locals⟩ =
          pure ⟨[.ref id (.builder message)], locals⟩ := by
  obtain ⟨⟨⟩, b, first, rest⟩ := bind_eq_ok.mp run
  obtain ⟨⟨⟩, d, second, third⟩ := bind_eq_ok.mp rest
  obtain ⟨opening, wrote, acts⟩ := Becomes.widen (.ofSchema s) message a [] b stack first
  refine ⟨b, d, opening, wrote.stack, wrote.nextLocal, second, ?_, fun ops wrote' => ?_⟩
  · intro fuel id locals
    rw [acts.exec, pure_bind]
  · obtain ⟨closing, wrote'', acts'⟩ := Becomes.narrow (.ofSchema s) message d [] a' wrote'.stack third
    refine ⟨closing, wrote.trans (wrote'.trans wrote''), wrote''.maxLocals, fun fuel id locals => ?_⟩
    rw [acts'.exec, Turns.castTo_builder, pure_bind]

theorem Field.isExtension_of_declared {f : Field} (declared : f.extensionScope = none) :
    f.isExtension = false := by
  rw [isExtension, declared]
  rfl

namespace Filling

theorem method_declared {f : Field} (own : f.isExtension = false) (c : Coercion) :
    method f c = Signature.setter f c.storageType := by
  unfold method
  rw [own]
  rfl

theorem method_extension {f : Field} (extension : f.isExtension = true) (c : Coercion) :
    method f c = if f.isRepeated then Signature.addExtension else Signature.setExtension := by
  unfold method
  rw [extension]
  rfl

/-- A value is stored in the builder. -/
def deposit (change : Stored → MessageData → MessageData) (message : String) (id : ObjectId) (a : Stored) :
    Run Unit := do
  let _ ← Run.ofNative (Native.storeIn change message id a)

theorem run_deposit (change : Stored → MessageData → MessageData) (message : String) (id : ObjectId)
    (a : Stored) (machine : Machine) :
    (deposit change message id a).run machine = (.ok (), { machine with
      store := machine.store.setBuilder id (change a (machine.store.builderData id message)) }) := rfl

theorem storeIn_bind {α : Type} (e : Except Fault Stored) (change : Stored → MessageData → MessageData)
    (message : String) (id : ObjectId) (next : Value → Run α) :
    Run.ofNative (Native.ofExcept e >>= Native.storeIn change message id) >>= next =
      Run.ofExcept e >>= deposit change message id >>= fun _ => next (.ref id (.builder message)) := by
  cases e <;> rfl

/-- The stored form of a value for the field, where what is called for it acts on another field. -/
def storedIn (host : Host) (f g : Field) (c : Coercion) (type : ValueType) (t : NativeType) (late : Bool)
    (v : Value) : Run Stored := do
  let operand ← operandFrom host c type t v
  if f.isExtension then
    let wrapped ← wrapFrom (c.operandType type t) operand
    if late then identify
    Run.ofExcept (f.take g c wrapped)
  else Run.ofExcept (f.take g c operand)

theorem take_declared {f : Field} (own : f.isExtension = false) (g : Field) (c : Coercion) (x : Value) :
    f.take g c x = Storage.ofValue ⟨method f c, none, []⟩ g x := by
  unfold Field.take
  rw [own, if_neg Bool.false_ne_true]

theorem take_extension {f g : Field} (extension : f.isExtension = true) (same : g.container = f.container)
    (c : Coercion) (x : Value) :
    f.take g c x = Storage.ofExtensionValue ⟨method f c, none, []⟩ g x := by
  unfold Field.take
  rw [extension, if_pos rfl, if_pos same]

theorem stored_eq (host : Host) (f : Field) : stored host f = storedIn host f f := by
  funext c type t late v
  unfold stored storedIn
  cases extension : f.isExtension with
  | true => simp only [take_extension extension rfl, if_true]
  | false => simp only [take_declared extension, Bool.false_eq_true, if_false]

theorem storedIn_declared {f : Field} (own : f.isExtension = false) (host : Host) (g : Field) (c : Coercion)
    (type : ValueType) (t : NativeType) (late : Bool) (v : Value) :
    storedIn host f g c type t late v =
      operandFrom host c type t v >>= fun x => Run.ofExcept (f.take g c x) := by
  unfold storedIn
  simp only [own, Bool.false_eq_true, if_false]

theorem storedIn_extension {f : Field} (extension : f.isExtension = true) (host : Host) (g : Field)
    (c : Coercion) (type : ValueType) (t : NativeType) (late : Bool) (v : Value) :
    storedIn host f g c type t late v =
      (operandFrom host c type t v >>= wrapFrom (c.operandType type t)) >>= fun x =>
        (if late then identify else pure ()) >>= fun _ => Run.ofExcept (f.take g c x) := by
  unfold storedIn
  cases late <;> simp only [extension, bind_assoc, pure_bind, Bool.false_eq_true, if_false, if_true]

end Filling

theorem Construction.storeValue_eq (f : Field) (c : Coercion) (type : ValueType) :
    storeValue f c type =
      (unboxFor c type >>= fun _ => c.coerce) >>= fun _ =>
        Assembler.invoke (Signature.setter f c.storageType) := by
  rw [bind_assoc]
  rfl

/-- Where the steps can be written with a value above some others above the builder, they take all but
the builder, do with the value what is said, and nothing else. -/
def Deposits (s : Schema) (fuel : Nat) (message : String) (under : List NativeType)
    (below : List Value → Prop) (t t' : NativeType) (steps : Assembler GenerateError Unit)
    (put : ObjectId → Value → Run Unit) : Prop :=
  ∀ a a', a.stack = t :: (under ++ [.builder message]) → steps.run a = (.ok (), a') →
    ∃ ops, Wrote a ops [t'] a' ∧ ∀ id w others locals, below others →
      Op.execAll (.ofSchema s) fuel ops ⟨w :: (others ++ [.ref id (.builder message)]), locals⟩ =
        put id w >>= fun _ => pure ⟨[.ref id (.builder message)], locals⟩

namespace Deposits

variable {s : Schema} {fuel : Nat} {message : String} {m : Message} {f g : Field}

/-- Steps that make an operand of the value on top. -/
theorem of_operand {under : List NativeType} {below : List Value → Prop} {t t' t'' : NativeType}
    {steps more : Assembler GenerateError Unit} {act : Value → Run Value}
    {put : ObjectId → Value → Run Unit} (operand : Becomes (.ofSchema s) t t' steps act)
    (h : Deposits s fuel message under below t' t'' more put) :
    Deposits s fuel message under below t t'' (steps >>= fun _ => more) (fun id w => act w >>= put id) := by
  intro a a' stack run
  obtain ⟨⟨⟩, b, first, second⟩ := bind_eq_ok.mp run
  obtain ⟨ops, wrote, acts⟩ := operand a _ b stack first
  obtain ⟨ops', wrote', exec⟩ := h b a' wrote.stack second
  refine ⟨ops ++ ops', wrote.trans wrote', fun id w others locals ready => ?_⟩
  rw [Op.execAll_append, acts.exec, bind_assoc, bind_assoc]
  refine congrArg _ (funext fun x => ?_)
  rw [pure_bind, exec id x others locals ready]

theorem of_call {under : List NativeType} {below : List Value → Prop} {t r : NativeType}
    {method : Method} {e : Value → Except Fault Stored} {change : Stored → MessageData → MessageData}
    (returns : method.returns = some r)
    (count : method.arity = (t :: (under ++ [.builder message])).length)
    (height : ∀ others, below others → others.length = under.length)
    (call : ∀ id x others, below others →
      method.act (.ofSchema s) (x :: (others ++ [.ref id (.builder message)])) =
        Run.ofNative (Native.ofExcept (e x) >>= Native.storeIn change message id)) :
    Deposits s fuel message under below t r (Assembler.invoke method)
      (fun id x => Run.ofExcept (e x) >>= Filling.deposit change message id) := by
  intro a a' stack run
  obtain ⟨found, rest, same, fits, rfl⟩ := Assembler.invoke_eq_ok.mp run
  have all : found = t :: (under ++ [.builder message]) ∧ rest = [] := by
    have lengths : found.length = (t :: (under ++ [NativeType.builder message])).length := by
      rw [fits.length_eq, Method.operands_length, count]
    apply List.append_inj _ lengths
    rw [← same, stack, List.append_nil]
  refine ⟨[.invoke method], ?_, ?_⟩
  · rw [all.2, returns]
    exact .put ..
  · intro id x others locals ready
    have taken : (x :: (others ++ [Value.ref id (.builder message)])).length = method.arity := by
      rw [count]
      simp [height others ready]
    have exec : (Op.invoke method).exec (.ofSchema s) fuel ⟨_ ++ [], locals⟩ = _ :=
      Method.exec_invoke returns taken fuel [] locals
    rw [List.append_nil] at exec
    rw [Op.execAll_singleton, exec, call id x others ready, Filling.storeIn_bind]

theorem setter (addressed : Addressed s message m f g) (declared : f.extensionScope = none) (c : Coercion)
    (t : NativeType) :
    Deposits s fuel message [] (· = []) t (.builder message)
      (Assembler.invoke (Signature.setter f c.storageType))
      (fun id x => Run.ofExcept (f.take g c x) >>= Filling.deposit (m.store g) message id) := by
  have own := Field.isExtension_of_declared declared
  have sets := addressed.addresses
  unfold Field.Addresses at sets
  rw [declared] at sets
  have owner : (Signature.setter f c.storageType).owner = .builder message := by
    rw [← addressed.container]
    rfl
  have returns : (Signature.setter f c.storageType).returns = some (.builder message) := by
    rw [← addressed.container]
    rfl
  apply of_call returns rfl
  · rintro _ rfl
    rfl
  · rintro id x _ rfl
    have called : (Signature.setter f c.storageType).act (.ofSchema s) [x, .ref id (.builder message)] = _ :=
      Method.act_argument rfl rfl id (.builder message) x
    rw [Filling.take_declared own, Filling.method_declared own]
    exact called.trans (congrArg _ (Native.call_setter addressed.found owner sets id x))

theorem extensionCall (addressed : Addressed s message m f g) (extension : f.isExtension = true)
    (c : Coercion) (t : NativeType) :
    Deposits s fuel message [Signature.extension] (Identified s g) t (.ref .extendableBuilder)
      (Assembler.invoke (Filling.method f c))
      (fun id x => Run.ofExcept (f.take g c x) >>= Filling.deposit (m.store g) message id) := by
  have method := Filling.method_extension extension c
  have onBuilder : (Filling.method f c).owner = .extendableBuilder := by
    rw [method]
    cases f.isRepeated <;> rfl
  have onInstance : (Filling.method f c).isStatic = false := by
    rw [method]
    cases f.isRepeated <;> rfl
  have named : (Filling.method f c).name =
      if f.isRepeated then "add_extension" else "set_extension" := by
    rw [method]
    cases f.isRepeated <;> rfl
  have params : (Filling.method f c).params = [Signature.extension, Signature.object] := by
    rw [method]
    cases f.isRepeated <;> rfl
  apply of_call
  · rw [method]
    cases f.isRepeated <;> rfl
  · rw [method]
    cases f.isRepeated <;> rfl
  · rintro _ ⟨extensionId, owner, name, -, rfl⟩
    rfl
  · rintro id x _ ⟨extensionId, owner, name, resolves, rfl⟩
    have count : [x, .ref extensionId (.extension owner name)].length =
        (Filling.method f c).params.length := by
      rw [params]
      rfl
    have called : (Filling.method f c).act (.ofSchema s)
        ([x, .ref extensionId (.extension owner name)] ++ [.ref id (.builder message)]) = _ :=
      Method.act_onInstance onInstance count id (.builder message)
    refine called.trans (congrArg _ ?_)
    by_cases same : g.container = message
    · rw [Filling.take_extension extension (same.trans addressed.container.symm)]
      rw [← addressed.label same] at named
      exact Native.call_storeExtension onBuilder named resolves same (addressed.alone extension) m id
        extensionId x
    · refine (Native.call_foreignExtension onBuilder resolves same id extensionId x).trans ?_
      unfold Field.take
      rw [extension, if_pos rfl, addressed.container, if_neg same]
      rfl

/-- The value on top is coerced and handed to the setter of a declared field. -/
theorem declared (addressed : Addressed s message m f g) (declared : f.extensionScope = none) (c : Coercion)
    (type : ValueType) (t : NativeType) (late : Bool) :
    Deposits s fuel message [] (· = []) t (.builder message) (Construction.storeValue f c type)
      (fun id w => Filling.storedIn (.ofSchema s) f g c type t late w >>=
        Filling.deposit (m.store g) message id) := by
  have own := Field.isExtension_of_declared declared
  rw [Construction.storeValue_eq]
  simp only [Filling.storedIn_declared own, bind_assoc (operandFrom _ _ _ _ _)]
  exact of_operand (Becomes.operand (.ofSchema s) c type t) (setter addressed declared c _)

/-- The value on top is coerced and stored in the extension that is identified below it. -/
theorem extension (addressed : Addressed s message m f g) (extension : f.isExtension = true) (c : Coercion)
    (type : ValueType) (t : NativeType) :
    Deposits s fuel message [Signature.extension] (Identified s g) t (.ref .extendableBuilder)
      (Construction.extensionValue c type >>= fun _ => Assembler.invoke (Filling.method f c))
      (fun id w => Filling.storedIn (.ofSchema s) f g c type t false w >>=
        Filling.deposit (m.store g) message id) := by
  simp only [Filling.storedIn_extension extension, Bool.false_eq_true, if_false, pure_bind, bind_assoc]
  simp only [← bind_assoc (operandFrom _ _ _ _ _)]
  exact of_operand (Becomes.extensionOperand (.ofSchema s) c type t) (extensionCall addressed extension c _)

/-- The identifier may be fetched above the operand and put below it. -/
theorem identifyLate {t t' : NativeType} {more : Assembler GenerateError Unit}
    {put : ObjectId → Value → Run Unit} {identifier : StaticField} (refers : Refers s f g identifier)
    (h : Deposits s fuel message [Signature.extension] (Identified s g) t t' more put) :
    Deposits s fuel message [] (· = []) t t'
      (Assembler.getStatic identifier >>= fun _ => Assembler.swap >>= fun _ => more)
      (fun id w => Filling.identify >>= fun _ => put id w) := by
  intro a a' stack run
  obtain ⟨ops, wrote, exec⟩ := h _ a' rfl (refers.run_below stack run)
  refine ⟨[.getStatic identifier] ++ [.swap] ++ ops, (Wrote.put ..).trans wrote, ?_⟩
  rintro id w _ locals rfl
  obtain ⟨owner, name, resolves, fetched⟩ :=
    refers.exec_getStatic fuel (w :: ([] ++ [.ref id (.builder message)])) locals
  unfold Filling.identify
  rw [Op.execAll_append, Op.execAll_append, Op.execAll_singleton, fetched]
  simp only [bind_assoc, pure_bind]
  refine congrArg _ (funext fun k => ?_)
  rw [Op.execAll_singleton]
  change pure (Frame.mk (w :: ([.ref k (.extension owner name)] ++ [.ref id (.builder message)])) locals) >>=
    _ = _
  rw [pure_bind, exec id w _ locals ⟨k, owner, name, resolves, rfl⟩]

theorem extensionLate (addressed : Addressed s message m f g) (extension : f.isExtension = true)
    {identifier : StaticField} (refers : Refers s f g identifier) (c : Coercion) (type : ValueType)
    (t : NativeType) :
    Deposits s fuel message [] (· = []) t (.ref .extendableBuilder)
      (Construction.extensionValue c type >>= fun _ => Assembler.getStatic identifier >>= fun _ =>
        Assembler.swap >>= fun _ => Assembler.invoke (Filling.method f c))
      (fun id w => Filling.storedIn (.ofSchema s) f g c type t true w >>=
        Filling.deposit (m.store g) message id) := by
  simp only [Filling.storedIn_extension extension, if_true, bind_assoc]
  simp only [← bind_assoc (operandFrom _ _ _ _ _)]
  exact of_operand (Becomes.extensionOperand (.ofSchema s) c type t)
    (identifyLate refers (extensionCall addressed extension c _))

end Deposits

end MessageCode
