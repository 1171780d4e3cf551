import MessageCode.Generate.Access
import MessageCode.Proofs.Generate.Interpret
import MessageCode.Proofs.Generate.Value
import MessageCode.Proofs.Machine.Exclusive
import MessageCode.Proofs.Schema.Resolved

/-!
Reading fields. The code generated for a read runs without a fault on every valid message, given in
either form, and leaves what is seen of the field.
-/

namespace MessageCode

open Stateful

namespace Decides

variable {host : Host} {t : NativeType} {steps : Assembler GenerateError Unit} {act : Value → Run Value}

theorem isNull (object : t.assignableTo (.ref .object) = true) :
    Decides host t (pure .isNull) .isNull (fun v => pure v.isNull) := by
  intro a rest stack
  refine ⟨[], a, [t], rfl, .nothing stack, .cons object .nil, .nil, ?_⟩
  intro fuel v stack locals thenPart elsePart
  have height : [v].length = Test.isNull.operands.length := rfl
  rw [Op.execAll_nil, pure_bind, pure_bind]
  exact (Op.choose_append height ..).trans rfl

def truth (v : Value) : Run Bool := Run.ofExcept (Test.isTrue.holds [v])

theorem isTrue (h : Turns host t .bool steps act) :
    Decides host t (steps >>= fun _ => pure .isTrue) .isTrue (fun v => act v >>= truth) := by
  intro a rest stack
  obtain ⟨ops, b, run, wrote, acts⟩ := h a rest stack
  refine ⟨ops, b, [.bool], by rw [Stateful.run_bind_ok run, Stateful.run_pure], wrote, .refl _,
    acts.free, ?_⟩
  intro fuel v stack locals thenPart elsePart
  rw [acts.exec, bind_assoc, bind_assoc]
  refine congrArg _ (funext fun w => ?_)
  have height : [w].length = Test.isTrue.operands.length := rfl
  rw [pure_bind]
  exact Op.choose_append height ..

def equals (n : Int32) (v : Value) : Run Bool := Run.ofExcept (Test.intEq.holds [.int n, v])

theorem equals_gives (n k : Int32) : Gives (equals n (.int k)) (· = decide (k = n)) :=
  fun _ => ⟨_, _, rfl, rfl⟩

theorem intEq (h : Turns host t .int steps act) (n : Int32) :
    Decides host t (steps >>= fun _ => Assembler.pushConst (.int n) >>= fun _ => pure .intEq) .intEq
      (fun v => act v >>= equals n) := by
  intro a rest stack
  obtain ⟨ops, b, run, wrote, acts⟩ := h a rest stack
  have pushes : Pushes host .int (Assembler.pushConst (.int n)) _ := .const (.int n)
  obtain ⟨ops', c, run', wrote', free', exec'⟩ := pushes b
  rw [wrote.stack] at wrote'
  refine ⟨_, c, [.int, .int], ?_, wrote.trans wrote', .refl _, acts.free.append free', ?_⟩
  · rw [Stateful.run_bind_ok run, Stateful.run_bind_ok run', Stateful.run_pure]
  · intro fuel v stack locals thenPart elsePart
    rw [Op.execAll_append, acts.exec, bind_assoc, bind_assoc, bind_assoc]
    refine congrArg _ (funext fun w => ?_)
    have height : [.int n, w].length = Test.intEq.operands.length := rfl
    rw [pure_bind, exec', bind_assoc]
    exact Op.choose_append height ..

end Decides

namespace Access

variable {host : Host} {t : NativeType}

theorem absent_turns : Turns host t .null absent (fun _ => pure .null) := by
  intro a rest stack
  have run : (absent : Assembler GenerateError Unit).run a =
      (.ok (), a.put [.pop, .push .null] (.null :: rest)) := by
    unfold absent Assembler.pop Assembler.pushNull Assembler.pushConst
    rw [bind_assoc, Stateful.run_bind_ok (Assembler.popType_eq_ok.mpr ⟨rest, stack, rfl⟩)]
    simp [Stateful.run_bind, Constant.type]
  exact ⟨_, _, run, .put .., fun _ => rfl, fun _ _ _ _ => rfl⟩

end Access

namespace LogicalValue

def type : LogicalValue → ValueType
  | .bool _ => .bool
  | .int _ => .int
  | .float _ => .float
  | .text _ => .text
  | .message _ data => .message data.typeName
  | .sanitized kind _ => .sanitized kind

def nativeType : LogicalValue → NativeType
  | .bool _ => .bool
  | .int _ => .long
  | .float _ => .double
  | .text _ | .sanitized .. => .text
  | .message _ data => .message data.typeName

theorem nativeType_eq (l : LogicalValue) : l.nativeType = l.type.nativeType := by
  cases l <;> rfl

end LogicalValue

namespace Coercion

theorem nativeType_eq (c : Coercion) : c.nativeType = c.logicalType.nativeType := by
  cases c <;> rfl

variable {s : Schema} {f : Field} {c : Coercion}

theorem Interprets.type_eq {a : Stored} {l : LogicalValue} (h : c.Interprets s a l) :
    l.type = c.logicalType := by
  cases h <;> rfl

theorem nativeType_logical (covers : c.Covers s f) {a : Stored} (of : a.IsOf s f.kind) :
    (f.logical a).nativeType = c.nativeType := by
  rw [LogicalValue.nativeType_eq, (covers.interprets of).type_eq, ← nativeType_eq]

end Coercion

namespace Access

/-- A logical value in the form that a checked read leaves: primitives are boxed. -/
def Meets (l : LogicalValue) (v : Value) : Prop :=
  if l.nativeType.isPrimitive then l.InBox v else l.Native v

theorem Meets.inBox {l : LogicalValue} {v : Value} (h : l.InBox v)
    (primitive : l.nativeType.isPrimitive = true) : Meets l v := by
  unfold Meets
  rwa [if_pos primitive]

theorem Meets.native {l : LogicalValue} {v : Value} (h : l.Native v)
    (reference : l.nativeType.isPrimitive = false) : Meets l v := by
  unfold Meets
  rwa [if_neg (by simp [reference])]

/-- A type that a checked read can leave: it takes over when it meets the null of the other arm. -/
structure Checked (t r : NativeType) : Prop where
  merge : r.merge .null = some r
  boxed : r.boxedKind?.isSome = t.isPrimitive

theorem boxPrimitiveTop_turns (s : Schema) (c : Coercion) (type : ValueType) :
    ∃ r act, Turns (.ofSchema s) c.nativeType r (boxPrimitiveTop type) act ∧
      Checked c.nativeType r ∧
      ∀ l v, l.nativeType = c.nativeType → l.Native v → Gives (act v) (Meets l) := by
  have same : ∀ {l : LogicalValue} {t : NativeType}, l.nativeType = t → t.isPrimitive = false →
      ∀ v, l.Native v → Gives (Pure.pure v : Run Value) (Meets l) := by
    rintro l _ rfl reference v native
    exact .pure (.native native reference)
  cases type' : c.nativeType with
  | bool =>
      refine ⟨_, _, .top (.top (.top (.invoke rfl (.refl _)))), ⟨rfl, rfl⟩, fun l v of native => ?_⟩
      cases l with
      | bool b =>
          cases native
          exact fun m => ⟨_, _, rfl, .inBox ⟨_, rfl⟩ rfl⟩
      | _ => cases of
  | long =>
      refine ⟨_, _, .top (.top (.top (.seq .convert_self (.invoke rfl (.refl _))))), ⟨rfl, rfl⟩,
        fun l v of native => ?_⟩
      cases l with
      | int n =>
          cases native
          exact fun m => ⟨_, _, rfl, .inBox ⟨_, rfl⟩ rfl⟩
      | _ => cases of
  | double =>
      refine ⟨_, _, .top (.top (.top (.seq .convert_self (.invoke rfl (.refl _))))), ⟨rfl, rfl⟩,
        fun l v of native => ?_⟩
      cases l with
      | float x =>
          cases native
          exact fun m => ⟨_, _, rfl, .inBox ⟨_, rfl⟩ rfl⟩
      | _ => cases of
  | ref r =>
      have checked : Checked (.ref r) (.ref r) := by
        cases c <;> cases type' <;> exact ⟨rfl, rfl⟩
      exact ⟨_, _, .top .pure, checked, fun l v of native => same of rfl v native⟩
  | _ => cases c <;> cases type'

/-- The base of a read: a message that the caller supplies, boxed or in native form. -/
structure Base (host : Host) (base : TypedValue) (message : String) (boxed : Bool) : Prop where
  converts : base.Converts host base.native pure
  native : base.native = if boxed then .boxed .proto else .message message
  type : base.type = .message message

/-- The value is the logical one in boxed or in native form. -/
def Form (boxed : Bool) (l : LogicalValue) (v : Value) : Prop := if boxed then l.InBox v else l.Native v

theorem input_base (host : Host) (message : String) (boxed nullable : Bool) :
    ∃ base, TypedValue.input (.message message) boxed nullable = .ok base ∧
      Base host base message boxed := by
  obtain ⟨base, input, converts, native, type, -⟩ :=
    TypedValue.input_converts host (.message message) boxed nullable
  have form : base.native = if boxed then .boxed .proto else .message message := native
  rw [← native] at converts
  exact ⟨base, input, converts, form, type⟩

variable {s : Schema} {base : TypedValue} {message : String} {boxed : Bool}

theorem nativeBase_turns (h : Base (.ofSchema s) base message boxed) :
    ∃ act, Turns (.ofSchema s) base.native (.message message) (nativeBase base message) act ∧
      ∀ id (data : MessageData) v, data.typeName = message → Form boxed (.message id data) v →
        Gives (act v) (· = .ref id (.message data)) := by
  have spliced := h.converts.turns
  have native := h.native
  have isBoxed : base.isBoxed = base.native.boxedKind?.isSome := rfl
  unfold nativeBase
  cases boxed with
  | false =>
      rw [isBoxed]
      rw [native] at spliced ⊢
      refine ⟨_, spliced.seq .pure, fun id data v _ form => ?_⟩
      cases form
      exact .pure rfl
  | true =>
      have casts : Turns (.ofSchema s) Signature.object (.message message)
          (Assembler.checkCast (.message message)) (Turns.castTo (.message message)) :=
        .checkCast rfl (.inl rfl)
      rw [isBoxed]
      rw [native] at spliced ⊢
      refine ⟨_, spliced.seq (.seq (.checkCast_upcast rfl rfl nofun)
        (.seq (.invoke rfl (.refl _)) casts)), fun id data v typeName form => ?_⟩
      obtain ⟨boxId, rfl⟩ := form
      change Gives (Turns.castTo (.message message) (.ref id (.message data))) _
      rw [Turns.castTo_message typeName]
      exact .pure rfl

/-- The test for presence of a declared field tells whether it is set. -/
theorem testPresence_decides {m : Message} {f : Field} (loaded : s.Loaded)
    (found : s.message? message = some m) (mem : f ∈ m.fields) {test : PresenceTest}
    (tests : test = match f.oneof with
      | some oneof => .oneofCase oneof f.number
      | none => .hasser) :
    ∃ branchTest holds, Decides (.ofSchema s) (.message message) (testPresence f test) branchTest holds ∧
      ∀ id (data : MessageData), data.typeName = message → Valid s data →
        Gives (holds (.ref id (.message data))) (· = data.isSet f.number) := by
  have within : f ∈ s.fieldsOf message := (Schema.Loaded.mem_fieldsOf found).mpr (.inl mem)
  have container := loaded.container found within
  have ofMessage := loaded.message m (Schema.Loaded.mem_messages found)
  cases member : f.oneof with
  | none =>
      rw [member] at tests
      subst tests
      have fits : Fits [.message message] (Signature.hasser f).operands := by
        rw [← container]
        exact .refl _
      refine ⟨_, _, .isTrue (.invoke rfl fits), ?_⟩
      rintro id data rfl valid
      rw [Method.act_receiver rfl rfl, Native.call_hasser loaded found mem id]
      exact .pure rfl
  | some oneof =>
      rw [member] at tests
      subst tests
      obtain ⟨-, known⟩ := ofMessage.oneof f mem oneof member
      have fits : Fits [.message message] (Signature.caseGetter f.container oneof).operands := by
        rw [← container]
        exact .refl _
      have fits' : Fits [.ref (Signature.caseType f.container oneof)]
          (Signature.caseNumber f.container oneof).operands := .refl _
      have calls : Turns (.ofSchema s) (.message message) .int
          (Assembler.invoke (Signature.caseGetter f.container oneof) >>= fun _ =>
            Assembler.invoke (Signature.caseNumber f.container oneof)) _ :=
        (Turns.invoke rfl fits).seq (.invoke rfl fits')
      have decides := Decides.intEq calls f.number
      rw [bind_assoc] at decides
      refine ⟨_, _, decides, ?_⟩
      rintro id data rfl valid
      rw [Method.act_receiver rfl rfl, container, Native.call_caseGetter found known id, bind_assoc]
      refine (Run.ofNative_gives (Native.alloc_gives _)).bind ?_
      rintro _ ⟨caseId, rfl⟩
      have number : (Signature.caseNumber data.typeName oneof).act (.ofSchema s)
          [.ref caseId (.oneofCase (data.typeName ++ "." ++ oneof) (Native.caseNumber m oneof data))] =
          pure (.int (Native.caseNumber m oneof data)) := rfl
      rw [number, pure_bind]
      refine (Decides.equals_gives _ _).imp ?_
      rintro _ rfl
      rw [Bool.eq_iff_iff, decide_eq_true_eq]
      exact Native.caseNumber_eq_iff loaded found valid.shaped.exclusive
        (Message.mem_members.mpr ⟨mem, member⟩)

/-- The steps turn valid messages of the type into what is seen of the field, in native form. -/
structure Shows (s : Schema) (message : String) (f : Field) (t : NativeType)
    (steps : Assembler GenerateError Unit) (act : Value → Run Value) : Prop where
  turns : Turns (.ofSchema s) (.message message) t steps act
  gives : ∀ id (data : MessageData) l, data.typeName = message → Valid s data →
    f.seen? s data = some l →
    Gives (act (.ref id (.message data))) fun v => l.Native v ∧ l.nativeType = t

structure Reads (s : Schema) (message : String) (f : Field) (checks boxed : Bool)
    (act : Value → Run Value) (given : Bool) : Prop where
  absent : ∀ id (data : MessageData) v, data.typeName = message → Valid s data →
    Form given (.message id data) v → data.isSet f.number = false → checks = true →
    Gives (act v) (· = .null)
  present : ∀ id (data : MessageData) v l, data.typeName = message → Valid s data →
    Form given (.message id data) v → data.isSet f.number = true ∨ checks = false →
    f.seen? s data = some l → Gives (act v) (Form boxed l)

theorem unchecked_converts {f : Field} {t : NativeType} {steps : Assembler GenerateError Unit}
    {act : Value → Run Value} (h : Base (.ofSchema s) base message boxed)
    (shows : Shows s message f t steps act) (nonBoxed : t.boxedKind? = none) (type : ValueType) :
    ∃ v act, TypedValue.assemble base.code.inputs true type
        (nativeBase base message >>= fun _ => steps) = .ok v ∧
      v.Converts (.ofSchema s) base.native act ∧ Reads s message f false v.isBoxed act boxed := by
  obtain ⟨baseAct, turns, gives⟩ := nativeBase_turns h
  obtain ⟨v, assembled, converts, native, -⟩ :=
    TypedValue.assemble_converts (turns.seq shows.turns) true type
  rw [← h.converts.inputs] at assembled
  have isBoxed : v.isBoxed = false := by
    rw [TypedValue.isBoxed, native, nonBoxed]
    rfl
  refine ⟨v, _, assembled, converts, ?_, ?_⟩
  · intro _ _ _ _ _ _ _ absurd
    cases absurd
  · intro id data x l typeName valid form _ seen
    rw [isBoxed]
    refine (gives id data x typeName form).bind ?_
    rintro _ rfl
    exact (shows.gives id data l typeName valid seen).imp fun _ native => native.1

theorem checked_converts {f : Field} {c : Coercion} {steps : Assembler GenerateError Unit}
    {act : Value → Run Value} {tests : Assembler GenerateError Test} {test : Test}
    {holds : Value → Run Bool} (h : Base (.ofSchema s) base message boxed)
    (shows : Shows s message f c.nativeType steps act)
    (decides : Decides (.ofSchema s) (.message message) tests test holds)
    (tells : ∀ id (data : MessageData), data.typeName = message → Valid s data →
      Gives (holds (.ref id (.message data))) (· = data.isSet f.number)) (type : ValueType) :
    ∃ v act, TypedValue.assemble base.code.inputs false type
        (nativeBase base message >>= fun _ => Assembler.dup >>= fun _ => tests >>= fun test =>
          Assembler.branch test (steps >>= fun _ => boxPrimitiveTop type) absent) = .ok v ∧
      v.Converts (.ofSchema s) base.native act ∧ Reads s message f true v.isBoxed act boxed := by
  obtain ⟨baseAct, turns, gives⟩ := nativeBase_turns h
  obtain ⟨r, boxAct, boxes, checked, meets⟩ := boxPrimitiveTop_turns s c type
  obtain ⟨v, assembled, converts, native, -⟩ := TypedValue.assemble_converts
    (turns.seq (.branch decides (shows.turns.seq boxes) absent_turns checked.merge)) false type
  rw [← h.converts.inputs] at assembled
  have isBoxed : v.isBoxed = c.nativeType.isPrimitive := by
    rw [TypedValue.isBoxed, native, checked.boxed]
  refine ⟨v, _, assembled, converts, ?_, ?_⟩
  · intro id data x typeName valid form unset _
    refine (gives id data x typeName form).bind ?_
    rintro _ rfl
    refine (tells id data typeName valid).bind ?_
    rintro _ rfl
    rw [unset]
    exact .pure rfl
  · intro id data x l typeName valid form set seen
    refine (gives id data x typeName form).bind ?_
    rintro _ rfl
    refine (tells id data typeName valid).bind ?_
    rintro _ rfl
    rw [set.resolve_right nofun]
    refine (shows.gives id data l typeName valid seen).bind ?_
    rintro w ⟨native, type⟩
    refine (meets l w type native).imp fun _ meets => ?_
    unfold Meets at meets
    rw [type] at meets
    rwa [isBoxed]

/-- The getter and the code behind it show a declared field. -/
theorem getter_shows {m : Message} {f : Field} {c : Coercion} (loaded : s.Loaded)
    (found : s.message? message = some m) (mem : f ∈ s.fieldsOf message) (covers : c.Covers s f)
    (singular : f.label = .singular) (resolves : m.method? (Naming.getter f) = some (.get f)) :
    ∃ act, Shows s message f c.nativeType
      (Assembler.invoke (Signature.getter f c.storageType) >>= fun _ => c.interpret) act := by
  have container := loaded.container found mem
  have fits : Fits [.message message] (Signature.getter f c.storageType).operands := by
    rw [← container]
    exact .refl _
  obtain ⟨act, turns, gives⟩ := Coercion.interpret_native covers loaded
  refine ⟨_, (Turns.invoke rfl fits).seq turns, ?_⟩
  rintro id data l rfl valid seen
  have resolved : m.method? (Signature.getter f c.storageType).name = some (.get f) := resolves
  rw [Method.act_receiver rfl rfl, Native.call_message found (congrArg _ container) rfl id, resolved]
  refine Storage.readThrough_gives (P := fun l v => l.Native v ∧ l.nativeType = c.nativeType)
    loaded valid found mem singular seen ?_
  intro a of
  exact (gives a of).imp fun _ native => ⟨native, Coercion.nativeType_logical covers of⟩

theorem nativeType_nonBoxed (c : Coercion) : c.nativeType.boxedKind? = none := by
  cases c <;> rfl

theorem readSingular_converts {m : Message} {f : Field} {c : Coercion} (loaded : s.Loaded)
    (found : s.message? message = some m) (mem : f ∈ m.fields) (covers : c.Covers s f)
    (singular : f.label = .singular) (resolves : m.method? (Naming.getter f) = some (.get f))
    (h : Base (.ofSchema s) base message boxed) (policy : PresencePolicy) {test : PresenceTest}
    (tests : test = match f.oneof with
      | some oneof => .oneofCase oneof f.number
      | none => .hasser) :
    ∃ v act, readSingular base message f c policy test = .ok v ∧
      v.Converts (.ofSchema s) base.native act ∧ Reads s message f policy.checks v.isBoxed act boxed := by
  have within : f ∈ s.fieldsOf message := (Schema.Loaded.mem_fieldsOf found).mpr (.inl mem)
  obtain ⟨act, shows⟩ := getter_shows loaded found within covers singular resolves
  unfold readSingular
  cases policy.checks with
  | false => exact unchecked_converts h shows (nativeType_nonBoxed c) c.logicalType
  | true =>
      obtain ⟨_, _, decides, tells⟩ := testPresence_decides loaded found mem tests
      have checked := checked_converts h shows decides tells c.logicalType
      rw [bind_assoc] at checked
      exact checked

structure Identifies (s : Schema) (f : Field) (id : StaticField) : Prop where
  identifier : Signature.extensionId f = .ok id
  type : id.type = Signature.extension
  load : ∃ owner name, StaticField.load s id = .ok (.extension owner name) ∧
    s.extensionById? owner name = some f

theorem Identifies.ofExcept_eq {f : Field} {id : StaticField} (h : Identifies s f id) :
    (Assembler.ofExcept (Signature.extensionId f) : Assembler GenerateError StaticField) = Pure.pure id := by
  rw [h.identifier]
  rfl

theorem exists_identifier {f : Field} {scope : ExtensionScope} (declared : f.extensionScope = some scope)
    (resolves : s.extensionById? scope.owner f.name = some f) : ∃ id, Identifies s f id := by
  have known : (s.extensionById? scope.owner f.name).isSome = true := by rw [resolves]; rfl
  cases scope with
  | message name =>
      refine ⟨_, by rw [Signature.extensionId, declared], rfl, name, f.name, ?_, resolves⟩
      exact if_pos known
  | file holder =>
      refine ⟨_, by rw [Signature.extensionId, declared], rfl, holder, f.name, ?_, resolves⟩
      exact if_pos known

/-- Operations on extensions find the extension that the identifier stands for. -/
theorem call_extension {f : Field} {owner name : String} {data : MessageData}
    (resolves : s.extensionById? owner name = some f) (container : f.container = data.typeName)
    (id extensionId : ObjectId) :
    (Host.ofSchema s).call ⟨Signature.hasExtension, some (.ref id (.message data)),
        [.ref extensionId (.extension owner name)]⟩ = pure (.bool (data.isSet f.number)) ∧
      (Host.ofSchema s).call ⟨Signature.getExtension, some (.ref id (.message data)),
        [.ref extensionId (.extension owner name)]⟩ =
        Storage.readThrough Storage.extensionView s data f := by
  have found : ∀ method, Native.extensionArg s ⟨method, some (.ref id (.message data)),
      [.ref extensionId (.extension owner name)]⟩ data.typeName = .ok f := by
    intro method
    unfold Native.extensionArg
    change (Except.ok (extensionId, Object.extension owner name) >>= _) = _
    rw [Fallible.bind_eq_ok]
    refine ⟨_, rfl, ?_⟩
    dsimp only
    rw [resolves]
    exact if_pos container
  constructor
  · change Native.callExtendableMessage s _ >>= _ = _
    unfold Native.callExtendableMessage
    change ((Native.ofExcept (Native.extensionArg s _ data.typeName) >>= _) >>= _ : Native Value) = _
    rw [found]
    rfl
  · change Native.callExtendableMessage s _ >>= _ = _
    unfold Native.callExtendableMessage
    change ((Native.ofExcept (Native.extensionArg s _ data.typeName) >>= _) >>= _ : Native Value) = _
    rw [found]
    change ((Storage.readThrough Storage.extensionView s data f >>= fun v => pure (some v)) >>= _ :
      Native Value) = _
    simp only [bind_assoc, pure_bind, bind_pure]

theorem readStatic_gives {id : StaticField} {owner name : String}
    (load : StaticField.load s id = .ok (.extension owner name)) :
    Gives (Pushes.readStatic (.ofSchema s) id) fun v => ∃ extensionId,
      v = .ref extensionId (.extension owner name) := by
  have static : (Host.ofSchema s).static id = .ok (.extension owner name) := load
  rw [Pushes.readStatic, static]
  exact fun _ => ⟨_, _, rfl, _, rfl⟩

theorem extension_shows {m : Message} {f : Field} {c : Coercion} {id : StaticField} (loaded : s.Loaded)
    (found : s.message? message = some m) (mem : f ∈ s.fieldsOf message) (covers : c.Covers s f)
    (singular : f.label = .singular) (identifies : Identifies s f id) :
    ∃ act, Shows s message f c.nativeType
      (Assembler.getStatic id >>= fun _ => Assembler.invoke Signature.getExtension >>= fun _ =>
        c.interpretExtension) act := by
  obtain ⟨-, type, owner, name, load, resolves⟩ := identifies
  have container := loaded.container found mem
  have fits : Fits [id.type, .message message] Signature.getExtension.operands := by
    rw [type]
    exact .cons rfl (.cons rfl .nil)
  obtain ⟨act, turns, gives⟩ := Coercion.interpretExtension_native covers loaded
  have lookup := (Turns.pushInvoke (.getStatic id) rfl fits).seq turns
  rw [bind_assoc] at lookup
  refine ⟨_, lookup, ?_⟩
  rintro messageId data l rfl valid seen
  rw [bind_assoc]
  refine (readStatic_gives load).bind ?_
  rintro _ ⟨extensionId, rfl⟩
  rw [Method.act_argument rfl rfl, (call_extension resolves container messageId extensionId).2]
  refine Storage.readThrough_gives (P := fun l v => l.Native v ∧ l.nativeType = c.nativeType)
    loaded valid found mem singular seen ?_
  intro a of
  exact (gives a of).imp fun _ native => ⟨native, Coercion.nativeType_logical covers of⟩

theorem readExtension_converts {m : Message} {f : Field} {c : Coercion} {id : StaticField}
    (loaded : s.Loaded) (found : s.message? message = some m) (mem : f ∈ s.fieldsOf message)
    (covers : c.Covers s f) (singular : f.label = .singular) (identifies : Identifies s f id)
    (h : Base (.ofSchema s) base message boxed) (policy : PresencePolicy) :
    ∃ v act, readExtension base message f c policy = .ok v ∧
      v.Converts (.ofSchema s) base.native act ∧ Reads s message f policy.checks v.isBoxed act boxed := by
  obtain ⟨act, shows⟩ := extension_shows loaded found mem covers singular identifies
  unfold readExtension
  rw [identifies.identifier]
  cases policy.checks with
  | false => exact unchecked_converts h shows (nativeType_nonBoxed c) c.logicalType
  | true =>
      obtain ⟨-, type, owner, name, load, resolves⟩ := identifies
      have container := loaded.container found mem
      have fits : Fits [id.type, .message message] Signature.hasExtension.operands := by
        rw [type]
        exact .cons rfl (.cons rfl .nil)
      have pushes : Pushes (.ofSchema s) id.type (Assembler.getStatic id) _ := .getStatic id
      have decides := Decides.isTrue (.pushInvoke pushes rfl fits)
      have checked := checked_converts h shows decides ?_ c.logicalType
      · simp only [bind_assoc, pure_bind] at checked
        exact checked
      · rintro messageId data rfl valid
        rw [bind_assoc]
        refine (readStatic_gives load).bind ?_
        rintro _ ⟨extensionId, rfl⟩
        rw [Method.act_argument rfl rfl, (call_extension resolves container messageId extensionId).1]
        exact .pure rfl

/-- A message is boxed as itself, whether or not its code could give null. -/
theorem boxTop_turns (host : Host) (message : String) (nullable : Bool) :
    ∃ act, Turns host (.message message) (.boxed .proto) (boxTop (.message message) nullable) act ∧
      ∀ id (data : MessageData), act (.ref id (.message data)) =
        (Signature.forValue .proto).act host [.ref id (.message data)] := by
  have present : Turns host (.message message) (.boxed .proto) (boxPresent (.message message))
      (fun v => (Signature.forValue .proto).act host [v]) :=
    .top (.invoke rfl (.cons rfl .nil))
  cases nullable with
  | false => exact ⟨_, .top present, fun _ _ => rfl⟩
  | true =>
      have absent : Turns host (.message message) .null absent (fun _ => pure .null) := absent_turns
      have tested := Turns.branch (.isNull rfl) absent present rfl
      simp only [pure_bind] at tested
      exact ⟨_, .top tested, fun _ _ => rfl⟩

theorem box_converts (h : Base (.ofSchema s) base message boxed) :
    ∃ base' act, base.box = .ok base' ∧ base'.Converts (.ofSchema s) base.native act ∧
      base'.native = .boxed .proto ∧
      ∀ id (data : MessageData) v, data.typeName = message → Form boxed (.message id data) v →
        Gives (act v) (LogicalValue.message id data).InBox := by
  have native := h.native
  have isBoxed : base.isBoxed = base.native.boxedKind?.isSome := rfl
  unfold TypedValue.box
  rw [isBoxed]
  cases boxed with
  | true =>
      refine ⟨base, pure, if_pos (by rw [native]; rfl), h.converts, native, ?_⟩
      exact fun id data v _ form => .pure form
  | false =>
      have native : base.native = .message message := native
      obtain ⟨act, boxes, same⟩ := boxTop_turns (.ofSchema s) message base.isNullable
      rw [← native] at boxes
      obtain ⟨base', assembled, converts, native', -⟩ :=
        TypedValue.assemble_converts (h.converts.turns.seq boxes) base.code.nonNull base.type
      rw [← h.converts.inputs, ← h.type] at assembled
      refine ⟨base', _, ?_, converts, native', ?_⟩
      · rw [if_neg (by rw [native]; exact nofun)]
        exact assembled
      · rintro id data v rfl form
        cases form
        rw [pure_bind, same]
        exact fun _ => ⟨_, _, rfl, _, rfl⟩

theorem boxedView_eq {f : Field} {a : Stored} (of : a.IsOf s f.kind) :
    Storage.boxedView f a = (f.logical a).boxed := by
  cases a with
  | long n =>
      have kind : f.kind = .int64 := by
        cases kind : f.kind with
        | int64 => rfl
        | message name =>
            rw [kind] at of
            obtain ⟨_, _, absurd, -⟩ := of
            cases absurd
        | _ =>
            rw [kind] at of
            simp [Stored.IsOf] at of
      simp only [Storage.boxedView, Field.logical, kind, and_true]
      split <;> rfl
  | message id data =>
      simp only [Storage.boxedView, Field.logical]
      cases f.sanitizedKind? <;> rfl
  | _ => rfl

theorem boxedView_gives {f : Field} {a : Stored} (of : a.IsOf s f.kind) :
    Gives (Storage.allocBoxed (Storage.boxedView f a)) (f.logical a).InBox := by
  rw [boxedView_eq of]
  exact fun _ => ⟨_, _, rfl, _, rfl⟩

/-- Fields of boxed messages by name: a repeated field gives its elements. -/
theorem boxedField_gives {m : Message} {f : Field} {data : MessageData} (loaded : s.Loaded)
    (found : s.message? data.typeName = some m) (mem : f ∈ s.fieldsOf data.typeName)
    (repeated : f.label = .repeated) (valid : Valid s data) :
    Gives (Storage.boxedField s data f.name) fun v => ∃ id items, v = .ref id (.boxed (.list items)) ∧
      List.Forall₂ (fun a => (f.logical a).InBox) (data.elements f.number) items := by
  unfold Storage.boxedField
  rw [loaded.field?_eq found mem]
  dsimp only
  cases set : data.content? f.number with
  | none =>
      have elements : data.elements f.number = [] := by rw [Record.elements, set]; rfl
      rw [elements]
      dsimp only
      rw [if_pos (by simp [Field.isRepeated, repeated])]
      exact fun _ => ⟨_, _, rfl, _, [], rfl, .nil⟩
  | some content =>
      obtain ⟨label, fits⟩ := valid.content loaded found mem set
      have elements : data.elements f.number = content.items := by rw [Record.elements, set]; rfl
      cases content with
      | single a =>
          rw [repeated] at label
          cases label
      | repeated stored =>
          rw [elements]
          have boxes : ∀ a ∈ stored, Gives (Storage.allocBoxed (Storage.boxedView f a))
              (f.logical a).InBox := fun a mem => boxedView_gives (fits a mem).isOf
          refine (Gives.mapM (R := fun a => (f.logical a).InBox) boxes).bind fun items forms => ?_
          exact fun _ => ⟨_, _, rfl, _, items, rfl, forms⟩

theorem act_getField (s : Schema) (f : Field) (id boxId textId : ObjectId) (data : MessageData) :
    Signature.getField.act (.ofSchema s) [.ref textId (.text f.name),
        .ref boxId (.boxed (LogicalValue.message id data).boxed)] =
      Run.ofNative (Storage.boxedField s data f.name) := by
  have called : (Host.ofSchema s).call ⟨Signature.getField,
      some (.ref boxId (.boxed (LogicalValue.message id data).boxed)),
      [.ref textId (.text f.name)]⟩ = Storage.boxedField s data f.name := by
    change ((Storage.boxedField s data f.name >>= fun v => pure (some v)) >>= _ : Native Value) = _
    simp only [bind_assoc, pure_bind, bind_pure]
  rw [Method.act_argument rfl rfl, called]

/-- Reading a repeated field gives a boxed list of the elements, boxed and in order. -/
theorem readRepeated_converts {m : Message} {f : Field} {c : Coercion} (loaded : s.Loaded)
    (found : s.message? message = some m) (mem : f ∈ s.fieldsOf message)
    (repeated : f.label = .repeated) (h : Base (.ofSchema s) base message boxed) :
    ∃ v act, readRepeated base f c = .ok v ∧ v.Converts (.ofSchema s) base.native act ∧
      ∀ id (data : MessageData) x, data.typeName = message → Valid s data →
        Form boxed (.message id data) x → Gives (act x) fun v => ∃ id items,
          v = .ref id (.boxed (.list items)) ∧
            List.Forall₂ (fun a => (f.logical a).InBox) (data.elements f.number) items := by
  obtain ⟨base', boxAct, box, converts, native, gives⟩ := box_converts h
  have spliced := converts.turns
  rw [native] at spliced
  have name : Pushes (.ofSchema s) .text (Assembler.pushConst (.text f.name)) _ := .const (.text f.name)
  have lookup : Turns (.ofSchema s) (.boxed .proto) (.ref .provider)
      (Assembler.pushConst (.text f.name) >>= fun _ => Assembler.invoke Signature.getField) _ :=
    .pushInvoke name rfl (.refl _)
  have casts : Turns (.ofSchema s) (.boxed .any) (.boxed .list)
      (Assembler.checkCast (.boxed .list)) (Turns.castTo (.boxed .list)) := .checkCast rfl (.inl rfl)
  have same : Turns (.ofSchema s) (.boxed .proto) (.boxed .proto)
      (Assembler.checkCast (.boxed .proto)) pure := .checkCast_upcast rfl rfl nofun
  have reads := spliced.seq (same.seq (lookup.seq
    ((Turns.invoke (m := Signature.resolve) rfl (.refl _)).seq casts)))
  obtain ⟨v, assembled, converts', -⟩ :=
    TypedValue.assemble_converts reads true (.list c.logicalType)
  rw [bind_assoc] at assembled
  refine ⟨v, _, ?_, converts', ?_⟩
  · unfold readRepeated
    rw [box]
    change TypedValue.assemble base'.code.inputs _ _ _ = _
    rw [converts.inputs]
    exact assembled
  · rintro id data x rfl valid form
    refine (gives id data x rfl form).bind ?_
    rintro _ ⟨boxId, rfl⟩
    have text : Gives (monadLift (Constant.text f.name).load : Run Value) fun v =>
        ∃ id, v = .ref id (.text f.name) := fun _ => ⟨_, _, rfl, _, rfl⟩
    rw [pure_bind, bind_assoc]
    refine text.bind ?_
    rintro _ ⟨textId, rfl⟩
    rw [act_getField]
    refine (Run.ofNative_gives (boxedField_gives loaded found mem repeated valid)).bind ?_
    rintro _ ⟨listId, items, rfl, forms⟩
    have resolved : Signature.resolve.act (.ofSchema s) [.ref listId (.boxed (.list items))] =
        pure (.ref listId (.boxed (.list items))) := rfl
    rw [resolved, pure_bind, Turns.castTo_of_isInstance rfl]
    exact .pure ⟨listId, items, rfl, forms⟩

end Access

/-- The getter of a declared field, or the identifier of an extension, leads back to the field. -/
def Field.LeadsBack (s : Schema) (m : Message) (f : Field) : Prop :=
  match f.extensionScope with
  | none => m.method? (Naming.getter f) = some (.get f)
  | some scope => s.extensionById? scope.owner f.name = some f

/-- Whether the field is null while it is unset: it has no default of its own, and it is an
extension, a legacy field or a message. -/
def Field.nullUnset (f : Field) : Bool :=
  f.default.isNone && (f.isExtension || decide (f.revision = .legacy) ||
    match f.kind with
    | .message _ => true
    | _ => false)

/-- The result is what a read of the field of a message has to give. -/
structure Field.ReadAs (s : Schema) (f : Field) (data : MessageData) (boxed : Bool)
    (result : Value) : Prop where
  elements : f.label = .repeated → ∃ id items, result = .ref id (.boxed (.list items)) ∧
    List.Forall₂ (fun a => (f.logical a).InBox) (data.elements f.number) items
  absent : f.label = .singular → data.isSet f.number = false → f.nullUnset = true → result = .null
  value : f.label = .singular → data.isSet f.number = true ∨ f.nullUnset = false →
    ∃ l, f.seen? s data = some l ∧ Access.Form boxed l result

theorem PresencePolicy.checks_of {f : Field} (declared : f.extensionScope = none) :
    (PresencePolicy.of f).checks = f.nullUnset := by
  unfold PresencePolicy.of Field.nullUnset Field.hasDefault Field.isExtension
  rw [declared]
  cases f.default with
  | some d => rfl
  | none => cases f.revision <;> cases f.kind <;> rfl

theorem PresencePolicy.checks_extension {f : Field} {scope : ExtensionScope}
    (declared : f.extensionScope = some scope) :
    PresencePolicy.checks (if f.hasDefault then .noCheck else .alwaysCheck) = f.nullUnset := by
  unfold Field.nullUnset Field.hasDefault Field.isExtension
  rw [declared]
  cases f.default <;> rfl

/-- Something is seen of a field that is set or not null while it is unset. -/
theorem Field.exists_seen {s : Schema} {m : Message} {data : MessageData} {f : Field}
    (loaded : s.Loaded) (found : s.message? data.typeName = some m) (valid : Valid s data)
    (mem : f ∈ s.fieldsOf data.typeName) (singular : f.label = .singular)
    (shown : data.isSet f.number = true ∨ f.nullUnset = false) : ∃ l, f.seen? s data = some l := by
  unfold Field.seen?
  cases set : data.content? f.number with
  | some content =>
      obtain ⟨label, -⟩ := valid.content loaded found mem set
      cases content with
      | single a => exact ⟨_, rfl⟩
      | repeated items =>
          rw [singular] at label
          cases label
  | none =>
      have unset : data.isSet f.number = false := by rw [Record.isSet, set]; rfl
      have notNull := shown.resolve_left (by simp [unset])
      dsimp only
      unfold Field.unset?
      cases given : f.default with
      | some d => exact ⟨_, rfl⟩
      | none =>
          unfold Field.nullUnset at notNull
          unfold Field.implicit?
          rw [given] at notNull
          cases kind : f.kind with
          | message name => simp [kind] at notNull
          | _ => exact ⟨_, rfl⟩

theorem Access.Reads.readAs {s : Schema} {message : String} {m : Message} {f : Field}
    {boxed given : Bool} {act : Value → Run Value}
    (h : Reads s message f f.nullUnset boxed act given) (loaded : s.Loaded)
    (found : s.message? message = some m) (mem : f ∈ s.fieldsOf message)
    (singular : f.label = .singular) {id : ObjectId} {data : MessageData} {input : Value}
    (typeName : data.typeName = message) (valid : Valid s data)
    (form : Form given (.message id data) input) : Gives (act input) (f.ReadAs s data boxed) := by
  have notRepeated : f.label ≠ .repeated := by simp [singular]
  by_cases shown : data.isSet f.number = true ∨ f.nullUnset = false
  · subst typeName
    obtain ⟨l, seen⟩ := Field.exists_seen loaded found valid mem singular shown
    refine (h.present id data input l rfl valid form shown seen).imp fun result form => ?_
    refine ⟨fun repeated => absurd repeated notRepeated, ?_, fun _ _ => ⟨l, seen, form⟩⟩
    intro _ unset null
    simp [unset, null] at shown
  · rw [not_or, Bool.not_eq_true, Bool.not_eq_false] at shown
    refine (h.absent id data input typeName valid form shown.1 shown.2).imp fun result null => ?_
    refine ⟨fun repeated => absurd repeated notRepeated, fun _ _ _ => null, ?_⟩
    intro _ set
    simp [shown] at set

/-- A value whose code turns an input into results with a property runs to such a result. -/
theorem TypedValue.Converts.run_gives {s : Schema} {v : TypedValue} {t : NativeType}
    {act : Value → Run Value} {input : Value} {P : Value → Prop} (h : v.Converts (.ofSchema s) t act)
    (gives : Gives (act input) P) (fuel : Nat) (machine : Machine) :
    ∃ result machine', (v.code.run s fuel [input]).run machine = (.ok (some result), machine') ∧
      P result := by
  obtain ⟨result, machine', run, holds⟩ := gives machine
  refine ⟨result, machine', ?_, holds⟩
  rw [Sequence.run, h.runOn_eq, Stateful.run_map, run]
  rfl

theorem generateAccess_eq {s : Schema} (loaded : s.Loaded) {message : String} {m : Message}
    (found : s.message? message = some m) {f : Field} (within : f ∈ s.fieldsOf message) {c : Coercion}
    (coercion : Coercion.of s f = .ok c) {base : TypedValue} {boxed : Bool}
    (native : base.native = if boxed then .boxed .proto else .message message) :
    generateAccess s message base f.name =
      if f.isRepeated then Access.readRepeated base f c
      else if f.isExtension then
        Access.readExtension base message f c (if f.hasDefault then .noCheck else .alwaysCheck)
      else
        Access.readSingular base message f c (PresencePolicy.of f) (match f.oneof with
          | some oneof => .oneofCase oneof f.number
          | none => .hasser) := by
  have fits : (!base.isBoxed && decide (base.native ≠ .message message)) = false := by
    have isBoxed : base.isBoxed = base.native.boxedKind?.isSome := rfl
    rw [isBoxed, native]
    cases boxed <;> simp [NativeType.boxedKind?]
  unfold generateAccess
  rw [found, loaded.field?_eq found within]
  dsimp only
  simp only [Option.isNone_some, Bool.false_eq_true, if_false, fits]
  rw [Shape.of, coercion]
  cases f.isRepeated <;> cases f.isExtension <;> rfl

/-- There is code for a read of every field, and on every valid message, in native form or boxed, it
gives what is seen of the field. -/
theorem Schema.Loaded.exists_read {s : Schema} (loaded : s.Loaded) {message : String} {m : Message}
    (found : s.message? message = some m) {f : Field} (within : f ∈ s.fieldsOf message)
    (leads : f.LeadsBack s m) (boxed nullable : Bool) :
    ∃ base v act, TypedValue.input (.message message) boxed nullable = .ok base ∧
      generateAccess s message base f.name = .ok v ∧ v.Converts (.ofSchema s) base.native act ∧
      ∀ id (data : MessageData) input, data.typeName = message → Valid s data →
        Access.Form boxed (.message id data) input → Gives (act input) (f.ReadAs s data v.isBoxed) := by
  obtain ⟨base, given, h⟩ := Access.input_base (.ofSchema s) message boxed nullable
  obtain ⟨c, coercion⟩ := Coercion.exists_of (loaded.field found within)
  have covers := Coercion.covers_of_eq_ok coercion
  have generated := generateAccess_eq loaded found within coercion h.native
  rw [Field.LeadsBack] at leads
  cases label : f.label with
  | repeated =>
      obtain ⟨v, act, reads, converts, gives⟩ :=
        Access.readRepeated_converts (c := c) loaded found within label h
      rw [Field.isRepeated, label] at generated
      refine ⟨base, v, act, given, generated.trans reads, converts, ?_⟩
      intro id data input typeName valid form
      refine (gives id data input typeName valid form).imp ?_
      rintro result elements
      refine ⟨fun _ => elements, ?_, ?_⟩
      · rw [label]
        intro absurd
        cases absurd
      · rw [label]
        intro absurd
        cases absurd
  | singular =>
      cases declared : f.extensionScope with
      | some scope =>
          rw [declared] at leads
          obtain ⟨extensionId, identifies⟩ := Access.exists_identifier declared leads
          obtain ⟨v, act, reads, converts, gives⟩ := Access.readExtension_converts loaded found
            within covers label identifies h (if f.hasDefault then .noCheck else .alwaysCheck)
          rw [PresencePolicy.checks_extension declared] at gives
          rw [Field.isRepeated, label, Field.isExtension, declared] at generated
          refine ⟨base, v, act, given, generated.trans reads, converts, ?_⟩
          intro id data input typeName valid form
          exact gives.readAs loaded found within label typeName valid form
      | none =>
          rw [declared] at leads
          have own := loaded.mem_fields found within declared
          obtain ⟨v, act, reads, converts, gives⟩ := Access.readSingular_converts loaded found own
            covers label leads h (PresencePolicy.of f) rfl
          rw [PresencePolicy.checks_of declared] at gives
          rw [Field.isRepeated, label, Field.isExtension, declared] at generated
          refine ⟨base, v, act, given, generated.trans reads, converts, ?_⟩
          intro id data input typeName valid form
          exact gives.readAs loaded found within label typeName valid form

def noteFile : FileDescription where
  package := "demo"
  revision := .modern
  holder := "Demo"
  messages := [⟨"Note", false, [⟨"size", 1, .int32, none, .singular, none, none, false⟩]⟩]
  enums := []
  extensions := []

def noteSize : Field where
  name := "size"
  number := 1
  kind := .int32
  label := .singular
  revision := .modern
  container := "demo.Note"
  oneof := none
  default := none
  numericAsText := false
  extensionScope := none

def noteMessage : Message := ⟨"demo.Note", .modern, false, [noteSize], []⟩

def noteSchema : Schema := ⟨SanitizedKind.wrappers ++ [noteMessage], [], []⟩

theorem noteSchema_resolved : Schema.resolve [noteFile] = .ok noteSchema := by
  rfl

theorem noteSchema_message : noteSchema.message? "demo.Note" = some noteMessage := by
  rfl

theorem noteSize_leadsBack : noteSize.LeadsBack noteSchema noteMessage := by
  rfl

def noteData : MessageData := ⟨"demo.Note", [⟨1, "size", .single (.int 5)⟩]⟩

theorem noteData_valid : Valid noteSchema noteData := by
  refine ⟨⟨?_, ?_⟩, ?_⟩
  · intro slot mem
    obtain rfl := List.mem_singleton.mp mem
    exact ⟨noteSize, List.mem_singleton_self _, rfl, rfl⟩
  · intro f mem g mem' _ _ _ _ _
    exact (List.mem_singleton.mp mem).trans (List.mem_singleton.mp mem').symm
  · intro slot mem f mem' _ a mem''
    obtain rfl := List.mem_singleton.mp mem
    obtain rfl := List.mem_singleton.mp mem'
    obtain rfl := List.mem_singleton.mp mem''
    exact .int rfl

end MessageCode
