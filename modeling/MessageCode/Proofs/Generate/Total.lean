import MessageCode.Command.Basic
import MessageCode.Proofs.Generate.Access
import MessageCode.Proofs.Schema.Resolved

/-!
Reads can always be generated. In a schema that was resolved there is code for a read of every field,
and its input, its output and its mark follow from the field.
-/

namespace MessageCode

/-- What a read that gives null for an unset field leaves otherwise: primitives are boxed. -/
def Coercion.nullableType (c : Coercion) : NativeType :=
  if c.nativeType.isPrimitive then c.logicalType.boxedType else c.nativeType

def Field.readType (f : Field) (c : Coercion) : NativeType :=
  if f.isRepeated then .boxed .list
  else if f.nullUnset then c.nullableType
  else c.nativeType

namespace Access

variable {host : Host} {base : TypedValue} {message : String} {boxed : Bool}

/-- The steps turn one type into another, whatever they do to the value. -/
def Retypes (host : Host) (t t' : NativeType) (steps : Assembler GenerateError Unit) : Prop :=
  ∃ act, Turns host t t' steps act

theorem Retypes.seq {t t' t'' : NativeType} {steps more : Assembler GenerateError Unit}
    (h : Retypes host t t' steps) (h' : Retypes host t' t'' more) :
    Retypes host t t'' (steps >>= fun _ => more) := by
  obtain ⟨_, turns⟩ := h
  obtain ⟨_, turns'⟩ := h'
  exact ⟨_, turns.seq turns'⟩

/-- The result of a read: from the base to a value of the type, with the mark. -/
structure Leaves (base v : TypedValue) (native : NativeType) (nonNull : Bool) : Prop where
  inputs : v.code.inputs = [base.native]
  native : v.native = native
  nonNull : v.code.nonNull = nonNull

theorem exists_leaves {t : NativeType} {steps : Assembler GenerateError Unit}
    (inputs : base.code.inputs = [base.native]) (h : Retypes host base.native t steps) (nonNull : Bool)
    (type : ValueType) :
    ∃ v, TypedValue.assemble base.code.inputs nonNull type steps = .ok v ∧ Leaves base v t nonNull := by
  obtain ⟨_, turns⟩ := h
  obtain ⟨v, assembled, converts, native, -, mark⟩ := TypedValue.assemble_converts turns nonNull type
  rw [← inputs] at assembled
  exact ⟨v, assembled, converts.inputs, native, mark⟩

theorem number_retypes (host : Host) {t : NativeType} {kind : BoxedKind}
    (param : Signature.boxParam kind = t) :
    Retypes host t (.boxed kind)
      (Assembler.convert t >>= fun _ => Assembler.invoke (Signature.forValue kind)) := by
  subst param
  exact ⟨_, Turns.seq .convert_self (.invoke rfl (.refl _))⟩

theorem Retypes.top {t t' : NativeType} {steps : NativeType → Assembler GenerateError Unit}
    (h : Retypes host t t' (steps t)) : Retypes host t t' (Assembler.top >>= steps) := by
  obtain ⟨_, turns⟩ := h
  exact ⟨_, turns.top⟩

theorem boxPrimitiveTop_retypes (host : Host) (c : Coercion) :
    Retypes host c.nativeType c.nullableType (boxPrimitiveTop c.logicalType) := by
  cases c with
  | bool => exact .top (.top (.top ⟨_, .invoke rfl (.refl _)⟩))
  | int32 | int64 | legacyEnum _ | modernEnum _ => exact .top (.top (.top (number_retypes host rfl)))
  | float | double => exact .top (.top (.top (number_retypes host rfl)))
  | int64AsText | text | bytes | message _ | sanitized _ => exact .top ⟨_, .pure⟩

theorem nullableType_merge (c : Coercion) : c.nullableType.merge .null = some c.nullableType := by
  cases c <;> rfl

theorem checked_retypes {c : Coercion} {steps : Assembler GenerateError Unit}
    {tests : Assembler GenerateError Test} {test : Test} {holds : Value → Run Bool}
    (reads : Retypes host (.message message) c.nativeType steps)
    (decides : Decides host (.message message) tests test holds) :
    Retypes host (.message message) c.nullableType
      (Assembler.dup >>= fun _ => tests >>= fun test =>
        Assembler.branch test (steps >>= fun _ => boxPrimitiveTop c.logicalType) absent) := by
  obtain ⟨_, turns⟩ := reads.seq (boxPrimitiveTop_retypes host c)
  exact ⟨_, .branch decides turns absent_turns (nullableType_merge c)⟩

section

variable {s : Schema} {m : Message} {f : Field} {c : Coercion}
  (h : Base (.ofSchema s) base message boxed)

include h

theorem nativeBase_retypes : Retypes (.ofSchema s) base.native (.message message) (nativeBase base message) := by
  obtain ⟨_, turns, -⟩ := nativeBase_turns h
  exact ⟨_, turns⟩

theorem readSingular_leaves (loaded : s.Loaded) (found : s.message? message = some m)
    (mem : f ∈ m.fields) (covers : c.Covers s f) (policy : PresencePolicy) {test : PresenceTest}
    (tests : test = match f.oneof with
      | some oneof => .oneofCase oneof f.number
      | none => .hasser) :
    ∃ v, readSingular base message f c policy test = .ok v ∧
      Leaves base v (if policy.checks then c.nullableType else c.nativeType) (!policy.checks) := by
  have container := loaded.container found ((Schema.Loaded.mem_fieldsOf found).mpr (.inl mem))
  have fits : Fits [.message message] (Signature.getter f c.storageType).operands := by
    rw [← container]
    exact .refl _
  obtain ⟨_, interprets, -⟩ := Coercion.interpret_native covers loaded
  have reads : Retypes (.ofSchema s) (.message message) c.nativeType
      (Assembler.invoke (Signature.getter f c.storageType) >>= fun _ => c.interpret) :=
    ⟨_, (Turns.invoke rfl fits).seq interprets⟩
  unfold readSingular
  cases policy.checks with
  | false => exact exists_leaves h.converts.inputs ((nativeBase_retypes h).seq reads) true _
  | true =>
      obtain ⟨_, _, decides, -⟩ := testPresence_decides loaded found mem tests
      have checked := (nativeBase_retypes h).seq (checked_retypes reads decides)
      rw [bind_assoc] at checked
      exact exists_leaves h.converts.inputs checked false _

theorem readExtension_leaves (loaded : s.Loaded) (covers : c.Covers s f) {scope : ExtensionScope}
    (declared : f.extensionScope = some scope) (policy : PresencePolicy) :
    ∃ v, readExtension base message f c policy = .ok v ∧
      Leaves base v (if policy.checks then c.nullableType else c.nativeType) (!policy.checks) := by
  obtain ⟨id, identifier, type⟩ : ∃ id, Signature.extensionId f = .ok id ∧
      id.type = Signature.extension := by
    unfold Signature.extensionId
    rw [declared]
    cases scope with
    | message name => exact ⟨_, rfl, rfl⟩
    | file holder => exact ⟨_, rfl, rfl⟩
  have pushes : Pushes (.ofSchema s) id.type (Assembler.getStatic id) _ := .getStatic id
  rw [type] at pushes
  obtain ⟨_, interprets, -⟩ := Coercion.interpretExtension_native covers loaded
  have lookup : Turns (.ofSchema s) (.message message) Signature.object
      (Assembler.getStatic id >>= fun _ => Assembler.invoke Signature.getExtension) _ :=
    .pushInvoke pushes rfl (.cons rfl (.cons rfl .nil))
  have reads : Retypes (.ofSchema s) (.message message) c.nativeType _ := ⟨_, lookup.seq interprets⟩
  unfold readExtension
  rw [identifier]
  cases policy.checks with
  | false =>
      rw [bind_assoc] at reads
      exact exists_leaves h.converts.inputs ((nativeBase_retypes h).seq reads) true _
  | true =>
      have decides : Decides (.ofSchema s) (.message message) _ _ _ :=
        .isTrue (.pushInvoke (m := Signature.hasExtension) pushes rfl (.cons rfl (.cons rfl .nil)))
      have checked := (nativeBase_retypes h).seq (checked_retypes reads decides)
      simp only [bind_assoc, pure_bind] at checked
      exact exists_leaves h.converts.inputs checked false _

theorem readRepeated_leaves (f : Field) (c : Coercion) :
    ∃ v, readRepeated base f c = .ok v ∧ Leaves base v (.boxed .list) true := by
  obtain ⟨base', _, box, converts, native, -⟩ := box_converts h
  have spliced := converts.turns
  rw [native] at spliced
  have lookup : Turns (.ofSchema s) (.boxed .proto) (.ref .provider)
      (Assembler.pushConst (.text f.name) >>= fun _ => Assembler.invoke Signature.getField) _ :=
    .pushInvoke (.const (.text f.name)) rfl (.refl _)
  have same : Turns (.ofSchema s) (.boxed .proto) (.boxed .proto)
      (Assembler.checkCast (.boxed .proto)) pure := .checkCast_upcast rfl rfl nofun
  have resolves : Turns (.ofSchema s) (.ref .provider) (.boxed .any)
      (Assembler.invoke Signature.resolve) _ := .invoke rfl (.refl _)
  have casts : Turns (.ofSchema s) (.boxed .any) (.boxed .list)
      (Assembler.checkCast (.boxed .list)) _ := .checkCast rfl (.inl rfl)
  have reads : Retypes (.ofSchema s) base.native (.boxed .list) _ :=
    ⟨_, spliced.seq (same.seq (lookup.seq (resolves.seq casts)))⟩
  obtain ⟨v, assembled, leaves⟩ := exists_leaves h.converts.inputs reads true (.list c.logicalType)
  refine ⟨v, ?_, leaves⟩
  unfold readRepeated
  rw [box]
  change TypedValue.assemble base'.code.inputs _ _ _ = _
  rw [converts.inputs, ← h.converts.inputs]
  simpa only [bind_assoc] using assembled

end

end Access

/-- There is code for a read of every field, in a schema with the guarantees of resolution. -/
theorem Schema.Loaded.exists_generateAccess {s : Schema} (loaded : s.Loaded) {message : String}
    {m : Message} (found : s.message? message = some m) {f : Field}
    (mem : f ∈ m.fields ∨ f ∈ s.extensions ∧ f.container = message) (boxed nullable : Bool) :
    ∃ base v c, TypedValue.input (.message message) boxed nullable = .ok base ∧
      base.native = (if boxed then .boxed .proto else .message message) ∧
      Coercion.of s f = .ok c ∧ generateAccess s message base f.name = .ok v ∧
      Access.Leaves base v (f.readType c) (f.isRepeated || !f.nullUnset) := by
  have within := (Schema.Loaded.mem_fieldsOf found).mpr mem
  obtain ⟨base, given, h⟩ := Access.input_base (.ofSchema s) message boxed nullable
  obtain ⟨c, coercion⟩ := Coercion.exists_of (loaded.field found within)
  have covers := Coercion.covers_of_eq_ok coercion
  suffices reads : ∃ v, generateAccess s message base f.name = .ok v ∧
      Access.Leaves base v (f.readType c) (f.isRepeated || !f.nullUnset) by
    obtain ⟨v, reads, leaves⟩ := reads
    exact ⟨base, v, c, given, h.native, coercion, reads, leaves⟩
  rw [generateAccess_eq loaded found within coercion h.native, Field.readType]
  cases label : f.isRepeated with
  | true => exact Access.readRepeated_leaves h f c
  | false =>
      rw [Field.isExtension, Bool.false_or]
      cases declared : f.extensionScope with
      | some scope =>
          obtain ⟨v, reads, leaves⟩ := Access.readExtension_leaves h loaded covers declared
            (if f.hasDefault then .noCheck else .alwaysCheck)
          rw [PresencePolicy.checks_extension declared] at leaves
          exact ⟨v, reads, leaves⟩
      | none =>
          have own : f ∈ m.fields := by
            refine mem.resolve_right ?_
            rintro ⟨extension, -⟩
            have given := loaded.scope f extension
            simp [declared] at given
          obtain ⟨v, reads, leaves⟩ :=
            Access.readSingular_leaves h loaded found own covers (PresencePolicy.of f) rfl
          rw [PresencePolicy.checks_of declared] at leaves
          exact ⟨v, reads, leaves⟩

namespace Command

variable {s : Schema}

theorem forM_eq_pure {α : Type} {items : List α} {step : α → Action Unit}
    (h : ∀ a ∈ items, step a = pure ()) : forM items step = pure () := by
  induction items with
  | nil => rfl
  | cons a items ih =>
      have first := h a List.mem_cons_self
      have rest := ih fun a mem => h a (List.mem_cons_of_mem _ mem)
      rw [List.forM_cons, first, pure_bind, rest]

theorem mapM_eq_pure {α β : Type} {items : List α} {step : α → Action β} {result : α → β}
    (h : ∀ a ∈ items, step a = pure (result a)) : items.mapM step = pure (items.map result) := by
  induction items with
  | nil => rfl
  | cons a items ih =>
      have first := h a List.mem_cons_self
      have rest := ih fun a mem => h a (List.mem_cons_of_mem _ mem)
      rw [List.mapM_cons, first, pure_bind, rest, pure_bind, List.map_cons]

theorem checkMessage_eq (loaded : s.Loaded) {m : Message} (found : s.message? m.fullName = some m) :
    checkMessage s m = pure (m.fields ++ s.extensionsOf m.fullName).length := by
  obtain ⟨built, construction⟩ : ∃ v, generateConstruction s .immediate m.fullName [] = .ok v := by
    unfold generateConstruction
    rw [found]
    exact ⟨_, rfl⟩
  have reads : ∀ f ∈ m.fields ++ s.extensionsOf m.fullName, (base m.fullName false >>= fun v =>
      ofExcept .generate (generateAccess s m.fullName v f.name) >>= fun _ => (pure () : Action Unit)) =
        pure () := by
    intro f mem
    obtain ⟨v, read, -, given, -, -, generated, -⟩ :=
      loaded.exists_generateAccess (f := f) found (by simpa [Schema.extensionsOf] using mem) false false
    rw [base, given]
    change ofExcept .generate (generateAccess s m.fullName v f.name) >>= _ = _
    rw [generated]
    rfl
  unfold checkMessage
  rw [construction]
  change (forM (m.fields ++ s.extensionsOf m.fullName) _ : Action Unit) >>= _ = _
  rw [forM_eq_pure reads]
  rfl

def checkReport (s : Schema) : String :=
  "ok: " ++ toString s.messages.length ++ " messages, "
    ++ toString ((s.messages.map fun m => (m.fields ++ s.extensionsOf m.fullName).length).foldl
      (· + ·) 0) ++ " field accessors\n"

/-- The check of a resolved schema passes, whatever order the messages are checked in. -/
theorem runCheck_eq {files : List FileDescription} (resolved : Schema.resolve files = .ok s) :
    runCheck s = write (checkReport s) := by
  have loaded := Schema.loaded_of_resolve resolved
  have sorted : s.sortedMessages.Perm s.messages := List.mergeSort_perm ..
  have passed : s.sortedMessages.mapM (checkMessage s) =
      pure (s.sortedMessages.map fun m => (m.fields ++ s.extensionsOf m.fullName).length) :=
    mapM_eq_pure fun m mem =>
      checkMessage_eq loaded (Schema.message?_of_mem resolved (sorted.mem_iff.mp mem))
  rw [runCheck, passed, pure_bind, List.length_map, sorted.length_eq, ← List.sum_eq_foldl,
    (sorted.map _).sum_nat, List.sum_eq_foldl]
  rfl

/-- Every file with a schema passes the check. -/
theorem run_check {bytes : ByteArray} (loads : Schema.ofBytes bytes = .ok s) (fuel : Nat) :
    run fuel (some bytes) .check = (none, checkReport s) := by
  obtain ⟨files, resolved⟩ := Schema.exists_resolve_of_ofBytes loads
  have passes : runWith fuel s .check = write (checkReport s) := runCheck_eq resolved
  have written : (write (checkReport s)).run "" = (.ok (), checkReport s) := by
    change (_, "" ++ checkReport s) = _
    rw [String.empty_append]
  unfold run
  simp only [loads, ofExcept, pure_bind, passes, written]

end Command

/-- In a resolved schema, reads never fail to generate: for every field and every extension of every
message there is code from the base, in either form, and its type and its mark follow from the field.
The check of the schema therefore passes. -/
theorem generateAccess_total {files : List FileDescription} {s : Schema}
    (resolved : Schema.resolve files = .ok s) :
    (∀ m ∈ s.messages, ∀ f, f ∈ m.fields ∨ f ∈ s.extensions ∧ f.container = m.fullName →
      ∀ boxed nullable, ∃ base v c,
        TypedValue.input (.message m.fullName) boxed nullable = .ok base ∧
        Coercion.of s f = .ok c ∧ generateAccess s m.fullName base f.name = .ok v ∧
        v.code.inputs = [if boxed then .boxed .proto else .message m.fullName] ∧
        v.code.output = some (f.readType c) ∧
        v.code.nonNull = (f.isRepeated || !f.nullUnset)) ∧
      ∀ fuel text, (Command.check.runWith fuel s).run text = (.ok (), text ++ Command.checkReport s) := by
  have loaded := Schema.loaded_of_resolve resolved
  constructor
  · intro m mem f within boxed nullable
    obtain ⟨base, v, c, given, native, coercion, generated, leaves⟩ :=
      loaded.exists_generateAccess (Schema.message?_of_mem resolved mem) within boxed nullable
    refine ⟨base, v, c, given, coercion, generated, ?_, ?_, leaves.nonNull⟩
    · rw [leaves.inputs, native]
    · rw [v.output_eq, leaves.native]
  · intro fuel text
    change (Command.runCheck s).run text = _
    rw [Command.runCheck_eq resolved]
    rfl

/-- The check of the letters passes, and the read of their extension is text and never null. -/
theorem letterSchema_total :
    (∃ base v, TypedValue.input (.message "demo.Letter") true true = .ok base ∧
      generateAccess letterSchema "demo.Letter" base "weight" = .ok v ∧
      v.code.inputs = [.boxed .proto] ∧ v.code.output = some .text ∧ v.code.nonNull = true) ∧
    ((Command.check.runWith 0 letterSchema).run "").1 = .ok () := by
  obtain ⟨reads, checks⟩ := generateAccess_total letterSchema_resolved
  constructor
  · obtain ⟨base, v, c, given, coercion, generated, inputs, output, nonNull⟩ :=
      reads ⟨"demo.Letter", .legacy, true, _, ["style"]⟩ (List.mem_append_right _ (.head _)) _
        (.inr ⟨.head _, rfl⟩) true true
    cases coercion
    exact ⟨base, v, given, generated, inputs, output, nonNull⟩
  · rw [checks]

end MessageCode
