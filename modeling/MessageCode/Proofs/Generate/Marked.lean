import MessageCode.Proofs.Generate.Generated
import MessageCode.Proofs.Generate.Restacks
import MessageCode.Proofs.Machine.Sound
import MessageCode.Proofs.Schema.Resolved

/-!
Marked operations. Generated code marks the operations that it calls and that never give null. All of them
keep to that but one: an enum has no constant for a number that it does not declare.
-/

namespace MessageCode

open Stateful

/-- The operations that signatures mark as never giving null. -/
inductive Signature.Marked : Method → Prop
  | getter (f t) : Marked (getter f t)
  | caseGetter (message oneof) : Marked (caseGetter message oneof)
  | defaultInstance (message) : Marked (defaultInstance message)
  | newBuilder (message) : Marked (newBuilder message)
  | build (message) : Marked (build message)
  | setter (f t) : Marked (setter f t)
  | hasExtension : Marked hasExtension
  | getExtension : Marked getExtension
  | setExtension : Marked setExtension
  | addExtension : Marked addExtension
  | enumForNumber (name) : Marked (enumForNumber name)
  | longToString : Marked longToString
  | objectToString : Marked objectToString
  | byteStringToArray : Marked byteStringToArray
  | byteStringCopyFrom : Marked byteStringCopyFrom
  | base64 : Marked base64
  | base64Encode : Marked base64Encode
  | base64Decode : Marked base64Decode
  | newList : Marked newList
  | provider : Marked provider
  | resolveAll : Marked resolveAll
  | getProto : Marked getProto
  | forValue (kind) : Marked (forValue kind)
  | ordain : Marked ordain
  | asList : Marked asList
  | wrappedValue (kind) : Marked (wrappedValue kind)

def Method.KeepsMark (m : Method) : Prop := m.nonNull = true → Signature.Marked m

namespace Op

mutual

theorem any_calls_relocate (m : Method) (offset : Nat) (op : Op) :
    (op.relocate offset).any (calls m) = op.any (calls m) := by
  cases op with
  | branch test thenOps elseOps =>
      simp only [relocate, any, anyOf_calls_relocateAll m offset thenOps,
        anyOf_calls_relocateAll m offset elseOps]
      rfl
  | loop condition test body =>
      simp only [relocate, any, anyOf_calls_relocateAll m offset condition,
        anyOf_calls_relocateAll m offset body]
      rfl
  | scope locals body =>
      simp only [relocate, any, anyOf_calls_relocateAll m offset body]
      rfl
  | _ => rfl

theorem anyOf_calls_relocateAll (m : Method) (offset : Nat) (code : List Op) :
    anyOf (calls m) (relocateAll offset code) = anyOf (calls m) code := by
  cases code with
  | nil => rfl
  | cons op rest =>
      simp only [relocateAll, anyOf, any_calls_relocate m offset op, anyOf_calls_relocateAll m offset rest]

end

/-- Every operation that the code calls has the property. -/
def CallsOnly (P : Method → Prop) (ops : List Op) : Prop := ∀ m, anyOf (calls m) ops = true → P m

namespace CallsOnly

variable {P : Method → Prop} {ops more : List Op}

theorem nil : CallsOnly P [] := nofun

theorem append (h : CallsOnly P ops) (h' : CallsOnly P more) : CallsOnly P (ops ++ more) := by
  intro m called
  rw [anyOf_append, Bool.or_eq_true] at called
  exact called.elim (h m) (h' m)

theorem relocate (h : CallsOnly P ops) (offset : Nat) : CallsOnly P (relocateAll offset ops) := by
  intro m called
  rw [anyOf_calls_relocateAll] at called
  exact h m called

theorem branch (h : CallsOnly P ops) (h' : CallsOnly P more) (test : Test) :
    CallsOnly P [.branch test ops more] := by
  intro m called
  simp only [anyOf, any, calls, Bool.false_or, Bool.or_false, Bool.or_eq_true] at called
  exact called.elim (h m) (h' m)

theorem loop (h : CallsOnly P ops) (h' : CallsOnly P more) (test : Test) :
    CallsOnly P [.loop ops test more] := by
  intro m called
  simp only [anyOf, any, calls, Bool.false_or, Bool.or_false, Bool.or_eq_true] at called
  exact called.elim (h m) (h' m)

theorem scope (h : CallsOnly P ops) (locals : List Declaration) : CallsOnly P [.scope locals ops] := by
  intro m called
  simp only [anyOf, any, calls, Bool.false_or, Bool.or_false] at called
  exact h m called

end CallsOnly

end Op

def Assembler.Calls {α : Type} (P : Method → Prop) (steps : Assembler GenerateError α) : Prop :=
  ∀ a x a', steps.run a = (.ok x, a') → Op.CallsOnly P a.ops → Op.CallsOnly P a'.ops

namespace Assembler.Calls

variable {α β : Type} {P : Method → Prop} {steps : Assembler GenerateError α} {m : Method}

theorem of_same (h : ∀ a x a', steps.run a = (.ok x, a') → a'.ops = a.ops) : Calls P steps := by
  intro a x a' run calls
  rwa [h a x a' run]

theorem pure (x : α) : Calls P (Pure.pure x) := of_same fun a y a' run => by cases run; rfl

theorem throw (e : GenerateError) : Calls P (MonadExcept.throw e : Assembler GenerateError α) := nofun

theorem bind {more : α → Assembler GenerateError β} (h : Calls P steps) (h' : ∀ x, Calls P (more x)) :
    Calls P (steps >>= more) := by
  intro a y a' run calls
  obtain ⟨x, b, first, second⟩ := bind_eq_ok.mp run
  exact h' x b y a' second (h a x b first calls)

theorem ite {p : Prop} [Decidable p] {more : Assembler GenerateError α} (h : Calls P steps)
    (h' : Calls P more) : Calls P (if p then steps else more) := by
  split
  · exact h
  · exact h'

theorem require {p : Prop} [Decidable p] {e : GenerateError} {more : PUnit → Assembler GenerateError β}
    (h : Calls P (more ⟨⟩)) : Calls P (if p then more ⟨⟩ else MonadExcept.throw e >>= more) := by
  split
  · exact h
  · intro a x a' run
    cases run

theorem forM {items : List α} {step : α → Assembler GenerateError Unit}
    (h : ∀ item ∈ items, Calls P (step item)) : Calls P (items.forM step) := by
  induction items with
  | nil => exact pure ()
  | cons item items ih =>
      exact (h item List.mem_cons_self).bind fun _ => ih fun item mem => h item (List.mem_cons_of_mem _ mem)

theorem ofExcept (result : Except GenerateError α) : Calls P (Assembler.ofExcept result) := by
  cases result with
  | ok x => exact pure x
  | error e => exact throw e

theorem top : Calls P Assembler.top :=
  of_same fun _ _ _ run => by
    obtain ⟨rest, -, rfl⟩ := Assembler.top_eq_ok.mp run
    rfl

theorem popType (op : String) : Calls P (Assembler.popType op) :=
  of_same fun _ _ _ run => by
    obtain ⟨rest, -, rfl⟩ := Assembler.popType_eq_ok.mp run
    simp

theorem popExpect (expected : NativeType) (op : String) : Calls P (Assembler.popExpect expected op) :=
  of_same fun _ _ _ run => by
    obtain ⟨rest, -, -, rfl⟩ := Assembler.popExpect_eq_ok.mp run
    simp

theorem pushType (t : NativeType) : Calls P (Assembler.pushType t) :=
  of_same fun _ _ _ run => by
    cases run
    rfl

theorem emit {op : Op} (h : Op.CallsOnly P [op]) : Calls P (Assembler.emit op) := by
  intro a x a' run calls
  cases run
  exact calls.append h

theorem emitPlain {op : Op} (h : ∀ m, op.any (Op.calls m) = false) : Calls P (Assembler.emit op) := by
  refine emit fun m called => ?_
  simp [Op.anyOf, h m] at called

theorem pushConst (c : Constant) : Calls P (Assembler.pushConst c) :=
  (pushType c.type).bind fun _ => emitPlain fun _ => rfl

theorem dup : Calls P Assembler.dup :=
  top.bind fun _ => (pushType _).bind fun _ => emitPlain fun _ => rfl

theorem pop : Calls P Assembler.pop := (popType "pop").bind fun _ => emitPlain fun _ => rfl

theorem swap : Calls P Assembler.swap :=
  (popType "swap").bind fun a => (popType "swap").bind fun b => (pushType a).bind fun _ =>
    (pushType b).bind fun _ => emitPlain fun _ => rfl

theorem getStatic (f : StaticField) : Calls P (Assembler.getStatic f) :=
  (pushType f.type).bind fun _ => emitPlain fun _ => rfl

theorem load (l : Local) : Calls P (Assembler.load l) :=
  (pushType l.type).bind fun _ => emitPlain fun _ => rfl

theorem store (l : Local) : Calls P (Assembler.store l) :=
  (popExpect l.type "store").bind fun _ => emitPlain fun _ => rfl

theorem increment (l : Local) (delta : Int32) : Calls P (Assembler.increment l delta) :=
  ite (emitPlain fun _ => rfl) (throw _)

theorem convert (target : NativeType) : Calls P (Assembler.convert target) :=
  (popType "convert").bind fun source => ite (pushType source) <| ite (throw _) <| ite (throw _) <|
    (pushType target).bind fun _ => emitPlain fun _ => rfl

theorem checkCast (target : RefType) : Calls P (Assembler.checkCast target) :=
  (popExpect _ _).bind fun source => ite (pushType source) <|
    (pushType (.ref target)).bind fun _ => emitPlain fun _ => rfl

theorem boxPrimitive : Calls P Assembler.boxPrimitive :=
  (popType "box").bind fun _ => ite ((pushType _).bind fun _ => emitPlain fun _ => rfl) (throw _)

theorem declareLocal (name : String) (t : NativeType) : Calls P (Assembler.declareLocal name t) :=
  of_same fun _ _ _ run => by
    cases run
    rfl

theorem invoke (h : P m) : Calls P (Assembler.invoke m) := by
  intro a x a' run calls
  obtain ⟨found, rest, -, -, rfl⟩ := Assembler.invoke_eq_ok.mp run
  refine calls.append fun k called => ?_
  have same : m = k := by simpa [Op.anyOf, Op.any, Op.calls] using called
  rwa [← same]

theorem append {s : Sequence} (h : Op.CallsOnly P s.ops) : Calls P (Assembler.append s) := by
  intro a x a' run calls
  obtain ⟨found, rest, -, -, rfl⟩ := Assembler.append_eq_ok.mp run
  exact calls.append (h.relocate _)

theorem branch {test : Test} {thenArm elseArm : Assembler GenerateError Unit} (h : Calls P thenArm)
    (h' : Calls P elseArm) : Calls P (Assembler.branch test thenArm elseArm) := by
  intro a x a' run calls
  obtain ⟨found, rest, b, b', stack, -, -, first, second, -, rfl⟩ := Assembler.branch_eq_ok.mp run
  have before : Op.CallsOnly P (a.put [] rest).ops := by simpa using calls
  exact before.append (.branch (h _ _ _ first .nil) (h' _ _ _ second .nil) test)

theorem whileLoop {test : Test} {condition body : Assembler GenerateError Unit} (h : Calls P condition)
    (h' : Calls P body) : Calls P (Assembler.whileLoop condition test body) := by
  intro a x a' run calls
  obtain ⟨b, found, b', first, -, -, second, -, rfl⟩ := Assembler.whileLoop_eq_ok.mp run
  exact calls.append (.loop (h _ _ _ first .nil) (h' _ _ _ second .nil) test)

theorem scope {body : Assembler GenerateError Unit} (h : Calls P body) : Calls P (Assembler.scope body) := by
  intro a x a' run calls
  obtain ⟨b, first, rfl⟩ := Assembler.scope_eq_ok.mp run
  exact calls.append (.scope (h _ _ _ first .nil) _)

end Assembler.Calls

abbrev Assembler.KeepsMarks {α : Type} (steps : Assembler GenerateError α) : Prop :=
  Assembler.Calls Method.KeepsMark steps

abbrev TypedValue.KeepsMarks (v : TypedValue) : Prop := Op.CallsOnly Method.KeepsMark v.code.ops

namespace Assembler.Calls

theorem marked {m : Method} (h : Signature.Marked m) : (Assembler.invoke m).KeepsMarks := invoke fun _ => h

theorem unmarked {m : Method} (h : m.nonNull = false) : (Assembler.invoke m).KeepsMarks :=
  invoke fun marked => by
    rw [h] at marked
    cases marked

/-! Coercions. -/

theorem boxPresent (type : ValueType) : (boxPresent type).KeepsMarks := by
  refine top.bind fun t => ?_
  cases t with
  | bool => exact marked (.forValue .bool)
  | int | long => exact (convert .long).bind fun _ => marked (.forValue .int)
  | float | double => exact (convert .double).bind fun _ => marked (.forValue .float)
  | ref r =>
      cases r with
      | text =>
          cases type with
          | sanitized kind => exact (pushConst _).bind fun _ => marked .ordain
          | _ => exact marked (.forValue .text)
      | message name => exact marked (.forValue .proto)
      | list => exact marked (.forValue .list)
      | null => exact checkCast _
      | _ => exact throw _

theorem boxTop (type : ValueType) (nullable : Bool) : (boxTop type nullable).KeepsMarks :=
  top.bind fun _ => ite (pure ()) <| ite
    (dup.bind fun _ => branch (pop.bind fun _ => pushConst .null) (boxPresent type)) (boxPresent type)

theorem unboxBoxed (target : NativeType) : (unboxBoxed target).KeepsMarks := by
  have proto : (Assembler.invoke Signature.getProto).KeepsMarks := marked .getProto
  cases target with
  | bool => exact unmarked rfl
  | int | long | float | double => exact (unmarked rfl).bind fun _ => convert _
  | ref r =>
      cases r with
      | text => exact unmarked rfl
      | list => exact (checkCast _).bind fun _ => marked .asList
      | object => exact (checkCast _).bind fun _ => proto
      | message name => exact (checkCast _).bind fun _ => proto.bind fun _ => checkCast _
      | _ => exact top.bind fun _ => throw _

theorem unboxTop (target : NativeType) : (unboxTop target).KeepsMarks :=
  top.bind fun _ => ite (unboxBoxed target) <| ite (pure ()) <| ite (convert target) <|
    ite ((checkCast _).bind fun _ => unboxBoxed target) (throw _)

theorem encodeBytes : Coercion.encodeBytes.KeepsMarks :=
  (marked .byteStringToArray).bind fun _ => (marked .base64).bind fun _ => swap.bind fun _ =>
    marked .base64Encode

theorem unwrapSanitized (kind : SanitizedKind) : (Coercion.unwrapSanitized kind).KeepsMarks :=
  (checkCast _).bind fun _ => marked (.wrappedValue kind)

theorem interpret (c : Coercion) : c.interpret.KeepsMarks := by
  cases c with
  | bool | double | text | int64 => exact pure ()
  | float | int32 | modernEnum => exact convert _
  | int64AsText => exact marked .longToString
  | legacyEnum name => exact (unmarked rfl).bind fun _ => convert _
  | bytes => exact encodeBytes
  | message name => exact checkCast _
  | sanitized kind => exact unwrapSanitized kind

theorem interpretExtension (c : Coercion) : c.interpretExtension.KeepsMarks := by
  cases c with
  | float | double | int32 | int64 | modernEnum | bool => exact (checkCast _).bind fun _ => unmarked rfl
  | int64AsText => exact marked .objectToString
  | legacyEnum name => exact (checkCast _).bind fun _ => (unmarked rfl).bind fun _ => convert _
  | text | message => exact checkCast _
  | bytes => exact (checkCast _).bind fun _ => encodeBytes
  | sanitized kind => exact unwrapSanitized kind

theorem coerce (c : Coercion) : c.coerce.KeepsMarks := by
  cases c with
  | bool | double | text | int64 => exact pure ()
  | float | int32 | modernEnum => exact convert _
  | int64AsText => exact unmarked rfl
  | legacyEnum name => exact (convert _).bind fun _ => marked (.enumForNumber name)
  | bytes =>
      exact (marked .base64).bind fun _ => swap.bind fun _ => (marked .base64Decode).bind fun _ =>
        marked .byteStringCopyFrom
  | message name => exact checkCast _
  | sanitized kind => exact (checkCast _).bind fun _ => unmarked rfl

/-! Lists and reads. -/

theorem addItem (element : ValueType) {item : TypedValue} (h : item.KeepsMarks) :
    (TypedValue.addItem element item).KeepsMarks := by
  refine require (dup.bind fun _ => (append h).bind fun _ => (boxTop _ _).bind fun _ => ?_)
  exact (marked .provider).bind fun _ => (unmarked rfl).bind fun _ => pop

theorem nativeBase {base : TypedValue} (h : base.KeepsMarks) (message : String) :
    (Access.nativeBase base message).KeepsMarks :=
  (append h).bind fun _ => ite ((checkCast _).bind fun _ => (marked .getProto).bind fun _ => checkCast _)
    (pure ())

theorem boxPrimitiveTop (type : ValueType) : (Access.boxPrimitiveTop type).KeepsMarks :=
  top.bind fun _ => ite (boxTop type false) (pure ())

theorem absent : Access.absent.KeepsMarks := pop.bind fun _ => pushConst .null

theorem testPresence (f : Field) (test : PresenceTest) : (Access.testPresence f test).KeepsMarks := by
  cases test with
  | hasser => exact (unmarked rfl).bind fun _ => pure _
  | oneofCase oneof number =>
      exact (marked (.caseGetter _ _)).bind fun _ => (unmarked rfl).bind fun _ => (pushConst _).bind fun _ =>
        pure _

/-! Constructions. -/

theorem unboxFor (c : Coercion) (type : ValueType) : (Construction.unboxFor c type).KeepsMarks := by
  unfold Construction.unboxFor
  split
  · exact unboxTop _
  · exact top.bind fun _ => ite (boxTop type false) (pure ())

theorem storeValue (f : Field) (c : Coercion) (type : ValueType) :
    (Construction.storeValue f c type).KeepsMarks :=
  (unboxFor c type).bind fun _ => (coerce c).bind fun _ => marked (.setter f _)

theorem unlessNull {v : TypedValue} (h : v.KeepsMarks) {steps : Assembler GenerateError Unit}
    (h' : steps.KeepsMarks) : (Construction.unlessNull v steps).KeepsMarks :=
  (append h).bind fun _ => ite (dup.bind fun _ => branch pop h') h'

theorem extensionValue (c : Coercion) (type : ValueType) :
    (Construction.extensionValue c type).KeepsMarks :=
  (unboxFor c type).bind fun _ => (coerce c).bind fun _ => top.bind fun _ => ite boxPrimitive (pure ())

theorem setExtension (f : Field) (c : Coercion) {v : TypedValue} (h : v.KeepsMarks) :
    (Construction.setExtension f c v).KeepsMarks := by
  refine (ofExcept _).bind fun id => (checkCast _).bind fun _ => ite ?_ ?_
  · refine (append h).bind fun _ => dup.bind fun _ => (branch pop ?_).bind fun _ => checkCast _
    exact (extensionValue c v.type).bind fun _ => (getStatic id).bind fun _ => swap.bind fun _ =>
      marked .setExtension
  · exact (getStatic id).bind fun _ => (append h).bind fun _ => (extensionValue c v.type).bind fun _ =>
      (marked .setExtension).bind fun _ => checkCast _

theorem loadElement (list index : Local) (kind : BoxedKind) :
    (Construction.loadElement list index kind).KeepsMarks :=
  (load list).bind fun _ => (load index).bind fun _ => (unmarked rfl).bind fun _ =>
    (checkCast _).bind fun _ => (unmarked rfl).bind fun _ => checkCast _

theorem addExtensionElement (f : Field) (element : Coercion) (type : ValueType) (list index : Local) :
    (Construction.addExtensionElement f element type list index).KeepsMarks :=
  (checkCast _).bind fun _ => (ofExcept _).bind fun id => (getStatic id).bind fun _ =>
    (loadElement list index _).bind fun _ => (extensionValue element type).bind fun _ =>
      (marked .addExtension).bind fun _ => checkCast _

theorem addAll (f : Field) (element : Coercion) (extension : Bool) (type : ValueType) :
    (Construction.addAll f element extension type).KeepsMarks := by
  refine scope ?_
  refine (declareLocal _ _).bind fun list => (store list).bind fun _ => (declareLocal _ _).bind fun size => ?_
  refine (load list).bind fun _ => (unmarked rfl).bind fun _ => (store size).bind fun _ => ?_
  refine (declareLocal _ _).bind fun index => (pushConst _).bind fun _ => (store index).bind fun _ => ?_
  refine whileLoop ((load index).bind fun _ => load size) (ite ?_ ?_)
  · exact (addExtensionElement f element type list index).bind fun _ => increment index 1
  · exact (loadElement list index _).bind fun _ => (storeValue f element type).bind fun _ => increment index 1

theorem setRepeated {resolver : ListResolver} (immediate : resolver = .immediate) (f : Field)
    (element : Coercion) (extension : Bool) {v : TypedValue} (h : v.KeepsMarks) :
    (Construction.setRepeated resolver f element extension v).KeepsMarks := by
  subst immediate
  refine ite (pure ()) (unlessNull h ?_)
  rw [ListResolver.immediate_eq, pure_bind]
  refine (unboxTop _).bind fun _ => (append fun m called => ?_).bind fun _ => addAll f element extension _
  have waits : Signature.resolveAll = m := by
    simpa [ListResolver.wait, Op.anyOf, Op.any, Op.calls] using called
  rw [← waits]
  exact fun _ => .resolveAll

theorem setArgument (s : Schema) {resolver : ListResolver} (immediate : resolver = .immediate)
    (message : String) {argument : String × TypedValue} (h : argument.2.KeepsMarks) :
    (Construction.setArgument s resolver message argument).KeepsMarks := by
  obtain ⟨name, v⟩ := argument
  unfold Construction.setArgument
  dsimp only
  split
  · exact throw _
  · rename_i f _
    refine require (ite (pure ()) ((ofExcept _).bind fun shape => require ?_))
    cases shape with
    | repeated element extension => exact setRepeated immediate f element extension h
    | extension c presence => exact setExtension f c h
    | singular c presence test => exact unlessNull h (storeValue f c v.type)

end Assembler.Calls

namespace TypedValue

theorem assemble_calls {P : Method → Prop} {inputs : List NativeType} {nonNull : Bool} {type : ValueType}
    {steps : Assembler GenerateError Unit} {v : TypedValue}
    (made : assemble inputs nonNull type steps = .ok v) (h : steps.Calls P) : Op.CallsOnly P v.code.ops := by
  obtain ⟨-, a, run, finished⟩ := assemble_eq_ok made
  rw [(Assembly.Finishes.eq (.inl ⟨nonNull, finished⟩)).1]
  exact h _ _ a run .nil

open Assembler.Calls

theorem KeepsMarks.constant (c : Constant) (type : ValueType) : (ofConstant c type).KeepsMarks := by
  intro m called
  cases called

theorem KeepsMarks.extend {v v' : TypedValue} {steps : Assembler GenerateError Unit} (h : v.KeepsMarks)
    (made : v.extend steps = .ok v') (more : steps.KeepsMarks) : v'.KeepsMarks :=
  assemble_calls made ((append h).bind fun _ => more)

theorem KeepsMarks.box {v v' : TypedValue} (h : v.KeepsMarks) (made : v.box = .ok v') : v'.KeepsMarks := by
  unfold TypedValue.box at made
  split at made
  · cases made
    exact h
  · exact h.extend made (.boxTop _ _)

theorem KeepsMarks.access {s : Schema} {base v : TypedValue} {message field : String} (h : base.KeepsMarks)
    (made : generateAccess s message base field = .ok v) : v.KeepsMarks := by
  obtain ⟨f, read⟩ := generateAccess_eq_ok made
  cases read with
  | repeated element made =>
      unfold Access.readRepeated at made
      obtain ⟨boxed, boxes, made⟩ := Fallible.bind_eq_ok.mp made
      refine assemble_calls made ((append (h.box boxes)).bind fun _ => (checkCast _).bind fun _ => ?_)
      exact (pushConst _).bind fun _ => (unmarked rfl).bind fun _ => (unmarked rfl).bind fun _ => checkCast _
  | extension c presence made =>
      refine assemble_calls made ((nativeBase h message).bind fun _ => (ofExcept _).bind fun id => ?_)
      refine ite (dup.bind fun _ => (getStatic id).bind fun _ => ?_) ?_
      · refine (marked .hasExtension).bind fun _ => branch ?_ absent
        exact (getStatic id).bind fun _ => (marked .getExtension).bind fun _ =>
          (interpretExtension c).bind fun _ => boxPrimitiveTop _
      · exact (getStatic id).bind fun _ => (marked .getExtension).bind fun _ => interpretExtension c
  | singular c presence test made =>
      refine assemble_calls made ((nativeBase h message).bind fun _ => ite ?_ ?_)
      · refine dup.bind fun _ => (testPresence f test).bind fun which => branch ?_ absent
        exact (marked (.getter f _)).bind fun _ => (interpret c).bind fun _ => boxPrimitiveTop _
      · exact (marked (.getter f _)).bind fun _ => interpret c

theorem KeepsMarks.construction {s : Schema} {resolver : ListResolver} (immediate : resolver = .immediate)
    {message : String} {arguments : List (String × TypedValue)} {v : TypedValue}
    (h : ∀ argument ∈ arguments, argument.2.KeepsMarks)
    (made : generateConstruction s resolver message arguments = .ok v) : v.KeepsMarks := by
  refine assemble_calls (generateConstruction_eq_ok.mp made).2 (ite (marked (.defaultInstance message)) ?_)
  refine (marked (.newBuilder message)).bind fun _ => (forM fun argument mem => ?_).bind fun _ =>
    marked (.build message)
  exact setArgument s immediate message (h argument mem)

/-- Generated code marks operations by their signatures. -/
theorem Generated.keepsMarks {s : Schema} {v : TypedValue} {declared : List Bool}
    (made : v.Generated s (· = .immediate) declared) : v.KeepsMarks := by
  induction made with
  | ofBool | ofLong | ofDouble | ofText | null => exact .constant _ _
  | ofSanitized made =>
      exact assemble_calls made ((pushConst _).bind fun _ => (pushConst _).bind fun _ => marked .ordain)
  | listOf _ _ made ih =>
      exact assemble_calls made ((marked .newList).bind fun _ =>
        (forM fun item mem => .addItem _ (ih item mem)).bind fun _ => marked (.forValue .list))
  | emptyList made => exact assemble_calls made ((marked .newList).bind fun _ => marked (.forValue .list))
  | input made => exact assemble_calls made (pure ())
  | asNullable _ ih => exact ih
  | box _ made ih => exact ih.box made
  | unboxAs _ made ih => exact ih.extend made (.unboxTop _)
  | cast _ made ih => exact ih.extend made (checkCast _)
  | access _ made ih => exact ih.access made
  | construction _ immediate _ made ih => exact .construction immediate ih made

end TypedValue

/-- Looking up a constant by its number, and getting a message out of its box, may give anything. -/
theorem Signature.Marked.plain_or {m : Method} (h : Signature.Marked m) :
    m.isPlain = true ∨ m = Signature.getProto ∨ ∃ name, m = Signature.enumForNumber name := by
  cases h with
  | getProto => exact .inr (.inl rfl)
  | enumForNumber name => exact .inr (.inr ⟨name, rfl⟩)
  | _ => exact .inl rfl

namespace Native

variable {s : Schema} {c : Call}

theorem invoke_enumForNumber {name : String} (method : c.method = Signature.enumForNumber name) :
    Ensures (Native.invoke s c) fun v => v = .null ↔
      ∃ e n, s.enum? name = some e ∧ c.arg 0 = .ok (.int n) ∧ e.valueByNumber? n = none := by
  have forNumber : c.name = "for_number" := congrArg Method.name method
  unfold Native.invoke Native.dispatch
  rw [method]
  change Ensures (callEnum s name c >>= _) _
  unfold callEnum
  cases found : s.enum? name with
  | none => exact .throw _
  | some e =>
      dsimp only
      rw [if_pos forNumber, bind_assoc]
      refine (ofExcept_ensures _).bind fun n given => ?_
      have number := Call.intArg_eq_ok.mp given
      cases declared : e.valueByNumber? n with
      | none => exact .pure ⟨fun _ => ⟨e, n, rfl, number, declared⟩, fun _ => rfl⟩
      | some value =>
          rintro m _ m' ⟨⟩
          refine ⟨nofun, ?_⟩
          rintro ⟨_, k, ⟨⟩, other, lacking⟩
          cases number.symm.trans other
          cases declared.symm.trans lacking

end Native

/-- Marked operations, told exactly. Whichever operation generated code calls and marks as never giving
null, null comes of it where a number is looked up that its enum does not declare, and nowhere else. -/
theorem TypedValue.Generated.marked_call_null_iff {s : Schema} {v : TypedValue} {declared : List Bool}
    (made : v.Generated s (· = .immediate) declared) {c : Call}
    (called : v.code.any (Op.calls c.method) = true) (marked : c.method.nonNull = true)
    (receiver : ∀ w, c.receiver = some w → w.Present) {m m' : Machine} {result : Value}
    (run : (Native.invoke s c).run m = (.ok result, m')) :
    result = .null ↔ ∃ name e n, c.method = Signature.enumForNumber name ∧ s.enum? name = some e ∧
      c.arg 0 = .ok (.int n) ∧ e.valueByNumber? n = none := by
  have there : result.Present → ¬(∃ name, c.method = Signature.enumForNumber name) → (result = .null ↔
      ∃ name e n, c.method = Signature.enumForNumber name ∧ s.enum? name = some e ∧
        c.arg 0 = .ok (.int n) ∧ e.valueByNumber? n = none) := by
    intro present other
    refine ⟨fun null => absurd null present.ne_null, ?_⟩
    rintro ⟨name, e, n, method, -⟩
    exact absurd ⟨name, method⟩ other
  rcases (made.keepsMarks c.method called marked).plain_or with plain | proto | ⟨name, lookup⟩
  · refine there (Native.invoke_plain s plain m result m' run) ?_
    rintro ⟨name, method⟩
    rw [method] at plain
    cases plain
  · refine there (Native.invoke_getProto s proto receiver m result m' run) ?_
    rintro ⟨name, method⟩
    cases proto.symm.trans method
  · have exactly : result = .null ↔ _ := Native.invoke_enumForNumber lookup m result m' run
    rw [exactly]
    constructor
    · rintro ⟨e, n, found⟩
      exact ⟨name, e, n, lookup, found⟩
    · rintro ⟨other, e, n, method, found⟩
      cases lookup.symm.trans method
      exact ⟨e, n, found⟩

/-- The constructed letter looks up the constant of its tone. There is one for the number `2`, and null
comes of the number `5`. -/
theorem letterTone_lookup :
    ∃ v, generateConstruction letterSchema .immediate "demo.Letter" [("tone", .ofLong 2)] = .ok v ∧
      v.code.any (Op.calls (Signature.enumForNumber "demo.Tone")) = true ∧
      (∃ result m', (Native.invoke letterSchema
          ⟨Signature.enumForNumber "demo.Tone", none, [.int 2]⟩).run .start = (.ok result, m') ∧
        result ≠ .null) ∧
      ∃ result m', (Native.invoke letterSchema
          ⟨Signature.enumForNumber "demo.Tone", none, [.int 5]⟩).run .start = (.ok result, m') ∧
        result = .null := by
  let v := (generateConstruction letterSchema .immediate "demo.Letter"
    [("tone", .ofLong 2)]).toOption.getD .null
  have generated : generateConstruction letterSchema .immediate "demo.Letter" [("tone", .ofLong 2)] = .ok v :=
    rfl
  have made : v.Generated letterSchema (· = .immediate) [] :=
    .construction (fun _ => []) rfl (fun argument mem => List.mem_singleton.mp mem ▸ .ofLong 2) generated
  have called : v.code.any (Op.calls (Signature.enumForNumber "demo.Tone")) = true := rfl
  have exactly (n : Int32) {result : Value} {m' : Machine}
      (run : (Native.invoke letterSchema ⟨Signature.enumForNumber "demo.Tone", none, [.int n]⟩).run .start =
        (.ok result, m')) :=
    made.marked_call_null_iff (c := ⟨Signature.enumForNumber "demo.Tone", none, [.int n]⟩) called rfl nofun
      run
  refine ⟨v, generated, called, ⟨.ref 0 (.enumConst "demo.Tone" 2), _, rfl, ?_⟩, .null, _, rfl, ?_⟩
  · intro null
    obtain ⟨name, e, n, method, found, given, lacking⟩ := (exactly 2 rfl).mp null
    cases method
    cases found
    cases given
    cases lacking
  · exact (exactly 5 rfl).mpr ⟨"demo.Tone", _, 5, rfl, rfl, rfl, rfl⟩

/-- The lookup of a constant is marked as never giving null, and its call with the number `5` is of its
types, but gives null. -/
theorem letterTone_undeclared :
    ∃ v, generateConstruction letterSchema .immediate "demo.Letter" [("tone", .ofLong 5)] = .ok v ∧
      v.code.any (Op.calls (Signature.enumForNumber "demo.Tone")) = true ∧
      (Signature.enumForNumber "demo.Tone").nonNull = true ∧
      Call.Conforms ⟨Signature.enumForNumber "demo.Tone", none, [.int 5]⟩ ∧
      (Native.invoke letterSchema ⟨Signature.enumForNumber "demo.Tone", none, [.int 5]⟩).run .start =
        (.ok .null, .start) :=
  ⟨_, rfl, rfl, rfl, ⟨.cons rfl .nil, rfl⟩, rfl⟩

end MessageCode
