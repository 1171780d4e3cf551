import MessageCode.Machine.Native
import MessageCode.Proofs.Machine.Operands
import MessageCode.Proofs.Stateful

/-!
Results that are there. An operation that returns gives something, with a message in it where it gives a
boxed message. The few that may give null, or whatever they were given, are told with what they give.
-/

namespace MessageCode

open Stateful

/-- The value is not null and, if it is a boxed message, there is a message in the box. -/
structure Value.Present (v : Value) : Prop where
  ne_null : v ≠ .null
  message : ∀ id content, v = .ref id (.boxed (.proto content)) →
    ∃ messageId data, content = .ref messageId (.message data)

def Object.isBoxedMessage : Object → Bool
  | .boxed (.proto _) => true
  | _ => false

namespace Value.Present

theorem of_primitive {v : Value} {t : NativeType} (h : v.primitiveType? = some t) : v.Present := by
  cases v with
  | null | ref => cases h
  | _ => exact ⟨nofun, nofun⟩

theorem object {o : Object} (h : o.isBoxedMessage = false) (id : ObjectId) : (Value.ref id o).Present := by
  refine ⟨nofun, ?_⟩
  rintro _ content ⟨⟩
  cases h

theorem proto (id messageId : ObjectId) (data : MessageData) :
    (Value.ref id (.boxed (.proto (.ref messageId (.message data))))).Present := by
  refine ⟨nofun, ?_⟩
  rintro _ _ ⟨⟩
  exact ⟨messageId, data, rfl⟩

theorem stored (a : Stored) : a.toValue.Present := by
  cases a with
  | text id _ | bytes id _ | message id _ => exact object rfl id
  | _ => exact of_primitive rfl

end Value.Present

/-- What an operation may give beside values that are there. Items of lists and what providers hold are
given as they are, as is what is in a boxed message; an unset field of a boxed message gives null, and so
does a number that the enum does not declare. -/
inductive Call.Exempts (s : Schema) (c : Call) : Value → Prop
  | item {v} : c.method.owner = .list → c.name = "get" → Exempts s c v
  | resolved {v} : c.method.owner = .provider → c.name = "resolve" → Exempts s c v
  | content {kind id v} : c.method.owner = .boxed kind → c.name = "get_proto" →
      c.receiver = some (.ref id (.boxed (.proto v))) → Exempts s c v
  | unset {kind} : c.method.owner = .boxed kind → c.name = "get_field" → Exempts s c .null
  | undeclared {name e n} : c.method.owner = .enum name → c.name = "for_number" →
      s.enum? name = some e → c.arg 0 = .ok (.int n) → e.valueByNumber? n = none → Exempts s c .null

namespace Native

theorem ofExcept_ensures {α : Type} (e : Except Fault α) : Ensures (ofExcept e) fun a => e = .ok a := by
  cases e with
  | ok a => exact .pure rfl
  | error fault => exact .throw fault

theorem alloc_present {o : Object} (h : o.isBoxedMessage = false) :
    Ensures (alloc o) Value.Present := by
  rintro m _ m' ⟨⟩
  exact .object h _

theorem allocList_present (items : List Value) : Ensures (allocList items) Value.Present := by
  rintro m _ m' ⟨⟩
  exact .object rfl _

theorem defaultInstance_present (s : Schema) (typeName : String) :
    Ensures (defaultInstance s typeName) Value.Present :=
  .after fun id => .pure (.object rfl id)

abbrev Shows (x : Native (Option Value)) (P : Value → Prop) : Prop :=
  Ensures x fun result => ∀ v, result = some v → P v

namespace Shows

variable {P : Value → Prop} {x : Native Value}

theorem unknown : Shows (pure none) P := .pure nofun

theorem known {v : Value} (h : P v) : Shows (pure (some v)) P := by
  refine .pure ?_
  rintro _ ⟨⟩
  exact h

theorem of_value (h : Ensures x P) : Shows (x >>= fun v => pure (some v)) P :=
  h.bind fun _ holds => known holds

end Shows

end Native

namespace Storage

open Native

theorem enumView_present (f : Field) (a : Stored) : Ensures (enumView f a) Value.Present := by
  unfold enumView
  split
  · exact alloc_present rfl
  · exact .pure (.stored _)

theorem getterView_present (f : Field) (a : Stored) : Ensures (getterView f a) Value.Present := by
  unfold getterView
  split
  · exact .pure (.stored _)
  · exact enumView_present f _

theorem extensionView_present (f : Field) (a : Stored) : Ensures (extensionView f a) Value.Present := by
  unfold extensionView
  split
  · split
    · exact alloc_present rfl
    · exact enumView_present f _
  · exact .pure (.stored _)
  · exact .pure (.stored _)
  · exact .pure (.stored _)
  · exact alloc_present rfl

theorem readThrough_present {view : Field → Stored → Native Value}
    (h : ∀ f a, Ensures (view f a) Value.Present) (s : Schema) (data : MessageData) (f : Field) :
    Ensures (readThrough view s data f) Value.Present := by
  unfold readThrough
  split
  · exact h f _
  · exact .after fun _ => allocList_present _
  · split
    · exact allocList_present []
    · exact .after fun a => h f a

theorem boxedView_present (f : Field) (a : Stored) : Ensures (allocBoxed (boxedView f a)) Value.Present := by
  rintro m _ m' ⟨⟩
  cases a with
  | message id data =>
      unfold boxedView
      dsimp only
      split
      · exact .object rfl _
      · exact .proto _ id data
  | long n =>
      unfold boxedView
      dsimp only
      split
      · exact .object rfl _
      · exact .object rfl _
  | _ => exact .object rfl _

/-- A field of a boxed message is boxed; null stands for one that is unset. -/
theorem boxedField_ensures (s : Schema) (data : MessageData) (name : String) :
    Ensures (boxedField s data name) fun v =>
      v = .null ∨ v.Present ∧ ∃ id b, v = .ref id (.boxed b) := by
  have boxed : ∀ b, Ensures (allocBoxed b) Value.Present →
      Ensures (allocBoxed b) fun v => v = .null ∨ v.Present ∧ ∃ id b, v = .ref id (.boxed b) := by
    intro b present m v m' run
    refine .inr ⟨present m v m' run, ?_⟩
    cases run
    exact ⟨_, b, rfl⟩
  unfold boxedField
  split
  · exact .throw _
  · split
    · exact .after fun _ => boxed _ (alloc_present rfl)
    · exact boxed _ (boxedView_present _ _)
    · split
      · exact boxed _ (alloc_present rfl)
      · split
        · exact .pure (.inl rfl)
        · exact .after fun a => boxed _ (boxedView_present _ a)

end Storage

namespace Native

open Storage

variable (s : Schema) (c : Call)

theorem callMessage_present (typeName : String) : Shows (callMessage s typeName c) Value.Present := by
  unfold callMessage
  split
  · exact Shows.unknown
  · split
    · split
      · exact Shows.of_value (defaultInstance_present s typeName)
      · split
        · refine Shows.of_value ?_
          rintro m _ m' ⟨⟩
          exact .object rfl _
        · exact Shows.unknown
    · refine .after fun data => ?_
      split
      · exact Shows.unknown
      · exact Shows.of_value (readThrough_present getterView_present s data _)
      · exact Shows.known (.of_primitive rfl)
      · exact Shows.of_value (alloc_present rfl)

theorem changeBuilder_present {id : ObjectId} {typeName : String}
    (receiver : builderReceiver c = .ok (id, typeName)) (change : MessageData → MessageData) :
    Shows (changeBuilder c id typeName change) Value.Present := by
  have value := Call.receiverValue_eq_ok.mpr (builderReceiver_eq_ok.mp receiver)
  unfold changeBuilder
  rw [value]
  exact .after fun _ => .after fun _ => Shows.known (.object rfl id)

theorem callBuilder_present (typeName : String) : Shows (callBuilder s typeName c) Value.Present := by
  unfold callBuilder
  split
  · exact Shows.unknown
  · refine (ofExcept_ensures _).bind fun ⟨id, builderType⟩ receiver => ?_
    dsimp only
    split
    · exact .throw _
    · split
      · exact Shows.unknown
      · exact .after fun data => Shows.of_value (alloc_present rfl)
      · exact .after fun a => changeBuilder_present c receiver _
      · exact .after fun a => changeBuilder_present c receiver _

theorem callExtendableMessage_present : Shows (callExtendableMessage s c) Value.Present := by
  unfold callExtendableMessage
  refine .after fun object => ?_
  split
  · refine .after fun f => ?_
    split
    · exact Shows.known (.of_primitive rfl)
    · split
      · exact Shows.of_value (readThrough_present extensionView_present s _ f)
      · exact Shows.unknown
  · exact .throw _

theorem callExtendableBuilder_present : Shows (callExtendableBuilder s c) Value.Present := by
  unfold callExtendableBuilder
  refine (ofExcept_ensures _).bind fun ⟨id, typeName⟩ receiver => ?_
  refine .after fun f => .after fun a => ?_
  split
  · exact changeBuilder_present c receiver _
  · split
    · exact changeBuilder_present c receiver _
    · exact Shows.unknown

theorem callEnum_present {name : String} (owner : c.method.owner = .enum name) :
    Shows (callEnum s name c) fun v => v.Present ∨ c.Exempts s v := by
  unfold callEnum
  split
  · exact Shows.unknown
  · rename_i e known
    split
    · rename_i forNumber
      refine (ofExcept_ensures _).bind fun n given => ?_
      split
      · exact Shows.of_value ((alloc_present rfl).imp fun _ => .inl)
      · rename_i undeclared
        exact Shows.known (.inr (.undeclared owner forNumber known (Call.intArg_eq_ok.mp given) undeclared))
    · split
      · refine .after fun object => ?_
        split
        · exact Shows.known (.inl (.of_primitive rfl))
        · exact .throw _
      · exact Shows.unknown

theorem callOneofCase_present : Shows (callOneofCase c) Value.Present := by
  unfold callOneofCase
  refine .after fun ⟨_, object⟩ => ?_
  dsimp only
  split
  · split
    · exact Shows.known (.of_primitive rfl)
    · exact .throw _
  · exact Shows.unknown

theorem forValue_present (kind : BoxedKind) : Ensures (forValue kind c) Value.Present := by
  unfold forValue
  refine (ofExcept_ensures _).bind fun v given => ?_
  split
  · exact alloc_present rfl
  · exact alloc_present rfl
  · exact alloc_present rfl
  · exact .throw _
  · exact .after fun text => alloc_present rfl
  · refine (ofExcept_ensures _).bind fun ⟨id, o⟩ object => ?_
    split
    · rename_i same
      cases same
      cases given.symm.trans (Call.objectArg_eq_ok.mp object)
      rintro m _ m' ⟨⟩
      exact .proto _ _ _
    · exact .throw _
  · exact .after fun id => .after fun items => alloc_present rfl
  · exact .throw _

theorem ordain_present : Ensures (ordain c) Value.Present := by
  unfold ordain
  refine .after fun text => .after fun ordinal => ?_
  split
  · exact alloc_present rfl
  · exact .throw _

theorem toSafeProto_present (receiver : Object) (b : Boxed) :
    Shows (toSafeProto s c receiver b) Value.Present := by
  unfold toSafeProto
  split
  · split
    · exact Shows.unknown
    · exact .refuse (.refuse (.after fun id => Shows.of_value (alloc_present rfl)))
  · exact .throw _

theorem unboxed_present {kind : BoxedKind} (owner : c.method.owner = .boxed kind) {id : ObjectId} {b : Boxed}
    (receiver : c.receiver = some (.ref id (.boxed b))) (o : Object) :
    Shows (unboxed c o b s) fun v => v.Present ∨ c.Exempts s v := by
  have text : ∀ t, Shows (allocText t >>= fun v => pure (some v)) fun v => v.Present ∨ c.Exempts s v :=
    fun t => Shows.of_value ((alloc_present rfl).imp fun _ => .inl)
  unfold unboxed
  dsimp only
  split
  · split
    · exact Shows.known (.inl (.of_primitive rfl))
    · exact .throw _
  · split
    · exact Shows.known (.inl (.of_primitive rfl))
    · exact .throw _
  · split
    · exact Shows.known (.inl (.of_primitive rfl))
    · exact Shows.known (.inl (.of_primitive rfl))
    · exact .throw _
  · split
    · exact text _
    · exact text _
    · exact .throw _
  · rename_i name
    split
    · exact Shows.known (.inr (.content owner name receiver))
    · exact .throw _
  · rename_i name
    refine .after fun field => ?_
    split
    · split
      · refine Shows.of_value ((boxedField_ensures s _ field).imp ?_)
        rintro v (rfl | ⟨present, -⟩)
        · exact .inr (.unset owner name)
        · exact .inl present
      · exact .throw _
    · exact .throw _
  · split
    · exact Shows.of_value ((allocList_present _).imp fun _ => .inl)
    · exact .throw _
  · exact (toSafeProto_present s c o b).imp fun _ present v same => .inl (present v same)

theorem callBoxed_present {kind : BoxedKind} (owner : c.method.owner = .boxed kind) :
    Shows (callBoxed s kind c) fun v => v.Present ∨ c.Exempts s v := by
  unfold callBoxed
  split
  · split
    · exact Shows.of_value ((forValue_present c kind).imp fun _ => .inl)
    · split
      · exact Shows.of_value ((ordain_present c).imp fun _ => .inl)
      · exact Shows.unknown
  · refine (ofExcept_ensures _).bind fun ⟨id, o⟩ object => ?_
    split
    · rename_i b same
      cases same
      exact unboxed_present s c owner (Call.receiverObject_eq_ok.mp object) _
    · exact .throw _

theorem callWrapper_present (content : NativeType) : Shows (callWrapper content c) Value.Present := by
  unfold callWrapper
  split
  · refine .after fun v => ?_
    split
    · exact Shows.of_value (alloc_present rfl)
    · exact .throw _
  · refine .after fun text => ?_
    split
    · exact Shows.known (.of_primitive rfl)
    · exact .throw _
  · refine .after fun v => ?_
    split
    · exact Shows.known (.of_primitive rfl)
    · exact .throw _
  · exact Shows.unknown

theorem callNumber_present : Shows (callNumber c) Value.Present := by
  unfold callNumber
  refine .after fun v => ?_
  split
  · split
    · exact Shows.known (.of_primitive rfl)
    · exact .throw _
  · split
    · exact Shows.known (.of_primitive rfl)
    · exact Shows.known (.of_primitive rfl)
    · exact .throw _
  · exact Shows.unknown

theorem callObject_present : Shows (callObject c) Value.Present := by
  unfold callObject
  split
  · exact Shows.unknown
  · refine .after fun ⟨id, o⟩ => ?_
    split
    · exact Shows.of_value (alloc_present rfl)
    · exact Shows.of_value (alloc_present rfl)
    · exact .after fun m => Shows.of_value (alloc_present rfl)

theorem callByteString_present : Shows (callByteString c) Value.Present := by
  unfold callByteString
  split
  · exact .after fun b => Shows.of_value (alloc_present rfl)
  · refine .after fun object => ?_
    split
    · exact Shows.of_value (alloc_present rfl)
    · exact .throw _
  · exact Shows.unknown

theorem callCodec_present : Shows (callCodec c) Value.Present := by
  unfold callCodec
  split
  · exact Shows.of_value (alloc_present rfl)
  · exact .after fun b => Shows.of_value (alloc_present rfl)
  · refine .after fun text => ?_
    split
    · exact Shows.of_value (alloc_present rfl)
    · exact .throw _
  · exact Shows.unknown

theorem callRuntime_present : Shows (callRuntime c) Value.Present := by
  unfold callRuntime
  split
  · exact Shows.of_value (allocList_present [])
  · exact .after fun v => Shows.of_value (alloc_present rfl)
  · exact .after fun id => .after fun items => Shows.of_value (allocList_present _)
  · exact Shows.unknown

theorem callList_present (owner : c.method.owner = .list) :
    Shows (callList c) fun v => v.Present ∨ c.Exempts s v := by
  unfold callList
  refine .after fun ⟨id, o⟩ => ?_
  split
  · refine .after fun items => ?_
    split
    · exact Shows.known (.inl (.of_primitive rfl))
    · rename_i name
      exact .after fun index => .after fun v => Shows.known (.inr (.item owner name))
    · exact .after fun v => .after fun _ => Shows.known (.inl (.of_primitive rfl))
    · exact Shows.unknown
  · exact .throw _

theorem callProvider_present (owner : c.method.owner = .provider) :
    Shows (callProvider c) fun v => v.Present ∨ c.Exempts s v := by
  unfold callProvider
  split
  · exact Shows.unknown
  · rename_i other
    have name : c.name = "resolve" := not_not.mp other
    refine .after fun ⟨id, o⟩ => ?_
    split
    · exact Shows.known (.inr (.resolved owner name))
    · exact Shows.known (.inr (.resolved owner name))
    · exact .throw _

/-- What an operation of the machine gives is there, or it is one of those that may give something else. -/
theorem invoke_present : Ensures (invoke s c) fun v => v.Present ∨ c.Exempts s v := by
  have plain : ∀ {x : Native (Option Value)}, Shows x Value.Present →
      Shows x fun v => v.Present ∨ c.Exempts s v :=
    fun h => h.imp fun _ present v same => .inl (present v same)
  have known : Shows (dispatch s c) fun v => v.Present ∨ c.Exempts s v := by
    unfold dispatch
    cases owner : c.method.owner with
    | message name => exact plain (callMessage_present s c name)
    | builder name => exact plain (callBuilder_present s c name)
    | extendableMessage => exact plain (callExtendableMessage_present s c)
    | extendableBuilder => exact plain (callExtendableBuilder_present s c)
    | enum name => exact callEnum_present s c owner
    | oneofCase key => exact plain (callOneofCase_present c)
    | boxed kind => exact callBoxed_present s c owner
    | provider => exact callProvider_present s c owner
    | wrapper content => exact plain (callWrapper_present c content)
    | number => exact plain (callNumber_present c)
    | object => exact plain (callObject_present c)
    | byteString => exact plain (callByteString_present c)
    | codec => exact plain (callCodec_present c)
    | list => exact callList_present s c owner
    | runtime => exact plain (callRuntime_present c)
    | _ => exact Shows.unknown
  unfold invoke
  refine known.bind fun result shown => ?_
  split
  · exact .pure (shown _ rfl)
  · exact .throw _

end Native

end MessageCode
