import MessageCode.Proofs.Machine.Operands
import MessageCode.Proofs.Machine.Policy
import MessageCode.Proofs.Schema.Names

/-!
Native operations under a policy. What they need of the policy is what it says of the changes that
operations of messages and builders make; with that, every operation keeps to it.
-/

namespace MessageCode

open Stateful

namespace Policy

structure Stores (P : Policy) (f : Field) (a : Stored) : Prop where
  operand : ∃ v, Storage.ofValue? f v = some a
  message : ∀ id inside, a = .message id inside → P.message inside

/-- The policy allows what the operations of the schema do to the contents of builders and messages, and
of the operations that store in an extension what the call does. -/
structure UpholdsAt (P : Policy) (s : Schema) (c : Call) : Prop where
  wrapper (kind : SanitizedKind) (id : ObjectId) (content : String) :
    P.message ((Record.empty kind.messageName).set 1 kind.wrappedField (.single (.text id content)))
  set {m : Message} {f : Field} {a : Stored} {data : MessageData} : s.message? m.fullName = some m →
    f ∈ m.fields → f.isRepeated = false → P.Stores f a → P.contents m.fullName data →
      P.contents m.fullName (Native.setField m f a data) ∧ P.grows data (Native.setField m f a data)
  add {m : Message} {f : Field} {a : Stored} {data : MessageData} : s.message? m.fullName = some m →
    f ∈ m.fields → f.isRepeated = true → P.Stores f a → P.contents m.fullName data →
      P.contents m.fullName (data.push f.number f.name a) ∧ P.grows data (data.push f.number f.name a)
  setExtension {f : Field} {a : Stored} {data : MessageData} {receiver : String} :
    c.method.owner = .extendableBuilder → c.name = "set_extension" →
      Native.extensionArg s c receiver = .ok f → P.Stores f a → P.contents f.container data →
        P.contents f.container (data.set f.number f.name (.single a)) ∧
          P.grows data (data.set f.number f.name (.single a))
  addExtension {f : Field} {a : Stored} {data : MessageData} {receiver : String} :
    c.method.owner = .extendableBuilder → c.name = "add_extension" →
      Native.extensionArg s c receiver = .ok f → P.Stores f a → P.contents f.container data →
        P.contents f.container (data.push f.number f.name a) ∧ P.grows data (data.push f.number f.name a)

/-- The policy allows what the operations of the schema do, whatever the call. -/
def Upholds (P : Policy) (s : Schema) : Prop := ∀ c, P.UpholdsAt s c

structure Operands (P : Policy) (st : Store) (c : Call) : Prop where
  args : ∀ v ∈ c.args, P.value st v
  receiver : ∀ v, c.receiver = some v → P.value st v

def value? (P : Policy) (st : Store) (result : Option Value) : Prop :=
  ∀ v, result = some v → P.value st v

variable {P : Policy} {st st' : Store} {c : Call}

theorem message_of_ofValue? {f : Field} {v : Value} {id : ObjectId} {inside : MessageData}
    (found : Storage.ofValue? f v = some (.message id inside)) : v = .ref id (.message inside) := by
  cases Storage.ofValue?_eq_some.mp found
  rfl

theorem Stores.of_ofValue {f : Field} {v : Value} {a : Stored} (h : P.value st v)
    (stored : Storage.ofValue c f v = .ok a) : P.Stores f a := by
  have found := Storage.ofValue_eq_ok.mp stored
  refine ⟨⟨v, found⟩, ?_⟩
  rintro id inside rfl
  cases message_of_ofValue? found
  exact message_iff.mp h

theorem Stores.of_ofExtensionValue {f : Field} {v : Value} {a : Stored} (h : P.value st v)
    (stored : Storage.ofExtensionValue c f v = .ok a) : P.Stores f a := by
  unfold Storage.ofExtensionValue at stored
  split at stored
  · exact .of_ofValue (wrapper_iff.mp h) stored
  · exact .of_ofValue h stored

namespace Operands

theorem mono (h : P.Operands st c) (le : P.later st st') : P.Operands st' c :=
  ⟨fun v mem => P.mono le (h.args v mem), fun v same => P.mono le (h.receiver v same)⟩

theorem arg (h : P.Operands st c) {index : Nat} {v : Value} (found : c.arg index = .ok v) :
    P.value st v :=
  h.args v (List.mem_of_getElem? (Call.arg_eq_ok.mp found))

theorem receiverValue (h : P.Operands st c) {v : Value} (found : c.receiverValue = .ok v) :
    P.value st v :=
  h.receiver v (Call.receiverValue_eq_ok.mp found)

theorem receiverObject (h : P.Operands st c) {id : ObjectId} {o : Object}
    (found : c.receiverObject = .ok (id, o)) : P.value st (.ref id o) :=
  h.receiver _ (Call.receiverObject_eq_ok.mp found)

end Operands

namespace Kept

variable {ε : Type} {x : Stateful ε Machine Value}

theorem bind_some (h : P.Kept st x P.value) :
    P.Kept st (x >>= fun v => Pure.pure (some v)) P.value? :=
  h.bind fun v _ _ fine => .pure fun _ le => by
    rintro _ ⟨⟩
    exact P.mono le fine

theorem pure_none : P.Kept st (Pure.pure none : Stateful ε Machine (Option Value)) P.value? :=
  .pure fun _ _ _ absurd => by cases absurd

theorem pure_some {v : Value} (h : P.value st v) :
    P.Kept st (Pure.pure (some v) : Stateful ε Machine (Option Value)) P.value? := .pure fun _ le => by
  rintro _ ⟨⟩
  exact P.mono le h

end Kept

end Policy

namespace Native

open Policy

variable {P : Policy} {st : Store} {c : Call} {s : Schema}

theorem allocPlain_kept {o : Object} (h : o.isPlain = true) : P.Kept st (alloc o) P.value :=
  Policy.alloc_kept fun _ _ _ => P.plain h

theorem allocText_kept (text : String) : P.Kept st (allocText text) P.value := allocPlain_kept rfl

theorem allocMessage_kept {data : MessageData} (h : P.message data) :
    P.Kept st (alloc (.message data)) P.value := Policy.alloc_kept fun _ _ _ => message_iff.mpr h

theorem ofExcept_kept {α : Type} (e : Except Fault α) : P.Kept st (ofExcept e) fun _ a => e = .ok a :=
  .ofExcept fun _ same _ _ => same

theorem forValue_kept (h : P.Operands st c) (kind : BoxedKind) : P.Kept st (forValue kind c) P.value := by
  unfold forValue
  refine (ofExcept_kept _).bind fun v st' le found => ?_
  have fine := (h.mono le).arg found
  split
  · exact allocPlain_kept rfl
  · exact allocPlain_kept rfl
  · exact allocPlain_kept rfl
  · exact .throw _
  · exact (ofExcept_kept _).bind fun _ _ _ _ => allocPlain_kept rfl
  · refine (ofExcept_kept _).bind fun object _ le' _ => ?_
    split
    · exact Policy.alloc_kept fun _ _ le'' => proto_iff.mpr (P.mono (P.trans le' le'') fine)
    · exact .throw _
  · refine (ofExcept_kept _).bind fun id _ _ _ => ?_
    refine (Policy.listItems_kept id).bind fun items _ _ within => ?_
    exact Policy.alloc_kept fun _ _ le' => boxedList_iff.mpr fun v mem => P.mono le' (within v mem)
  · exact .throw _

theorem ordain_kept : P.Kept st (ordain c) P.value := by
  unfold ordain
  refine (ofExcept_kept _).bind fun _ _ _ _ => (ofExcept_kept _).bind fun _ _ _ _ => ?_
  split
  · exact allocPlain_kept rfl
  · exact .throw _

theorem toSafeProto_kept (upholds : P.UpholdsAt s c) (receiver : Object) (b : Boxed) :
    P.Kept st (toSafeProto s c receiver b) P.value? := by
  unfold toSafeProto
  split
  · split
    · exact .pure_none
    · refine .refuse fun _ => .refuse fun _ => Policy.freshId_kept.bind fun id _ _ _ => ?_
      exact .bind_some (allocMessage_kept (upholds.wrapper ..))
  · exact .throw _

theorem defaultId_kept (name : String) : P.Kept st (defaultId s name) fun _ _ => True := by
  unfold defaultId
  refine Kept.bind (Q := fun _ _ => True) (.of_store (fun m r m' run => by cases run; rfl)
    fun _ _ _ _ _ _ => trivial) fun m _ _ _ => ?_
  split
  · exact .pure fun _ _ => trivial
  · split
    · exact .throw _
    · refine Policy.freshId_kept.bind fun id _ _ _ => ?_
      refine Kept.bind (Q := fun _ _ => True) (.of_store (fun m r m' run => by cases run; rfl)
        fun _ _ _ _ _ _ => trivial) fun _ _ _ _ => .pure fun _ _ => trivial

theorem defaultInstance_kept (name : String) : P.Kept st (defaultInstance s name) P.value :=
  (defaultId_kept name).bind fun _ _ _ _ => .pure fun _ _ => message_iff.mpr (P.empty name)

end Native

namespace Storage

open Policy

variable {P : Policy} {st : Store} {s : Schema} {f : Field}

/-- What an unset field reads as holds an empty message at most. -/
theorem default_kept : P.Kept st (Storage.default s f) fun st' a => P.value st' a.toValue := by
  have text : ∀ st', P.Kept st' (monadLift Machine.freshId : Native ObjectId) fun _ _ => True :=
    fun _ => Policy.freshId_kept
  unfold Storage.default
  split
  · exact .pure fun _ _ => P.primitive rfl
  · exact .pure fun _ _ => P.primitive rfl
  · exact .pure fun _ _ => P.primitive rfl
  · exact .pure fun _ _ => P.primitive rfl
  · exact .pure fun _ _ => P.primitive rfl
  · exact (text _).bind fun _ _ _ _ => .pure fun _ _ => P.plain rfl
  · exact (text _).bind fun _ _ _ _ => .pure fun _ _ => P.plain rfl
  · exact .pure fun _ _ => P.primitive rfl
  · exact (Native.defaultId_kept _).bind fun _ _ _ _ => .pure fun _ _ => message_iff.mpr (P.empty _)

variable {a : Stored}

theorem enumView_kept (h : P.value st a.toValue) : P.Kept st (enumView f a) P.value := by
  unfold enumView
  split
  · exact Native.allocPlain_kept rfl
  · exact .pure fun _ le => P.mono le h

theorem getterView_kept (h : P.value st a.toValue) : P.Kept st (getterView f a) P.value := by
  unfold getterView
  split
  · exact .pure fun _ le => P.mono le h
  · exact enumView_kept h

theorem extensionView_kept (h : P.value st a.toValue) : P.Kept st (extensionView f a) P.value := by
  have wrapped : P.Kept st (Native.alloc (.wrapper a.toValue)) P.value :=
    Policy.alloc_kept fun _ _ le => wrapper_iff.mpr (P.mono le h)
  unfold extensionView
  split
  · split
    · exact wrapped
    · exact enumView_kept h
  · exact .pure fun _ le => P.mono le h
  · exact .pure fun _ le => P.mono le h
  · exact .pure fun _ le => P.mono le h
  · exact wrapped

/-- What a message holds under a number is fine where the message is. -/
theorem content_fine {data : MessageData} (h : P.message data) {number : Int32} {content : Content Stored}
    (set : data.content? number = some content) (st : Store) :
    ∀ a ∈ content.items, P.value st a.toValue := by
  obtain ⟨slot, found, rfl⟩ := Option.map_eq_some_iff.mp set
  exact fun a mem => P.stored h ⟨slot, List.mem_of_find?_eq_some found, mem⟩

theorem readThrough_kept {view : Field → Stored → Native Value} {data : MessageData} (fine : P.message data)
    (h : ∀ a st', P.value st' a.toValue → P.Kept st' (view f a) P.value) :
    P.Kept st (readThrough view s data f) P.value := by
  unfold readThrough
  split
  · rename_i a set
    exact h _ _ (content_fine fine set st a (List.mem_singleton_self a))
  · rename_i items set
    refine (Kept.mapM (R := P.value) (fun _ _ _ le => P.mono le) fun a mem st' _ => h a st' ?_).bind
      fun values _ _ within => Policy.allocList_kept within
    exact content_fine fine set st' a mem
  · split
    · exact Policy.allocList_kept nofun
    · exact default_kept.bind fun a _ _ given => h a _ given

theorem allocBoxed_kept (h : P.value st a.toValue) : P.Kept st (allocBoxed (boxedView f a)) P.value := by
  refine Policy.alloc_kept fun st' id le => ?_
  cases a with
  | long n =>
      rw [boxedView]
      split <;> exact P.plain rfl
  | message inside data =>
      rw [boxedView]
      split
      · exact P.plain rfl
      · exact proto_iff.mpr (P.mono le h)
  | _ => exact P.plain rfl

theorem boxedField_kept {data : MessageData} (fine : P.message data) (name : String) :
    P.Kept st (boxedField s data name) P.value := by
  unfold boxedField
  split
  · exact .throw _
  · split
    · rename_i items set
      refine (Kept.mapM (R := P.value) (fun _ _ _ le => P.mono le) fun a mem st' _ =>
        allocBoxed_kept (content_fine fine set st' a mem)).bind fun values _ _ within => ?_
      exact Policy.alloc_kept fun _ _ le => boxedList_iff.mpr fun v mem => P.mono le (within v mem)
    · rename_i a set
      exact allocBoxed_kept (content_fine fine set st a (List.mem_singleton_self a))
    · split
      · exact Native.allocPlain_kept rfl
      · split
        · exact .pure fun _ _ => P.primitive rfl
        · exact default_kept.bind fun a _ _ given => allocBoxed_kept given

end Storage

namespace Native

open Policy

variable {P : Policy} {st : Store} {c : Call} {s : Schema}

/-- The message in a value is fine where the value is. -/
theorem message_of_asMessage? {v : Value} {data : MessageData} (h : P.value st v)
    (found : v.asMessage? = some data) : P.message data := by
  fun_induction Value.asMessage? v with
  | case1 id inside =>
      cases found
      exact message_iff.mp h
  | case2 id inside ih => exact ih (proto_iff.mp h) found
  | case3 => cases found

theorem unboxed_kept (upholds : P.UpholdsAt s c) {id : ObjectId} {b : Boxed}
    (h : P.value st (.ref id (.boxed b))) (receiver : Object) :
    P.Kept st (unboxed c receiver b s) P.value? := by
  unfold unboxed
  dsimp only
  split
  · split
    · exact .pure_some (P.primitive rfl)
    · exact .throw _
  · split
    · exact .pure_some (P.primitive rfl)
    · exact .throw _
  · split
    · exact .pure_some (P.primitive rfl)
    · exact .pure_some (P.primitive rfl)
    · exact .throw _
  · split
    · exact .bind_some (allocText_kept _)
    · exact .bind_some (allocText_kept _)
    · exact .throw _
  · split
    · exact .pure_some (proto_iff.mp h)
    · exact .throw _
  · refine (ofExcept_kept _).bind fun _ _ _ _ => ?_
    split
    · split
      · rename_i found
        exact .bind_some (Storage.boxedField_kept (message_of_asMessage? (proto_iff.mp h) found) _)
      · exact .throw _
    · exact .throw _
  · split
    · exact .bind_some (Policy.allocList_kept (boxedList_iff.mp h))
    · exact .throw _
  · exact toSafeProto_kept upholds _ _

theorem callBoxed_kept (upholds : P.UpholdsAt s c) (h : P.Operands st c) (kind : BoxedKind) :
    P.Kept st (callBoxed s kind c) P.value? := by
  unfold callBoxed
  split
  · split
    · exact .bind_some (forValue_kept h kind)
    · split
      · exact .bind_some ordain_kept
      · exact .pure_none
  · refine (ofExcept_kept _).bind fun receiver _ le found => ?_
    split
    · exact unboxed_kept upholds ((h.mono le).receiverObject found) _
    · exact .throw _

theorem callProvider_kept (h : P.Operands st c) : P.Kept st (callProvider c) P.value? := by
  unfold callProvider
  split
  · exact .pure_none
  · refine (ofExcept_kept _).bind fun receiver _ le found => ?_
    have fine := fun id o (same : receiver = (id, o)) =>
      (h.mono le).receiverObject (found.trans (congrArg _ same))
    split
    · exact .pure_some (provider_iff.mp (fine _ _ rfl))
    · exact .pure_some (fine _ _ rfl)
    · exact .throw _

theorem callWrapper_kept (content : NativeType) : P.Kept st (callWrapper content c) P.value? := by
  unfold callWrapper
  split
  · refine (ofExcept_kept _).bind fun _ _ _ _ => ?_
    split
    · exact .bind_some (allocText_kept _)
    · exact .throw _
  · refine (ofExcept_kept _).bind fun _ _ _ _ => ?_
    split
    · exact .pure_some (P.primitive rfl)
    · exact .throw _
  · refine (ofExcept_kept _).bind fun _ _ _ _ => ?_
    split
    · exact .pure_some (P.primitive rfl)
    · exact .throw _
  · exact .pure_none

theorem callNumber_kept : P.Kept st (callNumber c) P.value? := by
  unfold callNumber
  refine (ofExcept_kept _).bind fun _ _ _ _ => ?_
  split
  · split
    · exact .pure_some (P.primitive rfl)
    · exact .throw _
  · split
    · exact .pure_some (P.primitive rfl)
    · exact .pure_some (P.primitive rfl)
    · exact .throw _
  · exact .pure_none

theorem get_kept : P.Kept st (get : Native Machine) fun _ _ => True :=
  .of_store (fun m r m' run => by cases run; rfl) fun _ _ _ _ _ _ => trivial

theorem callObject_kept : P.Kept st (callObject c) P.value? := by
  unfold callObject
  split
  · exact .pure_none
  · refine (ofExcept_kept _).bind fun _ _ _ _ => ?_
    split
    · exact .bind_some (allocText_kept _)
    · exact .bind_some (allocText_kept _)
    · exact get_kept.bind fun _ _ _ _ => .bind_some (allocText_kept _)

theorem callByteString_kept : P.Kept st (callByteString c) P.value? := by
  unfold callByteString
  split
  · exact (ofExcept_kept _).bind fun _ _ _ _ => .bind_some (allocPlain_kept rfl)
  · refine (ofExcept_kept _).bind fun _ _ _ _ => ?_
    split
    · exact .bind_some (allocPlain_kept rfl)
    · exact .throw _
  · exact .pure_none

theorem callCodec_kept : P.Kept st (callCodec c) P.value? := by
  unfold callCodec
  split
  · exact .bind_some (allocPlain_kept rfl)
  · exact (ofExcept_kept _).bind fun _ _ _ _ => .bind_some (allocText_kept _)
  · refine (ofExcept_kept _).bind fun _ _ _ _ => ?_
    split
    · exact .bind_some (allocPlain_kept rfl)
    · exact .throw _
  · exact .pure_none

theorem mem_of_listItem {items : List Value} {index : Int32} {v : Value}
    (found : listItem items index = .ok v) : v ∈ items := by
  unfold listItem at found
  split at found
  · rename_i item
    cases found
    split at item
    · cases item
    · exact List.mem_of_getElem? item
  · cases found

theorem callList_kept (h : P.Operands st c) : P.Kept st (callList c) P.value? := by
  unfold callList
  refine (ofExcept_kept _).bind fun receiver _ le found => ?_
  split
  · have fine := (h.mono le).receiverObject found
    refine (Policy.listItems_kept _).bind fun items _ le' within => ?_
    split
    · exact .pure_some (P.primitive rfl)
    · refine (ofExcept_kept _).bind fun index _ le₁ _ => (ofExcept_kept _).bind fun v _ le₂ got => ?_
      exact .pure_some (P.mono (P.trans le₁ le₂) (within v (mem_of_listItem got)))
    · refine (ofExcept_kept _).bind fun v _ le₁ arg => ?_
      have given := ((h.mono le).mono (P.trans le' le₁)).arg arg
      refine (Policy.setList_kept (P.mono (P.trans le' le₁) fine) fun w mem => ?_).bind
        fun _ _ _ _ => .pure_some (P.primitive rfl)
      rcases List.mem_append.mp mem with mem | mem
      · exact P.mono le₁ (within w mem)
      · cases List.mem_singleton.mp mem
        exact given
    · exact .pure_none
  · exact .throw _

theorem resolved_fine {v : Value} (h : P.value st v) : P.value st (resolved v) := by
  unfold resolved
  split
  · exact provider_iff.mp h
  · exact h

theorem callRuntime_kept (h : P.Operands st c) : P.Kept st (callRuntime c) P.value? := by
  unfold callRuntime
  split
  · exact .bind_some (Policy.allocList_kept nofun)
  · refine (ofExcept_kept _).bind fun v _ le arg => .bind_some ?_
    exact Policy.alloc_kept fun _ _ le' => provider_iff.mpr (P.mono le' ((h.mono le).arg arg))
  · refine (ofExcept_kept _).bind fun id _ _ _ => ?_
    refine (Policy.listItems_kept id).bind fun items _ _ within => ?_
    refine .bind_some (Policy.allocList_kept fun v mem => ?_)
    obtain ⟨w, mem', rfl⟩ := List.mem_map.mp mem
    exact resolved_fine (within w mem')
  · exact .pure_none

theorem messageReceiver_fine (h : P.Operands st c) {name : String} {data : MessageData}
    (found : messageReceiver c name = .ok data) : P.message data := by
  obtain ⟨id, receiver, -⟩ := messageReceiver_eq_ok.mp found
  exact message_iff.mp (h.receiver _ receiver)

theorem callMessage_kept (h : P.Operands st c) (name : String) :
    P.Kept st (callMessage s name c) P.value? := by
  unfold callMessage
  split
  · exact .pure_none
  · split
    · split
      · exact .bind_some (defaultInstance_kept name)
      · split
        · exact .bind_some (Policy.allocBuilder_kept _)
        · exact .pure_none
    · refine (ofExcept_kept _).bind fun data _ le found => ?_
      have fine := messageReceiver_fine (h.mono le) found
      split
      · exact .pure_none
      · exact .bind_some (Storage.readThrough_kept fine fun a _ => Storage.getterView_kept)
      · exact .pure_some (P.primitive rfl)
      · exact .bind_some (allocPlain_kept rfl)

theorem changeBuilder_kept (h : P.Operands st c) {id : ObjectId} {name : String}
    (builder : P.value st (.ref id (.builder name))) {change : MessageData → MessageData}
    (changes : ∀ data, P.contents name data → P.contents name (change data) ∧ P.grows data (change data)) :
    P.Kept st (changeBuilder c id name change) P.value? := by
  unfold changeBuilder
  rw [← bind_assoc]
  refine (Policy.updateBuilder_kept builder changes).bind fun _ _ le _ => ?_
  refine (ofExcept_kept _).bind fun v _ le' found => .pure_some ?_
  exact P.mono le' ((h.mono le).receiverValue found)

theorem storeOperand_kept (h : P.Operands st c) {id : ObjectId} {name : String}
    (builder : P.value st (.ref id (.builder name))) {f : Field} {change : Stored → MessageData → MessageData}
    (changes : ∀ a, P.Stores f a → ∀ data, P.contents name data →
      P.contents name (change a data) ∧ P.grows data (change a data)) :
    P.Kept st (ofExcept (c.arg 0 >>= Storage.ofValue c f) >>= fun a => changeBuilder c id name (change a))
      P.value? := by
  refine (ofExcept_kept _).bind fun a _ le given => ?_
  obtain ⟨v, arg, given⟩ := Fallible.bind_eq_ok.mp given
  exact changeBuilder_kept (h.mono le) (P.mono le builder)
    (changes a (Policy.Stores.of_ofValue ((h.mono le).arg arg) given))

theorem builderReceiver_fine (h : P.Operands st c) {id : ObjectId} {name : String}
    (found : builderReceiver c = .ok (id, name)) : P.value st (.ref id (.builder name)) :=
  h.receiver _ (builderReceiver_eq_ok.mp found)

theorem callBuilder_kept (upholds : P.UpholdsAt s c) (h : P.Operands st c) (name : String) :
    P.Kept st (callBuilder s name c) P.value? := by
  unfold callBuilder
  split
  · exact .pure_none
  · rename_i m found
    cases Schema.Loaded.fullName_eq found
    refine (ofExcept_kept _).bind fun receiver _ le received => ?_
    have fine := builderReceiver_fine (h.mono le) received
    refine .refuse fun same => ?_
    rw [not_not] at same
    rw [same] at fine
    split
    · exact .pure_none
    · rw [same]
      refine (Policy.builderData_kept fine).bind fun data _ _ fits => ?_
      exact .bind_some (allocMessage_kept (P.built fits))
    · rename_i f resolved
      obtain ⟨mem, singular⟩ := Message.mem_of_builderMethod?_set resolved
      rw [same]
      exact storeOperand_kept (h.mono le) fine fun a stores data => upholds.set found mem singular stores
    · rename_i f resolved
      obtain ⟨mem, repeated⟩ := Message.mem_of_builderMethod?_add resolved
      rw [same]
      exact storeOperand_kept (h.mono le) fine fun a stores data => upholds.add found mem repeated stores

theorem extensionArg_mem {name : String} {f : Field} (found : extensionArg s c name = .ok f) :
    f ∈ s.extensions ∧ f.container = name := by
  unfold extensionArg at found
  obtain ⟨⟨id, o⟩, arg, found⟩ := Fallible.bind_eq_ok.mp found
  cases o with
  | extension owner name =>
      dsimp only at found
      split at found
      · cases found
      · rename_i identified
        split at found
        · rename_i container
          cases found
          exact ⟨List.mem_of_find?_eq_some identified, container⟩
        · cases found
  | _ => cases found

theorem callExtendableMessage_kept (h : P.Operands st c) :
    P.Kept st (callExtendableMessage s c) P.value? := by
  unfold callExtendableMessage
  refine (ofExcept_kept _).bind fun receiver _ le found => ?_
  split
  · have fine := message_iff.mp ((h.mono le).receiverObject found)
    refine (ofExcept_kept _).bind fun f _ _ _ => ?_
    split
    · exact .pure_some (P.primitive rfl)
    · split
      · exact .bind_some (Storage.readThrough_kept fine fun a _ => Storage.extensionView_kept)
      · exact .pure_none
  · exact .throw _

theorem callExtendableBuilder_kept (upholds : P.UpholdsAt s c) (owner : c.method.owner = .extendableBuilder)
    (h : P.Operands st c) : P.Kept st (callExtendableBuilder s c) P.value? := by
  unfold callExtendableBuilder
  refine (ofExcept_kept _).bind fun receiver _ le found => ?_
  have fine := builderReceiver_fine (h.mono le) found
  refine (ofExcept_kept _).bind fun f _ le' identified => ?_
  obtain ⟨-, container⟩ := extensionArg_mem identified
  rw [← container] at fine
  refine (ofExcept_kept _).bind fun stored _ le'' given => ?_
  obtain ⟨v, arg, given⟩ := Fallible.bind_eq_ok.mp given
  have operands := ((h.mono le).mono le').mono le''
  have stores := Policy.Stores.of_ofExtensionValue (operands.arg arg) given
  rw [← container]
  have builder := P.mono (P.trans le' le'') fine
  split
  · rename_i sets
    exact changeBuilder_kept operands builder fun data =>
      upholds.setExtension owner sets identified stores
  · split
    · rename_i adds
      exact changeBuilder_kept operands builder fun data =>
        upholds.addExtension owner adds identified stores
    · exact .pure_none

theorem callEnum_kept (name : String) : P.Kept st (callEnum s name c) P.value? := by
  unfold callEnum
  split
  · exact .pure_none
  · split
    · refine (ofExcept_kept _).bind fun n _ _ _ => ?_
      split
      · exact .bind_some (allocPlain_kept rfl)
      · exact .pure_some (P.primitive rfl)
    · split
      · refine (ofExcept_kept _).bind fun receiver _ _ _ => ?_
        split
        · exact .pure_some (P.primitive rfl)
        · exact .throw _
      · exact .pure_none

theorem callOneofCase_kept : P.Kept st (callOneofCase c) P.value? := by
  unfold callOneofCase
  refine (ofExcept_kept _).bind fun receiver _ _ _ => ?_
  obtain ⟨_, object⟩ := receiver
  dsimp only
  split
  · split
    · exact .pure_some (P.primitive rfl)
    · exact .throw _
  · exact .pure_none

/-- A call keeps to a policy that allows what it does. -/
theorem invoke_keptAt (upholds : P.UpholdsAt s c) (h : P.Operands st c) :
    P.Kept st (invoke s c) P.value := by
  have known : P.Kept st (dispatch s c) P.value? := by
    unfold dispatch
    split
    · exact callMessage_kept h _
    · exact callBuilder_kept upholds h _
    · exact callExtendableMessage_kept h
    · exact callExtendableBuilder_kept upholds ‹_› h
    · exact callEnum_kept _
    · exact callOneofCase_kept
    · exact callBoxed_kept upholds h _
    · exact callProvider_kept h
    · exact callWrapper_kept _
    · exact callNumber_kept
    · exact callObject_kept
    · exact callByteString_kept
    · exact callCodec_kept
    · exact callList_kept h
    · exact callRuntime_kept h
    · exact .pure_none
  unfold invoke
  refine known.bind fun result _ _ fine => ?_
  split
  · exact .pure fun _ le => P.mono le (fine _ rfl)
  · exact .throw _

/-- Every operation keeps to a policy that allows what the operations of the schema do. -/
theorem invoke_kept (upholds : P.Upholds s) (h : P.Operands st c) : P.Kept st (invoke s c) P.value :=
  invoke_keptAt (upholds c) h

end Native

end MessageCode
