import MessageCode.Proofs.Generate.Refused
import MessageCode.Proofs.Machine.Quiet

/-!
Boxed elements and what is stored of them. A boxed value is coerced by what it is, whatever it was known
to be, and every value that has no coerced form ends in a fault.
-/

namespace MessageCode

open Stateful

namespace Boxed

def text? : Boxed → Option String
  | .text t | .sanitized _ t => some t
  | _ => none

def real? : Boxed → Option Numeric.Double
  | .float x => some x
  | .int n => some (.ofInt .double n.toInt)
  | _ => none

end Boxed

/-- The coerced form of a boxed value, for every coercion: what it takes, and what is stored of it. -/
inductive Coercion.Coerces (s : Schema) : Coercion → Boxed → Stored → Prop
  | bool {b} : Coerces s .bool (.bool b) (.bool b)
  | int32 {n} : Coerces s .int32 (.int n) (.int n.toInt32)
  | int64 {n} : Coerces s .int64 (.int n) (.long n)
  | int64AsText {b t n} : b.text? = some t → Text.int64? t = some n → Coerces s .int64AsText b (.long n)
  | float {b x} : b.real? = some x → Coerces s .float b (.float x.narrow)
  | double {b x} : b.real? = some x → Coerces s .double b (.double x)
  | text {b t} (id) : b.text? = some t → Coerces s .text b (.text id t)
  | bytes {b t bytes} (id) : b.text? = some t → Text.Base64.decode? t = some bytes →
      Coerces s .bytes b (.bytes id bytes)
  | legacyEnum {name e n} : s.enum? name = some e → (e.valueByNumber? n.toInt32).isSome →
      Coerces s (.legacyEnum name) (.int n) (.int n.toInt32)
  | modernEnum {name n} : Coerces s (.modernEnum name) (.int n) (.int n.toInt32)
  | message {name id data} : data.typeName = name →
      Coerces s (.message name) (.proto (.ref id (.message data))) (.message id data)
  | sanitized {kind content} (id textId) :
      Coerces s (.sanitized kind) (.sanitized kind content)
        (.message id ⟨kind.messageName, [⟨1, kind.wrappedField, .single (.text textId content)⟩]⟩)

/-- What a coercion reads in a boxed value that has a coerced form. -/
theorem Coercion.Coerces.reads {s : Schema} {c : Coercion} {b : Boxed} {a : Stored}
    (h : c.Coerces s b a) : match c.logicalType with
      | .bool => ∃ x, b = .bool x
      | .int => ∃ n, b = .int n
      | .float => ∃ x, b.real? = some x
      | .text => ∃ t, b.text? = some t
      | .message name => ∃ v, b = .proto v ∧ v ≠ .null ∧ v.isInstance (.message name) = true
      | .sanitized kind => ∃ content, b = .sanitized kind content
      | _ => True := by
  cases h with
  | message same => exact ⟨_, rfl, nofun, by simp [Value.isInstance, Object.isInstance, same]⟩
  | _ => exact ⟨_, by first | rfl | assumption⟩

/-- A value is boxed, of the kind that is expected, and has the coerced form. -/
def Coercion.Takes (s : Schema) (c : Coercion) (kind : BoxedKind) (v : Value) (a : Stored) : Prop :=
  ∃ id b, v = .ref id (.boxed b) ∧ (kind = .any ∨ b.kind = kind) ∧ c.Coerces s b a

namespace Filling

variable {s : Schema} {f : Field} {c : Coercion} {kind : BoxedKind} {i : ObjectId} {b : Boxed}
  {mayFault : Prop}

/-! Accessors of boxed values, by what they read. -/

theorem booleanValue_quiet (s : Schema) (i : ObjectId) (b : Boxed) :
    Quiet ((Signature.unbox "boolean_value" .bool).act (.ofSchema s) [.ref i (.boxed b)])
      (fun w => ∃ x, b = .bool x ∧ w = .bool x) (∀ x, b ≠ .bool x) := by
  cases b with
  | bool x => exact fun m => .inl ⟨_, m.store.nextId, rfl, x, rfl, rfl⟩
  | _ => exact fun m => .inr ⟨nofun, _, m.store.nextId, rfl⟩

theorem longValue_quiet (s : Schema) (i : ObjectId) (b : Boxed) :
    Quiet ((Signature.unbox "long_value" .long).act (.ofSchema s) [.ref i (.boxed b)])
      (fun w => ∃ n, b = .int n ∧ w = .long n) (∀ n, b ≠ .int n) := by
  cases b with
  | int n => exact fun m => .inl ⟨_, m.store.nextId, rfl, n, rfl, rfl⟩
  | _ => exact fun m => .inr ⟨nofun, _, m.store.nextId, rfl⟩

theorem floatValue_quiet (s : Schema) (i : ObjectId) (b : Boxed) :
    Quiet ((Signature.unbox "float_value" .double).act (.ofSchema s) [.ref i (.boxed b)])
      (fun w => ∃ x, b.real? = some x ∧ w = .double x) (∀ x, b.real? ≠ some x) := by
  cases b with
  | float x | int n => exact fun m => .inl ⟨_, m.store.nextId, rfl, _, rfl, rfl⟩
  | _ => exact fun m => .inr ⟨nofun, _, m.store.nextId, rfl⟩

theorem stringValue_quiet (s : Schema) (i : ObjectId) (b : Boxed) :
    Quiet ((Signature.unbox "string_value" .text).act (.ofSchema s) [.ref i (.boxed b)])
      (fun w => ∃ t id, b.text? = some t ∧ w = .ref id (.text t)) (∀ t, b.text? ≠ some t) := by
  cases b with
  | text t | sanitized kind t => exact fun m => .inl ⟨_, m.store.nextId + 1, rfl, _, _, rfl, rfl⟩
  | _ => exact fun m => .inr ⟨nofun, _, m.store.nextId, rfl⟩

theorem getProto_quiet (s : Schema) (i : ObjectId) (b : Boxed) :
    Quiet (Signature.getProto.act (.ofSchema s) [.ref i (.boxed b)]) (fun w => b = .proto w)
      (∀ v, b ≠ .proto v) := by
  cases b with
  | proto v => exact fun m => .inl ⟨_, m.store.nextId, rfl, rfl⟩
  | _ => exact fun m => .inr ⟨nofun, _, m.store.nextId, rfl⟩

theorem castTo_quiet (r : RefType) (v : Value) :
    Quiet (Turns.castTo r v) (fun w => w = v ∧ v.isInstance r = true) (v.isInstance r = false) := by
  unfold Turns.castTo
  split
  · rename_i belongs
    exact .pure ⟨rfl, belongs⟩
  · rename_i other
    exact .fault (by simpa using other)

theorem castFrom_keeps (t : NativeType) (r : RefType) (v : Value) : Quiet (castFrom t r v) (· = v) True := by
  unfold castFrom
  split
  · exact .pure rfl
  · exact ((castTo_quiet r v).imp fun w same => same.1).excuse fun _ => trivial

theorem convertFrom_quiet (t target : NativeType) (v : Value) :
    Quiet (convertFrom t target v) (fun _ => True) True := by
  unfold convertFrom
  split
  · exact .pure trivial
  · exact .ofExcept (fun _ _ => trivial) fun _ _ => trivial

/-- Accessors of boxed values refuse all others. -/
theorem unboxed_faults {method : Method} {kind : BoxedKind} (owner : method.owner = .boxed kind)
    (onInstance : method.isStatic = false) (alone : method.params = []) {v : Value}
    (other : ∀ i b, v ≠ .ref i (.boxed b)) {P : Value → Prop} :
    Quiet (method.act (.ofSchema s) [v]) P True := by
  have count : ([] : List Value).length = method.params.length := by rw [alone]; rfl
  unfold Method.act
  have call : method.callOn [v] = _ := Method.callOn_onInstance onInstance count v
  rw [call]
  cases null : v.isNull with
  | true => exact .fault trivial
  | false =>
      have refused : ∃ fault, Native.callBoxed s kind ⟨method, some v, []⟩ = throw fault := by
        unfold Native.callBoxed
        rw [if_neg (by simp [onInstance])]
        cases v with
        | null => cases null
        | ref i object =>
            cases object with
            | boxed b => exact absurd rfl (other i b)
            | _ => exact ⟨_, rfl⟩
        | _ => exact ⟨_, rfl⟩
      obtain ⟨fault, refused⟩ := refused
      refine fun m => .inr ⟨trivial, fault, m.store.nextId, ?_⟩
      change (Run.ofNative (Native.dispatch s ⟨method, some v, []⟩ >>= _)).run m = _
      unfold Native.dispatch
      rw [owner]
      change (Run.ofNative (Native.callBoxed s kind ⟨method, some v, []⟩ >>= _)).run m = _
      rw [refused]
      rfl

theorem isInstance_boxed (i : ObjectId) (b : Boxed) (kind : BoxedKind) :
    (Value.ref i (.boxed b)).isInstance (.boxed kind) = true ↔ kind = .any ∨ b.kind = kind := by
  cases kind <;> simp [Value.isInstance, Object.isInstance]

theorem castFrom_of_kind {kind : BoxedKind} {b : Boxed} (known : kind = .any ∨ b.kind = kind)
    (t : NativeType) (i : ObjectId) :
    castFrom t (.boxed kind) (.ref i (.boxed b)) = pure (.ref i (.boxed b)) := by
  unfold castFrom Turns.castTo
  rw [if_pos ((isInstance_boxed i b kind).mpr known), ite_self]

theorem castFrom_quiet (t : NativeType) (i : ObjectId) (b : Boxed) (kind : BoxedKind) :
    Quiet (castFrom t (.boxed kind) (.ref i (.boxed b))) (· = .ref i (.boxed b))
      (kind ≠ .any ∧ b.kind ≠ kind) := by
  by_cases known : kind = .any ∨ b.kind = kind
  · rw [castFrom_of_kind known]
    exact .pure rfl
  · unfold castFrom
    split
    · exact .pure rfl
    · exact ((castTo_quiet _ _).imp fun w same => same.1).excuse fun _ => not_or.mp known

/-! The operations of coercions. -/

theorem longParse_quiet (s : Schema) (id : ObjectId) (t : String) :
    Quiet (Signature.longParse.act (.ofSchema s) [.ref id (.text t)])
      (fun w => ∃ n, Text.int64? t = some n ∧ w = .long n) (Text.int64? t = none) := by
  rw [longParse_act]
  cases read : Text.int64? t with
  | some n => exact fun m => .inl ⟨_, m.store.nextId, rfl, n, rfl, rfl⟩
  | none => exact fun m => .inr ⟨rfl, _, m.store.nextId, rfl⟩

theorem decode_quiet (s : Schema) (id : ObjectId) (t : String) :
    Quiet (decodeFrom (.ofSchema s) (.ref id (.text t)) >>= fun array =>
        Signature.byteStringCopyFrom.act (.ofSchema s) [array])
      (fun w => ∃ bytes bytesId, Text.Base64.decode? t = some bytes ∧ w = .ref bytesId (.byteString bytes))
      (Text.Base64.decode? t = none) := by
  have codec : Quiet (Signature.base64.act (.ofSchema s) []) (fun w => ∃ id, w = .ref id .codec)
      (Text.Base64.decode? t = none) := fun m => .inl ⟨_, m.store.nextId + 1, rfl, _, rfl⟩
  unfold decodeFrom
  rw [bind_assoc]
  refine codec.bind ?_
  rintro _ ⟨codecId, rfl⟩
  rw [base64Decode_act]
  cases read : Text.Base64.decode? t with
  | none => exact fun m => .inr ⟨rfl, _, m.store.nextId, rfl⟩
  | some bytes => exact fun m => .inl ⟨_, m.store.nextId + 2, rfl, bytes, _, rfl, rfl⟩

theorem enumForNumber_quiet {name : String} {e : EnumType} (found : s.enum? name = some e) (n : Int32) :
    Quiet ((Signature.enumForNumber name).act (.ofSchema s) [.int n])
      (fun w => (e.valueByNumber? n).isSome ∧ (∃ id, w = .ref id (.enumConst name n)) ∨
        e.valueByNumber? n = none ∧ w = .null) mayFault := by
  rw [enumForNumber_act found]
  cases known : e.valueByNumber? n with
  | none => exact fun m => .inl ⟨_, m.store.nextId, rfl, .inr ⟨rfl, rfl⟩⟩
  | some v =>
      have number : v.number = n := by simpa using List.find?_some known
      rw [← number]
      exact fun m => .inl ⟨_, m.store.nextId + 1, rfl, .inl ⟨rfl, _, rfl⟩⟩

/-- Content gets into a wrapper message only through the conversion of its own kind. -/
theorem toSafeProto_quiet (loaded : s.Loaded) (kind : SanitizedKind) (i : ObjectId) (b : Boxed) :
    Quiet ((Signature.toSafeProto kind).act (.ofSchema s) [.ref i (.boxed b)])
      (fun w => ∃ content id textId, b = .sanitized kind content ∧ w = .ref id (.message
        ⟨kind.messageName, [⟨1, kind.wrappedField, .single (.text textId content)⟩]⟩))
      (∀ content, b ≠ .sanitized kind content) := by
  rw [toSafeProto_act]
  unfold Native.toSafeProto
  cases b with
  | sanitized other content =>
      have target : SanitizedKind.all.find? (fun k => k.toProtoMethod = Call.name
          ⟨Signature.toSafeProto kind, some (.ref i (.boxed (.sanitized other content))), []⟩) = some kind :=
        find?_toProtoMethod kind
      dsimp only
      rw [target]
      dsimp only
      by_cases same : kind = other
      · subst same
        rw [if_neg (not_not.mpr rfl), if_neg (by simp [loaded.wrapper kind])]
        exact fun m => .inl ⟨_, m.store.nextId + 2, rfl, content, _, _, rfl, rfl⟩
      · rw [if_pos same]
        refine fun m => .inr ⟨?_, _, m.store.nextId, rfl⟩
        rintro content' ⟨⟩
        exact same rfl
  | _ => exact fun m => .inr ⟨nofun, _, m.store.nextId, rfl⟩

end Filling

/-- An operand that is stored as the coerced form of the boxed value. -/
structure Coercion.Operand (s : Schema) (f : Field) (c : Coercion) (b : Boxed) (w : Value) : Prop where
  primitive : w.primitiveType? = if c.storageType.isPrimitive then some c.storageType else none
  stored : ∃ a, Storage.ofValue? f w = some a ∧ c.Coerces s b a

/-- What becomes of a boxed value on its way to the setter: an operand or, where it has no coerced form,
null, which no setter takes. -/
def Coercion.Reaches (s : Schema) (f : Field) (c : Coercion) (b : Boxed) (w : Value) : Prop :=
  c.Operand s f b w ∨ w = .null ∧ c.storageType.isPrimitive = false ∧ ∀ a, ¬c.Coerces s b a

namespace Filling

variable {s : Schema} {f : Field} {c : Coercion} {kind : BoxedKind} {i : ObjectId} {b : Boxed}

/-- A boxed value is unboxed before it is coerced, but for sanitized content. -/
theorem operandFrom_boxed {target : NativeType} (unboxes : c.unboxTarget = some target) (host : Host)
    (type : ValueType) (v : Value) :
    operandFrom host c type (.boxed kind) v =
      unboxBoxedFrom host (.boxed kind) target v >>= coerceFrom host c target := by
  have boxed : (NativeType.boxed kind).boxedKind?.isSome = true := rfl
  unfold operandFrom preparedFrom Coercion.preparedType unboxFrom NativeType.unboxed
  rw [unboxes]
  dsimp only
  rw [if_pos boxed, if_pos boxed]

theorem unboxLong_quiet (s : Schema) (t : NativeType) (i : ObjectId) (b : Boxed) :
    Quiet (unboxBoxedFrom (.ofSchema s) t .long (.ref i (.boxed b))) (fun w => ∃ n, b = .int n ∧ w = .long n)
      (∀ n, b ≠ .int n) :=
  (longValue_quiet s i b).bind fun _ read => .pure read

theorem unboxDouble_quiet (s : Schema) (t : NativeType) (i : ObjectId) (b : Boxed) :
    Quiet (unboxBoxedFrom (.ofSchema s) t .double (.ref i (.boxed b)))
      (fun w => ∃ x, b.real? = some x ∧ w = .double x) (∀ x, b.real? ≠ some x) :=
  (floatValue_quiet s i b).bind fun _ read => .pure read

theorem isInstance_message {name : String} {v : Value} (h : v.isInstance (.message name) = true) :
    v = .null ∨ ∃ id data, v = .ref id (.message data) ∧ data.typeName = name := by
  cases v with
  | null => exact .inl rfl
  | ref id object =>
      cases object with
      | message data => exact .inr ⟨id, data, rfl, by simpa [Value.isInstance, Object.isInstance] using h⟩
      | _ => simp [Value.isInstance, Object.isInstance] at h
  | _ => cases h

theorem unboxMessage_quiet (s : Schema) (t : NativeType) (name : String) (i : ObjectId) (b : Boxed) :
    Quiet (unboxBoxedFrom (.ofSchema s) t (.message name) (.ref i (.boxed b)))
      (fun w => b = .proto w ∧ w.isInstance (.message name) = true)
      (∀ v, b = .proto v → ¬v.isInstance (.message name) = true) := by
  change Quiet (castFrom t (.boxed .proto) (.ref i (.boxed b)) >>= fun w =>
    Signature.getProto.act (.ofSchema s) [w] >>= Turns.castTo (.message name)) _ _
  refine ((castFrom_quiet t i b .proto).excuse ?_).bind ?_
  · rintro ⟨-, other⟩ v rfl
    exact absurd rfl other
  · rintro _ rfl
    refine ((getProto_quiet s i b).excuse fun other v same => absurd same (other v)).bind ?_
    rintro v rfl
    refine ((castTo_quiet _ v).excuse ?_).imp ?_
    · rintro other _ ⟨⟩
      simp [other]
    · rintro w ⟨rfl, belongs⟩
      exact ⟨rfl, belongs⟩

theorem operand_legacyEnum {name : String} {e : EnumType} (kindOf : f.kind = .enum name)
    (found : s.enum? name = some e) (type : ValueType) (kind : BoxedKind) (i : ObjectId) (b : Boxed) :
    Quiet (operandFrom (.ofSchema s) (.legacyEnum name) type (.boxed kind) (.ref i (.boxed b)))
      ((Coercion.legacyEnum name).Reaches s f b) (∀ a, ¬(Coercion.legacyEnum name).Coerces s b a) := by
  rw [operandFrom_boxed rfl]
  refine ((unboxLong_quiet s _ i b).excuse fun other _ coerced => coerced.reads.elim other).bind ?_
  rintro _ ⟨n, rfl, rfl⟩
  refine (enumForNumber_quiet found n.toInt32).imp ?_
  rintro w (⟨declared, id, rfl⟩ | ⟨unknown, rfl⟩)
  · exact .inl ⟨rfl, _, Storage.Takes.eq_some (.enumConst kindOf), .legacyEnum found declared⟩
  · refine .inr ⟨rfl, rfl, fun _ coerced => ?_⟩
    cases coerced with
    | legacyEnum found' declared =>
        cases found.symm.trans found'
        rw [unknown] at declared
        cases declared

theorem operand_message {name : String} (kindOf : f.kind = .message name) (type : ValueType)
    (kind : BoxedKind) (i : ObjectId) (b : Boxed) :
    Quiet (operandFrom (.ofSchema s) (.message name) type (.boxed kind) (.ref i (.boxed b)))
      ((Coercion.message name).Reaches s f b) (∀ a, ¬(Coercion.message name).Coerces s b a) := by
  rw [operandFrom_boxed rfl]
  refine ((unboxMessage_quiet s _ name i b).excuse ?_).bind ?_
  · rintro other _ coerced
    obtain ⟨v, rfl, -, belongs⟩ := coerced.reads
    exact other v rfl belongs
  · rintro w ⟨rfl, belongs⟩
    change Quiet (castFrom (.message name) (.message name) w) _ _
    rw [castFrom_message]
    rcases isInstance_message belongs with rfl | ⟨id, data, rfl, rfl⟩
    · refine .pure (.inr ⟨rfl, rfl, fun _ coerced => ?_⟩)
      obtain ⟨v, same, present, -⟩ := coerced.reads
      cases same
      exact present rfl
    · exact .pure (.inl ⟨rfl, _, Storage.Takes.eq_some (.message kindOf), .message rfl⟩)

theorem operand_sanitized (loaded : s.Loaded) {sanitized : SanitizedKind}
    (kindOf : f.kind = .message sanitized.messageName) (type : ValueType) (kind : BoxedKind) (i : ObjectId)
    (b : Boxed) :
    Quiet (operandFrom (.ofSchema s) (.sanitized sanitized) type (.boxed kind) (.ref i (.boxed b)))
      ((Coercion.sanitized sanitized).Reaches s f b)
      (∀ a, ¬(Coercion.sanitized sanitized).Coerces s b a) := by
  -- Sanitized content is not unboxed.
  change Quiet (castFrom (.boxed kind) (.boxed .sanitized) (.ref i (.boxed b)) >>= fun w =>
    (Signature.toSafeProto sanitized).act (.ofSchema s) [w]) _ _
  refine ((castFrom_quiet _ i b .sanitized).excuse ?_).bind ?_
  · rintro ⟨-, other⟩ _ coerced
    obtain ⟨content, rfl⟩ := coerced.reads
    exact other rfl
  · rintro _ rfl
    refine ((toSafeProto_quiet loaded sanitized i b).excuse
      fun other _ coerced => coerced.reads.elim other).imp ?_
    rintro _ ⟨content, id, textId, rfl, rfl⟩
    exact .inl ⟨rfl, _, Storage.Takes.eq_some (.message kindOf), .sanitized id textId⟩

/-- A boxed value becomes an operand, unless it has no coerced form. -/
theorem operand_quiet (loaded : s.Loaded) (covers : c.Covers s f) (type : ValueType) (kind : BoxedKind)
    (i : ObjectId) (b : Boxed) :
    Quiet (operandFrom (.ofSchema s) c type (.boxed kind) (.ref i (.boxed b))) (c.Reaches s f b)
      (∀ a, ¬c.Coerces s b a) := by
  cases covers with
  | bool kindOf =>
      rw [operandFrom_boxed rfl]
      refine ((booleanValue_quiet s i b).excuse fun other _ coerced => coerced.reads.elim other).bind ?_
      rintro _ ⟨x, rfl, rfl⟩
      exact .pure (.inl ⟨rfl, _, Storage.Takes.eq_some (.bool kindOf), .bool⟩)
  | int32 kindOf =>
      rw [operandFrom_boxed rfl]
      refine ((unboxLong_quiet s _ i b).excuse fun other _ coerced => coerced.reads.elim other).bind ?_
      rintro _ ⟨n, rfl, rfl⟩
      exact .pure (.inl ⟨rfl, _, Storage.Takes.eq_some (.int kindOf), .int32⟩)
  | int64 kindOf unmarked =>
      rw [operandFrom_boxed rfl]
      refine ((unboxLong_quiet s _ i b).excuse fun other _ coerced => coerced.reads.elim other).bind ?_
      rintro _ ⟨n, rfl, rfl⟩
      exact .pure (.inl ⟨rfl, _, Storage.Takes.eq_some (.long kindOf), .int64⟩)
  | int64AsText kindOf marked =>
      rw [operandFrom_boxed rfl]
      refine ((stringValue_quiet s i b).excuse fun other _ coerced => coerced.reads.elim other).bind ?_
      rintro _ ⟨t, id, text, rfl⟩
      refine ((longParse_quiet s id t).excuse ?_).imp ?_
      · intro unread _ coerced
        cases coerced with
        | int64AsText text' read =>
            cases text.symm.trans text'
            cases unread.symm.trans read
      · rintro _ ⟨n, read, rfl⟩
        exact .inl ⟨rfl, _, Storage.Takes.eq_some (.long kindOf), .int64AsText text read⟩
  | float kindOf =>
      rw [operandFrom_boxed rfl]
      refine ((unboxDouble_quiet s _ i b).excuse fun other _ coerced => coerced.reads.elim other).bind ?_
      rintro _ ⟨x, real, rfl⟩
      exact .pure (.inl ⟨rfl, _, Storage.Takes.eq_some (.float kindOf), .float real⟩)
  | double kindOf =>
      rw [operandFrom_boxed rfl]
      refine ((unboxDouble_quiet s _ i b).excuse fun other _ coerced => coerced.reads.elim other).bind ?_
      rintro _ ⟨x, real, rfl⟩
      exact .pure (.inl ⟨rfl, _, Storage.Takes.eq_some (.double kindOf), .double real⟩)
  | text kindOf =>
      rw [operandFrom_boxed rfl]
      refine ((stringValue_quiet s i b).excuse fun other _ coerced => coerced.reads.elim other).bind ?_
      rintro _ ⟨t, id, text, rfl⟩
      exact .pure (.inl ⟨rfl, _, Storage.Takes.eq_some (.text kindOf), .text id text⟩)
  | bytes kindOf =>
      rw [operandFrom_boxed rfl]
      refine ((stringValue_quiet s i b).excuse fun other _ coerced => coerced.reads.elim other).bind ?_
      rintro _ ⟨t, id, text, rfl⟩
      refine ((decode_quiet s id t).excuse ?_).imp ?_
      · intro unread _ coerced
        cases coerced with
        | bytes _ text' read =>
            cases text.symm.trans text'
            cases unread.symm.trans read
      · rintro _ ⟨bytes, bytesId, read, rfl⟩
        exact .inl ⟨rfl, _, Storage.Takes.eq_some (.bytes kindOf), .bytes bytesId text read⟩
  | legacyEnum kindOf found _ => exact operand_legacyEnum kindOf found type kind i b
  | modernEnum kindOf modern =>
      rw [operandFrom_boxed rfl]
      refine ((unboxLong_quiet s _ i b).excuse fun other _ coerced => coerced.reads.elim other).bind ?_
      rintro _ ⟨n, rfl, rfl⟩
      exact .pure (.inl ⟨rfl, _, Storage.Takes.eq_some (.modernEnum kindOf modern), .modernEnum⟩)
  | message kindOf _ => exact operand_message kindOf type kind i b
  | sanitized kindOf => exact operand_sanitized loaded kindOf type kind i b

theorem unboxBoxed_faults {target : NativeType} (unboxes : c.unboxTarget = some target) (t : NativeType)
    {v : Value} (other : ∀ i b, v ≠ .ref i (.boxed b)) {P : Value → Prop} :
    Quiet (unboxBoxedFrom (.ofSchema s) t target v) P True := by
  cases c with
  | sanitized kind => cases unboxes
  | message name =>
      cases unboxes
      change Quiet (castFrom t (.boxed .proto) v >>= fun w =>
        Signature.getProto.act (.ofSchema s) [w] >>= Turns.castTo (.message name)) _ _
      refine (castFrom_keeps t _ v).bind ?_
      rintro _ rfl
      exact (unboxed_faults rfl rfl rfl other (P := fun _ => False)).bind nofun
  | bool | int64AsText | text | bytes =>
      cases unboxes
      exact unboxed_faults rfl rfl rfl other
  | int32 | int64 | legacyEnum | modernEnum | float | double =>
      cases unboxes
      exact (unboxed_faults rfl rfl rfl other (P := fun _ => False)).bind nofun

theorem operand_keeps (loaded : s.Loaded) (covers : c.Covers s f) (type : ValueType) (kind : BoxedKind)
    (v : Value) : Quiet (operandFrom (.ofSchema s) c type (.boxed kind) v) (fun _ => True) True := by
  by_cases boxed : ∃ i b, v = .ref i (.boxed b)
  · obtain ⟨i, b, rfl⟩ := boxed
    exact ((operand_quiet loaded covers type kind i b).imp fun _ _ => trivial).excuse fun _ => trivial
  · have other : ∀ i b, v ≠ .ref i (.boxed b) := fun i b same => boxed ⟨i, b, same⟩
    cases unboxes : c.unboxTarget with
    | some target =>
        rw [operandFrom_boxed unboxes]
        exact (unboxBoxed_faults unboxes _ other (P := fun _ => False)).bind nofun
    | none =>
        cases c with
        | sanitized sanitized =>
            change Quiet (castFrom (.boxed kind) (.boxed .sanitized) v >>= fun w =>
              (Signature.toSafeProto sanitized).act (.ofSchema s) [w]) _ _
            refine (castFrom_keeps _ _ v).bind ?_
            rintro _ rfl
            exact unboxed_faults rfl rfl rfl other
        | _ => cases unboxes

theorem operandType_boxed (c : Coercion) (type : ValueType) (kind : BoxedKind) :
    c.operandType type (.boxed kind) = c.storageType := by
  cases c with
  | message name => exact ite_self _
  | _ => rfl

theorem ofValue_quiet {w : Value} (h : c.Reaches s f b w) (call : Call) :
    Quiet (Run.ofExcept (Storage.ofValue call f w)) (c.Coerces s b) (∀ a, ¬c.Coerces s b a) := by
  rcases h with operand | ⟨rfl, -, none⟩
  · obtain ⟨a, known, coerced⟩ := operand.stored
    rw [Storage.ofValue_eq_ok.mpr known]
    exact .pure coerced
  · exact .fault none

theorem ofExtensionValue_quiet {w : Value} (h : c.Reaches s f b w) (call : Call) :
    Quiet (wrapFrom c.storageType w >>= fun x => Run.ofExcept (Storage.ofExtensionValue call f x))
      (c.Coerces s b) (∀ a, ¬c.Coerces s b a) := by
  rcases h with operand | ⟨rfl, reference, none⟩
  · obtain ⟨a, known, coerced⟩ := operand.stored
    have primitive := operand.primitive
    unfold wrapFrom
    cases wraps : c.storageType.isPrimitive with
    | false =>
        simp only [Bool.false_eq_true, if_false, pure_bind]
        rw [ofExtensionValue_eq known]
        exact .pure coerced
    | true =>
        rw [wraps, if_pos rfl] at primitive
        simp only [if_true]
        rw [if_pos primitive]
        refine (Quiet.alloc (.wrapper w)).bind ?_
        rintro _ ⟨id, rfl⟩
        have unwrapped : Storage.ofExtensionValue call f (.ref id (.wrapper w)) = .ok a :=
          Storage.ofValue_eq_ok.mpr known
        rw [unwrapped]
        exact .pure coerced
  · have kept : wrapFrom c.storageType .null = pure .null := by
      unfold wrapFrom
      simp only [reference, Bool.false_eq_true, if_false]
    rw [kept, pure_bind]
    exact .fault none

theorem stored_quiet (loaded : s.Loaded) (covers : c.Covers s f) (type : ValueType) (kind : BoxedKind)
    (i : ObjectId) (b : Boxed) :
    Quiet (stored (.ofSchema s) f c type (.boxed kind) false (.ref i (.boxed b))) (c.Coerces s b)
      (∀ a, ¬c.Coerces s b a) := by
  unfold stored
  refine (operand_quiet loaded covers type kind i b).bind fun w reaches => ?_
  rw [operandType_boxed]
  cases f.isExtension with
  | true =>
      simp only [if_true, Bool.false_eq_true, if_false]
      exact ofExtensionValue_quiet reaches _
  | false =>
      simp only [Bool.false_eq_true, if_false]
      exact ofValue_quiet reaches _

theorem castFrom_any (kind : BoxedKind) (v : Value) :
    castFrom (.boxed .any) (.boxed kind) v =
      if kind = .any then pure v else Turns.castTo (.boxed kind) v := by
  unfold castFrom
  cases kind <;> simp [NativeType.assignableTo, RefType.assignableTo, NativeType.boxed]

/-- An item is resolved once more before it is taken for a boxed value. -/
theorem element_resolves (s : Schema) (kind : BoxedKind) (item : Value) :
    Quiet (element (.ofSchema s) kind item) (· = Native.resolved item) True := by
  have provided : Quiet (Turns.castTo .provider item >>= fun provider =>
      Signature.resolve.act (.ofSchema s) [provider]) (· = Native.resolved item) True := by
    cases item with
    | ref id object =>
        cases object with
        | provider v => exact fun m => .inl ⟨_, m.store.nextId, rfl, rfl⟩
        | boxed b => exact fun m => .inl ⟨_, m.store.nextId, rfl, rfl⟩
        | _ => exact fun m => .inr ⟨trivial, _, m.store.nextId, rfl⟩
    | _ => exact fun m => .inr ⟨trivial, _, m.store.nextId, rfl⟩
  unfold element
  rw [← bind_assoc]
  refine provided.bind ?_
  rintro _ rfl
  exact castFrom_keeps _ _ _

theorem element_quiet (s : Schema) (kind : BoxedKind) (i : ObjectId) (b : Boxed) :
    Quiet (element (.ofSchema s) kind (.ref i (.boxed b)))
      (fun w => w = .ref i (.boxed b) ∧ (kind = .any ∨ b.kind = kind)) (¬(kind = .any ∨ b.kind = kind)) := by
  have provided : Quiet (Turns.castTo .provider (.ref i (.boxed b)) >>= fun provider =>
      Signature.resolve.act (.ofSchema s) [provider]) (· = .ref i (.boxed b))
      (¬(kind = .any ∨ b.kind = kind)) := fun m => .inl ⟨_, m.store.nextId, rfl, rfl⟩
  unfold element
  rw [← bind_assoc]
  refine provided.bind ?_
  rintro _ rfl
  rw [castFrom_any]
  split
  · rename_i any
    exact .pure ⟨rfl, .inl any⟩
  · rw [← isInstance_boxed i]
    exact (castTo_quiet _ _).excuse fun other => by simp [other]

/-- A boxed element is stored as its coerced form, where it is of the kind that is expected and has one. -/
theorem elementStored_quiet (loaded : s.Loaded) (covers : c.Covers s f) (type : ValueType)
    (kind : BoxedKind) (i : ObjectId) (b : Boxed) :
    Quiet (element (.ofSchema s) kind (.ref i (.boxed b)) >>=
        stored (.ofSchema s) f c type (.boxed kind) false)
      (c.Takes s kind (.ref i (.boxed b))) (∀ a, ¬c.Takes s kind (.ref i (.boxed b)) a) := by
  refine ((element_quiet s kind i b).excuse ?_).bind ?_
  · rintro other a ⟨_, _, ⟨⟩, expected, -⟩
    exact other expected
  · rintro _ ⟨rfl, expected⟩
    refine ((stored_quiet loaded covers type kind i b).excuse ?_).imp ?_
    · rintro none a ⟨_, _, ⟨⟩, -, coerced⟩
      exact none a coerced
    · exact fun a coerced => ⟨i, b, rfl, expected, coerced⟩

end Filling

end MessageCode
