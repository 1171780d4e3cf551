import MessageCode.Proofs.Generate.Restacks
import MessageCode.Proofs.Text.Base64

/-!
Values that a field can hold. Coerced to the storage form of the field, such a value is seen again in
what is stored, but for a numeral, which takes its canonical form, and for the rounding of a number.
-/

namespace MessageCode

open Stateful

/-- The values that a field can hold: integers of its width, the declared numbers of a legacy enum,
numerals and base64 texts where texts stand for other data, and valid messages of its type. -/
def Field.Holds (s : Schema) (f : Field) (l : LogicalValue) : Prop :=
  match f.kind, l with
  | .bool, .bool _ => True
  | .int32, .int n => ∃ k : Int32, n = k.toInt64
  | .int64, .int _ => f.numericAsText = false
  | .int64, .text t => f.numericAsText = true ∧ ∃ n, Text.int64? t = some n
  | .float, .float _ => True
  | .double, .float _ => True
  | .text, .text _ => True
  | .bytes, .text t => ∃ b, Text.Base64.decode? t = some b
  | .enum name, .int n =>
      if f.isModernEnum then ∃ k : Int32, n = k.toInt64
      else ∃ e v, s.enum? name = some e ∧ v ∈ e.values ∧ n = v.number.toInt64
  | .message name, .message _ data =>
      SanitizedKind.ofMessage? name = none ∧ data.typeName = name ∧ Valid s data
  | .message name, .sanitized kind _ => kind.messageName = name
  | _, _ => False

/-- What a field makes of a value that it holds: numerals are written in canonical form, and numbers
are rounded where the field is narrower. -/
def Field.normalised (f : Field) (l : LogicalValue) : LogicalValue :=
  match f.kind, l with
  | .int64, .text t => .text (((Text.int64? t).map fun n => toString n.toInt).getD t)
  | .float, .float x => .float (Numeric.Double.narrow x).widen
  | _, l => l

namespace LogicalValue

/-- A value where a coercion starts: native, but for sanitized content, which is boxed. -/
def Prepared (l : LogicalValue) (v : Value) : Prop :=
  match l with
  | .sanitized .. => l.InBox v
  | _ => l.Native v

def preparedType : LogicalValue → NativeType
  | .sanitized .. => .boxed .sanitized
  | l => l.nativeType

end LogicalValue

theorem Field.Holds.type_eq {s : Schema} {f : Field} {c : Coercion} {l : LogicalValue}
    (holds : f.Holds s l) (covers : c.Covers s f) : c.logicalType = l.type := by
  unfold Field.Holds at holds
  cases covers with
  | message kind other =>
      rw [kind] at holds
      cases l with
      | message id data =>
          obtain ⟨-, typeName, -⟩ := holds
          exact congrArg _ typeName.symm
      | sanitized kind content =>
          rw [← holds, SanitizedKind.ofMessage?_messageName] at other
          cases other
      | _ => cases holds
  | @sanitized sanitized kind =>
      rw [kind] at holds
      cases l with
      | message id data =>
          obtain ⟨other, -⟩ := holds
          rw [SanitizedKind.ofMessage?_messageName] at other
          cases other
      | sanitized kind content =>
          have same := SanitizedKind.ofMessage?_messageName kind
          rw [holds, SanitizedKind.ofMessage?_messageName] at same
          cases same
          rfl
      | _ => cases holds
  | int64 kind unmarked =>
      rw [kind] at holds
      cases l with
      | int n => rfl
      | text t =>
          rw [unmarked] at holds
          cases holds.1
      | _ => cases holds
  | int64AsText kind marked =>
      rw [kind] at holds
      cases l with
      | text t => rfl
      | int n =>
          rw [marked] at holds
          cases holds
      | _ => cases holds
  | bool kind =>
      rw [kind] at holds
      cases l with
      | bool b => rfl
      | _ => cases holds
  | int32 kind | legacyEnum kind | modernEnum kind =>
      rw [kind] at holds
      cases l with
      | int n => rfl
      | _ => cases holds
  | float kind | double kind =>
      rw [kind] at holds
      cases l with
      | float x => rfl
      | _ => cases holds
  | text kind | bytes kind =>
      rw [kind] at holds
      cases l with
      | text t => rfl
      | _ => cases holds

/-- A value is of the logical type of a field: what the kind of the field is, and what the value is, for
every coercion. -/
inductive Coercion.Meets (s : Schema) (f : Field) : Coercion → LogicalValue → Prop
  | bool {b} : f.kind = .bool → Meets s f .bool (.bool b)
  | int32 {n} : f.kind = .int32 → Meets s f .int32 (.int n)
  | int64 {n} : f.kind = .int64 → f.numericAsText = false → Meets s f .int64 (.int n)
  | int64AsText {t} : f.kind = .int64 → f.numericAsText = true → Meets s f .int64AsText (.text t)
  | float {x} : f.kind = .float → Meets s f .float (.float x)
  | double {x} : f.kind = .double → Meets s f .double (.float x)
  | text {t} : f.kind = .text → Meets s f .text (.text t)
  | bytes {t} : f.kind = .bytes → Meets s f .bytes (.text t)
  | legacyEnum {name e n} : f.kind = .enum name → s.enum? name = some e → f.isModernEnum = false →
      Meets s f (.legacyEnum name) (.int n)
  | modernEnum {name n} : f.kind = .enum name → f.isModernEnum = true → Meets s f (.modernEnum name) (.int n)
  | message {id data} : f.kind = .message data.typeName → SanitizedKind.ofMessage? data.typeName = none →
      Meets s f (.message data.typeName) (.message id data)
  | sanitized {kind content} : f.kind = .message kind.messageName →
      Meets s f (.sanitized kind) (.sanitized kind content)

theorem Coercion.Covers.meets {s : Schema} {f : Field} {c : Coercion} {l : LogicalValue}
    (covers : c.Covers s f) (same : c.logicalType = l.type) : c.Meets s f l := by
  cases covers <;> cases l <;> cases same <;> constructor <;> assumption

/-- Every value but sanitized content is native where its coercion starts. -/
theorem LogicalValue.prepared_eq {l : LogicalValue} (plain : ∀ kind content, l ≠ .sanitized kind content) :
    l.preparedType = l.nativeType ∧ l.Prepared = l.Native := by
  cases l with
  | sanitized kind content => exact absurd rfl (plain kind content)
  | _ => exact ⟨rfl, rfl⟩

theorem LogicalValue.sanitized_or_plain (l : LogicalValue) :
    (∃ kind content, l = .sanitized kind content) ∨ ∀ kind content, l ≠ .sanitized kind content := by
  cases l with
  | sanitized kind content => exact .inl ⟨kind, content, rfl⟩
  | _ =>
      right
      intro kind content absurd
      cases absurd

theorem NativeType.unboxed_self (t : NativeType) : t.unboxed t = t := by
  unfold unboxed
  rw [ite_self, ite_self]

theorem Coercion.unboxTarget_eq {c : Coercion} {l : LogicalValue} (same : c.logicalType = l.type)
    (plain : ∀ kind content, l ≠ .sanitized kind content) : c.unboxTarget = some l.nativeType := by
  have native : c.nativeType = l.nativeType := by rw [c.nativeType_eq, same, l.nativeType_eq]
  cases c with
  | sanitized kind =>
      cases l with
      | sanitized kind content => exact absurd rfl (plain kind content)
      | _ => cases same
  | _ => exact congrArg some native

theorem Coercion.eq_sanitized {c : Coercion} {kind : SanitizedKind}
    (same : c.logicalType = .sanitized kind) : c = .sanitized kind := by
  cases c <;> cases same
  rfl

namespace Filling

variable {s : Schema} {f : Field} {c : Coercion} {l : LogicalValue} {v : Value} {boxed : Bool}

/-- A boxed value is unboxed to its native form. -/
theorem unboxBoxed_gives (s : Schema) (plain : ∀ kind content, l ≠ .sanitized kind content)
    (form : l.InBox v) :
    Gives (unboxBoxedFrom (.ofSchema s) l.type.boxedType l.nativeType v) l.Native := by
  obtain ⟨id, rfl⟩ := form
  cases l with
  | bool b => exact fun m => ⟨_, _, rfl, rfl⟩
  | int n => exact fun m => ⟨_, _, rfl, rfl⟩
  | float x => exact fun m => ⟨_, _, rfl, rfl⟩
  | text t => exact fun m => ⟨_, _, rfl, _, rfl⟩
  | message messageId data =>
      change Gives (Turns.castTo (.message data.typeName) (.ref messageId (.message data))) _
      rw [Turns.castTo_message rfl]
      exact .pure rfl
  | sanitized kind content => exact absurd rfl (plain kind content)

theorem preparedType_eq (same : c.logicalType = l.type) (boxed : Bool) :
    c.preparedType l.type (l.type.given boxed) = l.preparedType := by
  rcases l.sanitized_or_plain with ⟨kind, content, rfl⟩ | plain
  · cases Coercion.eq_sanitized same
    cases boxed with
    | false => rfl
    | true => rfl
  · unfold Coercion.preparedType
    rw [Coercion.unboxTarget_eq same plain, (LogicalValue.prepared_eq plain).1]
    cases boxed with
    | false =>
        have native : l.type.given false = l.nativeType := l.nativeType_eq.symm
        rw [native]
        exact l.nativeType.unboxed_self
    | true => rfl

theorem prepared_gives (s : Schema) (same : c.logicalType = l.type) (form : Access.Form boxed l v) :
    Gives (preparedFrom (.ofSchema s) c l.type (l.type.given boxed) v) l.Prepared := by
  rcases l.sanitized_or_plain with ⟨kind, content, rfl⟩ | plain
  · cases Coercion.eq_sanitized same
    cases boxed with
    | false =>
        obtain ⟨id, rfl⟩ := form
        cases kind <;> exact fun m => ⟨_, _, rfl, _, rfl⟩
    | true => exact .pure form
  · unfold preparedFrom
    rw [Coercion.unboxTarget_eq same plain, (LogicalValue.prepared_eq plain).2]
    cases boxed with
    | false =>
        have native : l.type.given false = l.nativeType := l.nativeType_eq.symm
        have unboxed : l.nativeType.boxedKind?.isSome ≠ true := by
          cases l <;> exact Bool.false_ne_true
        have kept : unboxFrom (.ofSchema s) l.nativeType l.nativeType v = pure v := by
          unfold unboxFrom
          rw [if_neg unboxed, if_pos (NativeType.assignableTo_refl _)]
        dsimp only
        rw [native, kept]
        exact .pure form
    | true => exact unboxBoxed_gives s plain form

end Filling

/-- A message whose only slot is one of its fields is valid. -/
theorem Valid.of_slot {s : Schema} {message : String} {m : Message} {f : Field} (loaded : s.Loaded)
    (found : s.message? message = some m) (mem : f ∈ s.fieldsOf message) (content : Content Stored)
    (label : f.label = content.label) (fits : ∀ a ∈ content.items, a.Fits s f) :
    Valid s ⟨message, [⟨f.number, f.name, content⟩]⟩ := by
  have only : ∀ g ∈ s.fieldsOf message, g.number = f.number → g = f := by
    intro g mem' same
    exact (loaded.apart_fieldsOf found).eq_of_number mem' mem same
  refine ⟨⟨?_, ?_⟩, ?_⟩
  · intro slot mem'
    obtain rfl := List.mem_singleton.mp mem'
    exact ⟨f, mem, rfl, label⟩
  · intro g mem' h mem'' oneof _ _ set set'
    have number : ∀ k, Record.isSet ⟨message, [⟨f.number, f.name, content⟩]⟩ k = true → k = f.number := by
      intro k set
      by_contra other
      simp [Record.isSet, Record.content?, Ne.symm other] at set
    rw [only g mem' (number _ set), only h mem'' (number _ set')]
  · intro slot mem' g mem'' same
    obtain rfl := List.mem_singleton.mp mem'
    obtain rfl := only g mem'' same
    exact fits

/-- A wrapper message with a text in it is valid. -/
theorem Schema.Loaded.wrapper_valid {s : Schema} (loaded : s.Loaded) (kind : SanitizedKind)
    (id : ObjectId) (content : String) :
    Valid s ⟨kind.messageName, [⟨1, kind.wrappedField, .single (.text id content)⟩]⟩ := by
  have found := loaded.wrapper kind
  obtain ⟨f, fields, name, number, text, label⟩ : ∃ f : Field, (SanitizedKind.wrapper kind).fields = [f] ∧
      f.name = kind.wrappedField ∧ f.number = 1 ∧ f.kind = .text ∧ f.label = .singular :=
    ⟨_, rfl, rfl, rfl, rfl, rfl⟩
  have mem : f ∈ s.fieldsOf kind.messageName := by
    rw [Schema.Loaded.fieldsOf_eq found, fields]
    exact List.mem_append_left _ (List.mem_singleton_self f)
  rw [← name, ← number]
  apply Valid.of_slot loaded found mem (.single (.text id content)) label
  intro a mem'
  obtain rfl := List.mem_singleton.mp mem'
  exact .text text

/-- An operand of the storage type that stands for the logical value once it is stored. -/
structure Field.Operand (s : Schema) (f : Field) (t : NativeType) (l : LogicalValue) (v : Value) :
    Prop where
  primitive : v.primitiveType? = if t.isPrimitive then some t else none
  stored : ∃ a, Storage.ofValue? f v = some a ∧ a.Fits s f ∧ f.logical a = l

namespace Filling

variable {s : Schema} {f : Field} {c : Coercion} {l : LogicalValue} {v : Value} {boxed : Bool}

theorem enumForNumber_act {name : String} {e : EnumType} (found : s.enum? name = some e) (n : Int32) :
    (Signature.enumForNumber name).act (.ofSchema s) [.int n] = Run.ofNative
      (match e.valueByNumber? n with
      | some v => Native.alloc (.enumConst name v.number)
      | none => pure .null) := by
  let call : Call := ⟨Signature.enumForNumber name, none, [.int n]⟩
  have named : call.name = "for_number" := rfl
  have operand : call.intArg 0 = .ok n := rfl
  rw [Method.act_onType rfl rfl]
  apply congrArg
  change Native.callEnum s name call >>= _ = _
  unfold Native.callEnum
  rw [found]
  dsimp only
  rw [if_pos named, operand]
  simp only [Native.ofExcept, pure_bind]
  cases e.valueByNumber? n with
  | none => rfl
  | some v => simp only [bind_assoc, pure_bind, bind_pure]

theorem forNumber_gives {name : String} {e : EnumType} (found : s.enum? name = some e) {v : EnumValue}
    (declared : v ∈ e.values) :
    Gives ((Signature.enumForNumber name).act (.ofSchema s) [.int v.number]) fun w =>
      ∃ id, w = .ref id (.enumConst name v.number) := by
  obtain ⟨u, known⟩ : ∃ u, e.valueByNumber? v.number = some u := by
    apply Option.isSome_iff_exists.mp
    rw [EnumType.valueByNumber?, List.find?_isSome]
    exact ⟨v, declared, by simp⟩
  have number : u.number = v.number := by simpa using List.find?_some known
  rw [enumForNumber_act found, known]
  dsimp only
  rw [number]
  exact Run.ofNative_gives (Native.alloc_gives _)

theorem toSafeProto_act (s : Schema) (kind : SanitizedKind) (id : ObjectId) (b : Boxed) :
    (Signature.toSafeProto kind).act (.ofSchema s) [.ref id (.boxed b)] =
      let call : Call := ⟨Signature.toSafeProto kind, some (.ref id (.boxed b)), []⟩
      Run.ofNative (Native.toSafeProto s call (.boxed b) b >>= fun found =>
        match found with
        | some v => pure v
        | none => throw (.unknownMethod call.describe)) := by
  let call : Call := ⟨Signature.toSafeProto kind, some (.ref id (.boxed b)), []⟩
  have called : Native.dispatch s call = Native.toSafeProto s call (.boxed b) b := by
    cases kind <;> rfl
  rw [Method.act_receiver rfl rfl]
  apply congrArg
  exact congrArg (fun found => found >>= _) called

theorem find?_toProtoMethod (kind : SanitizedKind) :
    SanitizedKind.all.find? (fun k => k.toProtoMethod = kind.toProtoMethod) = some kind := by
  cases kind <;> rfl

theorem toSafeProto_gives (loaded : s.Loaded) (kind : SanitizedKind) (content : String) (id : ObjectId) :
    Gives ((Signature.toSafeProto kind).act (.ofSchema s) [.ref id (.boxed (.sanitized kind content))])
      fun w => ∃ messageId textId, w = .ref messageId (.message ⟨kind.messageName,
        [⟨1, kind.wrappedField, .single (.text textId content)⟩]⟩) := by
  have found := loaded.wrapper kind
  have target : SanitizedKind.all.find? (fun k => k.toProtoMethod = Call.name
      ⟨Signature.toSafeProto kind, some (.ref id (.boxed (.sanitized kind content))), []⟩) = some kind :=
    find?_toProtoMethod kind
  rw [toSafeProto_act]
  unfold Native.toSafeProto
  dsimp only
  rw [target]
  dsimp only
  rw [if_neg (not_not.mpr rfl), if_neg (by simp [found])]
  exact fun m => ⟨_, _, rfl, _, _, rfl⟩

theorem longParse_act (s : Schema) (id : ObjectId) (t : String) :
    Signature.longParse.act (.ofSchema s) [.ref id (.text t)] = Run.ofNative
      (match Text.int64? t with
      | some n => pure (.long n)
      | none => throw (.numberFormat t)) := by
  let call : Call := ⟨Signature.longParse, none, [.ref id (.text t)]⟩
  have operand : call.textArg 0 = .ok t := rfl
  rw [Method.act_onType rfl rfl]
  apply congrArg
  change (Native.ofExcept (call.textArg 0) >>= _) >>= _ = _
  rw [operand]
  simp only [Native.ofExcept, pure_bind]
  cases Text.int64? t <;> rfl

theorem parse_gives (s : Schema) {t : String} {n : Int64} (read : Text.int64? t = some n) (id : ObjectId) :
    Gives (Signature.longParse.act (.ofSchema s) [.ref id (.text t)]) (· = .long n) := by
  rw [longParse_act, read]
  exact .pure rfl

theorem base64Decode_act (s : Schema) (codecId id : ObjectId) (t : String) :
    Signature.base64Decode.act (.ofSchema s) [.ref id (.text t), .ref codecId .codec] = Run.ofNative
      (match Text.Base64.decode? t with
      | some b => Native.alloc (.byteArray b)
      | none => throw (.illegalArgument ("bad base64 " ++ Text.quoted t))) := by
  let call : Call := ⟨Signature.base64Decode, some (.ref codecId .codec), [.ref id (.text t)]⟩
  have operand : call.textArg 0 = .ok t := rfl
  rw [Method.act_argument rfl rfl]
  apply congrArg
  change (Native.ofExcept (call.textArg 0) >>= _) >>= _ = _
  rw [operand]
  simp only [Native.ofExcept, pure_bind]
  cases Text.Base64.decode? t with
  | none => rfl
  | some b => simp only [bind_assoc, pure_bind, bind_pure]

theorem decode_gives (s : Schema) {t : String} {b : List UInt8} (read : Text.Base64.decode? t = some b)
    (id : ObjectId) :
    Gives (decodeFrom (.ofSchema s) (.ref id (.text t)) >>= fun array =>
      Signature.byteStringCopyFrom.act (.ofSchema s) [array]) fun w => ∃ id, w = .ref id (.byteString b) := by
  have decoded : Gives (decodeFrom (.ofSchema s) (.ref id (.text t))) fun w =>
      ∃ id, w = .ref id (.byteArray b) := by
    have codec : Gives (Signature.base64.act (.ofSchema s) []) fun w => ∃ id, w = .ref id .codec :=
      fun m => ⟨_, _, rfl, _, rfl⟩
    refine codec.bind ?_
    rintro _ ⟨codecId, rfl⟩
    rw [base64Decode_act, read]
    exact Run.ofNative_gives (Native.alloc_gives _)
  refine decoded.bind ?_
  rintro _ ⟨arrayId, rfl⟩
  exact fun m => ⟨_, _, rfl, _, rfl⟩

theorem castFrom_message (message : String) (v : Value) :
    castFrom (.message message) (.message message) v = pure v := by
  have known : ((NativeType.message message).assignableTo (.message message) &&
      decide (NativeType.message message ≠ .null)) = true := by
    simp [NativeType.assignableTo_refl]
  exact if_pos known

/-- The coercion of a field keeps the values that the field holds. -/
theorem coerce_gives (loaded : s.Loaded) (covers : c.Covers s f) (holds : f.Holds s l)
    (prepared : l.Prepared v) :
    Gives (coerceFrom (.ofSchema s) c l.preparedType v)
      (f.Operand s c.storageType (f.normalised l)) := by
  have meets := covers.meets (holds.type_eq covers)
  have narrowed (k : Int32) : k.toInt64.toInt32 = k := Int32.toInt32_toInt64 k
  unfold Field.Holds at holds
  unfold Field.normalised
  cases meets with
  | @bool b kind =>
      rw [kind]
      cases prepared
      exact .pure ⟨rfl, .bool b, Storage.Takes.eq_some (.bool kind), .bool kind, rfl⟩
  | int32 kind =>
      rw [kind] at holds ⊢
      obtain ⟨k, rfl⟩ := holds
      cases prepared
      refine .pure ⟨rfl, .int k, ?_, .int kind, rfl⟩
      rw [narrowed]
      exact Storage.Takes.eq_some (.int kind)
  | @int64 n kind unmarked =>
      rw [kind]
      cases prepared
      refine .pure ⟨rfl, .long n, Storage.Takes.eq_some (.long kind), .long kind, ?_⟩
      simp [Field.logical, unmarked]
  | int64AsText kind marked =>
      rw [kind] at holds ⊢
      obtain ⟨-, n, read⟩ := holds
      obtain ⟨id, rfl⟩ := prepared
      refine (parse_gives s read id).imp ?_
      rintro _ rfl
      refine ⟨rfl, .long n, Storage.Takes.eq_some (.long kind), .long kind, ?_⟩
      simp [Field.logical, marked, read]
  | @float x kind =>
      rw [kind]
      cases prepared
      exact .pure ⟨rfl, .float x.narrow, Storage.Takes.eq_some (.float kind), .float kind, rfl⟩
  | @double x kind =>
      rw [kind]
      cases prepared
      exact .pure ⟨rfl, .double x, Storage.Takes.eq_some (.double kind), .double kind, rfl⟩
  | @text t kind =>
      rw [kind]
      obtain ⟨id, rfl⟩ := prepared
      exact .pure ⟨rfl, .text id t, Storage.Takes.eq_some (.text kind), .text kind, rfl⟩
  | bytes kind =>
      rw [kind] at holds ⊢
      obtain ⟨b, read⟩ := holds
      obtain ⟨id, rfl⟩ := prepared
      refine (decode_gives s read id).imp ?_
      rintro _ ⟨bytesId, rfl⟩
      refine ⟨rfl, .bytes bytesId b, Storage.Takes.eq_some (.bytes kind), .bytes kind, ?_⟩
      exact congrArg _ (Text.Base64.encode_of_decode? read)
  | @legacyEnum name e n kind found legacy =>
      rw [kind, legacy] at holds
      rw [kind]
      obtain ⟨e', v, found', declared, rfl⟩ := holds
      cases prepared
      change Gives ((Signature.enumForNumber name).act (.ofSchema s) [.int v.number.toInt64.toInt32]) _
      rw [narrowed]
      refine (forNumber_gives found' declared).imp ?_
      rintro _ ⟨id, rfl⟩
      exact ⟨rfl, .int v.number, Storage.Takes.eq_some (.enumConst kind), .enum kind, rfl⟩
  | modernEnum kind modern =>
      rw [kind, modern] at holds
      rw [kind]
      obtain ⟨k, rfl⟩ := holds
      cases prepared
      refine .pure ⟨rfl, .int k, ?_, .enum kind, rfl⟩
      rw [narrowed]
      exact Storage.Takes.eq_some (.modernEnum kind modern)
  | @message id data kind other =>
      rw [kind] at holds ⊢
      obtain ⟨-, -, valid⟩ := holds
      cases prepared
      change Gives (castFrom (.message data.typeName) (.message data.typeName) _) _
      rw [castFrom_message]
      refine .pure ⟨rfl, .message id data, Storage.Takes.eq_some (.message kind),
        .message kind valid.shaped valid.fits, ?_⟩
      simp [Field.logical, Field.sanitizedKind?, kind, other]
  | @sanitized sanitized content kind =>
      rw [kind]
      obtain ⟨id, rfl⟩ := prepared
      have valid (textId : ObjectId) := loaded.wrapper_valid sanitized textId content
      refine (toSafeProto_gives loaded sanitized content id).imp ?_
      rintro _ ⟨messageId, textId, rfl⟩
      refine ⟨rfl, .message messageId _, Storage.Takes.eq_some (.message kind),
        .message kind (valid textId).shaped (valid textId).fits, ?_⟩
      simp [Field.logical, Field.sanitizedKind?, kind, SanitizedKind.ofMessage?_messageName,
        Storage.wrappedText, Record.content?]

theorem operandType_eq (same : c.logicalType = l.type) (boxed : Bool) :
    c.operandType l.type (l.type.given boxed) = c.storageType := by
  unfold Coercion.operandType
  rw [preparedType_eq same]
  cases c with
  | message name =>
      cases l with
      | message id data =>
          cases same
          exact ite_self _
      | _ => cases same
  | bool | int64 | double | text =>
      cases l <;> cases same
      rfl
  | _ => rfl

theorem ofExtensionValue_eq {a : Stored} (stored : Storage.ofValue? f v = some a) (call : Call) :
    Storage.ofExtensionValue call f v = .ok a := by
  have own : Storage.ofExtensionValue call f v = Storage.ofValue call f v := by
    cases Storage.ofValue?_eq_some.mp stored <;> rfl
  rw [own, Storage.ofValue_eq_ok.mpr stored]

/-- An operand that stands for a value is stored as that value. -/
theorem stored_of_operand {l' : LogicalValue} (same : c.logicalType = l.type)
    (operand : Gives (operandFrom (.ofSchema s) c l.type (l.type.given boxed) v)
      (f.Operand s c.storageType l')) (late : Bool) :
    Gives (stored (.ofSchema s) f c l.type (l.type.given boxed) late v) fun a =>
      a.Fits s f ∧ f.logical a = l' := by
  unfold stored
  refine operand.bind fun w operand => ?_
  obtain ⟨a, known, fits, logical⟩ := operand.stored
  cases f.isExtension with
  | false =>
      simp only [Bool.false_eq_true, if_false]
      rw [Storage.ofValue_eq_ok.mpr known]
      exact .pure ⟨fits, logical⟩
  | true =>
      simp only [if_true]
      rw [operandType_eq same]
      have primitive := operand.primitive
      have accepted : Gives (wrapFrom c.storageType w) fun x => ∀ call,
          Storage.ofExtensionValue call f x = .ok a := by
        unfold wrapFrom
        cases wraps : c.storageType.isPrimitive with
        | false =>
            simp only [Bool.false_eq_true, if_false]
            exact .pure (ofExtensionValue_eq known)
        | true =>
            rw [wraps, if_pos rfl] at primitive
            simp only [if_true]
            rw [if_pos primitive]
            exact fun m => ⟨_, _, rfl, fun _ => Storage.ofValue_eq_ok.mpr known⟩
      refine accepted.bind fun x accepted => ?_
      rw [accepted]
      cases late with
      | false => exact .pure ⟨fits, logical⟩
      | true => exact fun m => ⟨_, _, rfl, fits, logical⟩

end Filling

end MessageCode
