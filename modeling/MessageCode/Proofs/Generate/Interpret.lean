import MessageCode.Generate.Shape
import MessageCode.Proofs.Generate.Turns
import MessageCode.Proofs.Machine.Logical
import MessageCode.Proofs.Machine.Operands
import MessageCode.Proofs.Schema.Names

/-!
From stored values to logical ones. What the getter or the extension lookup of a field gives, the
coercion of the field turns into the native form of the one logical value of the stored value.
-/

namespace MessageCode

open Stateful

namespace Run

variable {α : Type} {P : α → Prop}

theorem ofNative_gives {x : Native α} (h : Gives x P) : Gives (ofNative x) P := by
  intro m
  obtain ⟨a, m', run, holds⟩ := h m
  refine ⟨a, m', ?_, holds⟩
  rw [run_ofNative, run]
  rfl

theorem ofNative_bind {β : Type} (x : Native α) (f : α → Native β) :
    ofNative (x >>= f) = ofNative x >>= fun a => ofNative (f a) := by
  refine Stateful.ext fun m => ?_
  rw [run_ofNative, Stateful.run_bind, Stateful.run_bind, run_ofNative]
  rcases x.run m with ⟨_ | _, _⟩ <;> rfl

end Run

theorem Native.alloc_gives (object : Object) :
    Gives (Native.alloc object) fun v => ∃ id, v = .ref id object :=
  fun _ => ⟨_, _, rfl, _, rfl⟩

namespace Native

variable {s : Schema} {data : MessageData} {m : Message} {method : Method} {f : Field}

theorem call_message (found : s.message? data.typeName = some m)
    (owner : method.owner = .message data.typeName) (onInstance : method.isStatic = false)
    (id : ObjectId) :
    (Host.ofSchema s).call ⟨method, some (.ref id (.message data)), []⟩ =
      match m.method? method.name with
      | none => throw (.unknownMethod method.render)
      | some (.get f) => Storage.readThrough Storage.getterView s data f
      | some (.has f) => pure (.bool (data.isSet f.number))
      | some (.case oneof) =>
          Native.alloc (.oneofCase (data.typeName ++ "." ++ oneof) (caseNumber m oneof data)) := by
  change Native.dispatch s _ >>= _ = _
  unfold Native.dispatch
  rw [owner]
  change Native.callMessage s data.typeName _ >>= _ = _
  unfold Native.callMessage
  rw [found]
  dsimp only
  rw [onInstance]
  have receiver : Native.messageReceiver ⟨method, some (.ref id (.message data)), []⟩
      data.typeName = .ok data := Native.messageReceiver_eq_ok.mpr ⟨id, rfl, rfl⟩
  have name : Call.name ⟨method, some (.ref id (.message data)), []⟩ = method.name := rfl
  rw [receiver, if_neg Bool.false_ne_true, name]
  simp only [ofExcept, pure_bind, Call.describe]
  cases m.method? method.name with
  | none => rfl
  | some found => cases found <;> simp

/-- The test for presence tells whether the field is set. -/
theorem call_hasser (loaded : s.Loaded) (found : s.message? data.typeName = some m)
    (mem : f ∈ m.fields) (id : ObjectId) :
    (Host.ofSchema s).call ⟨Signature.hasser f, some (.ref id (.message data)), []⟩ =
      pure (.bool (data.isSet f.number)) := by
  have container := loaded.container found ((Schema.Loaded.mem_fieldsOf found).mpr (.inl mem))
  have resolved : m.method? (Signature.hasser f).name = some (.has f) :=
    Message.method?_hasser (loaded.apart _ m found).left mem
  rw [call_message found (congrArg _ container) rfl id, resolved]

/-- The discriminant of a oneof holds its number. -/
theorem call_caseGetter (found : s.message? data.typeName = some m) {oneof : String}
    (known : oneof ∈ m.oneofs) (id : ObjectId) :
    (Host.ofSchema s).call
        ⟨Signature.caseGetter data.typeName oneof, some (.ref id (.message data)), []⟩ =
      Native.alloc (.oneofCase (data.typeName ++ "." ++ oneof) (caseNumber m oneof data)) := by
  have resolved : m.method? (Signature.caseGetter data.typeName oneof).name = some (.case oneof) :=
    Message.method?_caseGetter known
  rw [call_message found rfl rfl id, resolved]

end Native

namespace Method

variable {host : Host} {m : Method}

theorem act_onInstance (onInstance : m.isStatic = false) {args : List Value}
    (count : args.length = m.params.length) (id : ObjectId) (object : Object) :
    m.act host (args ++ [.ref id object]) =
      Run.ofNative (host.call ⟨m, some (.ref id object), args.reverse⟩) := by
  rw [act, callOn_onInstance onInstance count]
  rfl

theorem act_receiver (onInstance : m.isStatic = false) (alone : m.params = []) (id : ObjectId)
    (object : Object) :
    m.act host [.ref id object] = Run.ofNative (host.call ⟨m, some (.ref id object), []⟩) := by
  have count : ([] : List Value).length = m.params.length := by rw [alone]; rfl
  exact act_onInstance onInstance count id object

theorem act_argument (onInstance : m.isStatic = false) {t : NativeType} (one : m.params = [t])
    (id : ObjectId) (object : Object) (arg : Value) :
    m.act host [arg, .ref id object] =
      Run.ofNative (host.call ⟨m, some (.ref id object), [arg]⟩) := by
  have count : [arg].length = m.params.length := by rw [one]; rfl
  exact act_onInstance onInstance count id object

theorem act_onType (onType : m.isStatic = true) {args : List Value}
    (count : args.length = m.params.length) :
    m.act host args = Run.ofNative (host.call ⟨m, none, args.reverse⟩) := by
  rw [act, callOn_onType onType count]
  rfl

end Method

inductive Coercion.Covers (s : Schema) (f : Field) : Coercion → Prop
  | bool : f.kind = .bool → Covers s f .bool
  | int32 : f.kind = .int32 → Covers s f .int32
  | int64 : f.kind = .int64 → f.numericAsText = false → Covers s f .int64
  | int64AsText : f.kind = .int64 → f.numericAsText = true → Covers s f .int64AsText
  | float : f.kind = .float → Covers s f .float
  | double : f.kind = .double → Covers s f .double
  | text : f.kind = .text → Covers s f .text
  | bytes : f.kind = .bytes → Covers s f .bytes
  | legacyEnum {name e} : f.kind = .enum name → s.enum? name = some e → f.isModernEnum = false →
      Covers s f (.legacyEnum name)
  | modernEnum {name} : f.kind = .enum name → f.isModernEnum = true → Covers s f (.modernEnum name)
  | message {name} : f.kind = .message name → SanitizedKind.ofMessage? name = none →
      Covers s f (.message name)
  | sanitized {kind} : f.kind = .message kind.messageName → Covers s f (.sanitized kind)

theorem SanitizedKind.messageName_of_ofMessage? {name : String} {kind : SanitizedKind}
    (h : SanitizedKind.ofMessage? name = some kind) : kind.messageName = name := by
  simpa using List.find?_some h

theorem SanitizedKind.ofMessage?_messageName (kind : SanitizedKind) :
    SanitizedKind.ofMessage? kind.messageName = some kind := by
  cases kind <;> rfl

namespace Coercion

variable {s : Schema} {f : Field} {c : Coercion}

theorem covers_of_eq_ok (h : Coercion.of s f = .ok c) : c.Covers s f := by
  unfold Coercion.of at h
  dsimp only at h
  split at h
  · cases h
  · split at h
    case h_1 kind =>
      cases h
      exact .bool kind
    case h_2 kind =>
      cases h
      exact .int32 kind
    case h_3 kind =>
      split at h
      · rename_i marked
        cases h
        exact .int64AsText kind marked
      · rename_i unmarked
        cases h
        exact .int64 kind (by simpa using unmarked)
    case h_4 kind =>
      cases h
      exact .float kind
    case h_5 kind =>
      cases h
      exact .double kind
    case h_6 kind =>
      cases h
      exact .text kind
    case h_7 kind =>
      cases h
      exact .bytes kind
    case h_8 name kind =>
      split at h
      · rename_i known
        obtain ⟨e, found⟩ := Option.isSome_iff_exists.mp known
        split at h
        · rename_i revision
          cases h
          exact .legacyEnum kind found (by simp [Field.isModernEnum, kind, revision])
        · rename_i revision
          cases h
          exact .modernEnum kind (by simp [Field.isModernEnum, kind, revision])
      · cases h
    case h_9 name kind =>
      split at h
      · rename_i sanitized same
        cases h
        rw [← SanitizedKind.messageName_of_ofMessage? same] at kind
        exact .sanitized kind
      · rename_i other
        split at h
        · cases h
          exact .message kind other
        · cases h

theorem exists_of (loaded : f.Loaded (fun name => (s.enum? name).isSome = true)
    (fun name => (s.message? name).isSome = true)) : ∃ c, Coercion.of s f = .ok c := by
  have asText : ¬(f.numericAsText = true ∧ f.kind ≠ .int64) :=
    fun h => h.2 (loaded.asText h.1)
  have known := loaded.kind
  unfold Coercion.of
  rw [if_neg asText]
  cases kind : f.kind with
  | enum name =>
      rw [kind] at known
      change (s.enum? name).isSome = true at known
      dsimp only
      rw [if_pos known]
      cases f.revision <;> exact ⟨_, rfl⟩
  | message name =>
      rw [kind] at known
      change (s.message? name).isSome = true at known
      dsimp only
      cases SanitizedKind.ofMessage? name with
      | some sanitized => exact ⟨_, rfl⟩
      | none => exact ⟨_, if_pos known⟩
  | _ => exact ⟨_, rfl⟩

end Coercion

namespace Shape

variable {s : Schema} {f : Field} {c : Coercion}

theorem of_repeated (coercion : Coercion.of s f = .ok c) (repeated : f.isRepeated = true) :
    Shape.of s f = .ok (.repeated c f.isExtension) := by
  rw [Shape.of, coercion]
  simp only [repeated]
  rfl

theorem exists_of_extension (coercion : Coercion.of s f = .ok c) (singular : f.isRepeated = false)
    (extension : f.isExtension = true) : ∃ presence, Shape.of s f = .ok (.extension c presence) := by
  rw [Shape.of, coercion, singular, extension]
  exact ⟨_, rfl⟩

theorem exists_of_declared (coercion : Coercion.of s f = .ok c) (singular : f.isRepeated = false)
    (own : f.isExtension = false) :
    ∃ test, Shape.of s f = .ok (.singular c (PresencePolicy.of f) test) := by
  rw [Shape.of, coercion, singular, own]
  exact ⟨_, rfl⟩

end Shape

def Stored.IsOf (s : Schema) (a : Stored) : FieldKind → Prop
  | .bool => ∃ b, a = .bool b
  | .int32 => ∃ n, a = .int n
  | .int64 => ∃ n, a = .long n
  | .float => ∃ x, a = .float x
  | .double => ∃ x, a = .double x
  | .text => ∃ id t, a = .text id t
  | .bytes => ∃ id b, a = .bytes id b
  | .enum _ => ∃ n, a = .int n
  | .message name => ∃ id data, a = .message id data ∧ data.typeName = name ∧ Valid s data

theorem Stored.Fits.isOf {s : Schema} {f : Field} {a : Stored} (h : a.Fits s f) :
    a.IsOf s f.kind := by
  cases h with
  | bool kind =>
      rw [kind]
      exact ⟨_, rfl⟩
  | int kind =>
      rw [kind]
      exact ⟨_, rfl⟩
  | enum kind =>
      rw [kind]
      exact ⟨_, rfl⟩
  | long kind =>
      rw [kind]
      exact ⟨_, rfl⟩
  | float kind =>
      rw [kind]
      exact ⟨_, rfl⟩
  | double kind =>
      rw [kind]
      exact ⟨_, rfl⟩
  | text kind =>
      rw [kind]
      exact ⟨_, _, rfl⟩
  | bytes kind =>
      rw [kind]
      exact ⟨_, _, rfl⟩
  | message kind shaped fits =>
      rw [kind]
      exact ⟨_, _, rfl, rfl, shaped, fits⟩

/-- What stored values are interpreted as, for every coercion. -/
inductive Coercion.Interprets (s : Schema) : Coercion → Stored → LogicalValue → Prop
  | bool (b) : Interprets s .bool (.bool b) (.bool b)
  | int32 (n) : Interprets s .int32 (.int n) (.int n.toInt64)
  | int64 (n) : Interprets s .int64 (.long n) (.int n)
  | int64AsText (n) : Interprets s .int64AsText (.long n) (.text (toString n.toInt))
  | float (x) : Interprets s .float (.float x) (.float x.widen)
  | double (x) : Interprets s .double (.double x) (.float x)
  | text (id t) : Interprets s .text (.text id t) (.text t)
  | bytes (id b) : Interprets s .bytes (.bytes id b) (.text (Text.Base64.encode b))
  | legacyEnum {name} (n) : Interprets s (.legacyEnum name) (.int n) (.int n.toInt64)
  | modernEnum {name} (n) : Interprets s (.modernEnum name) (.int n) (.int n.toInt64)
  | message (id data) : Interprets s (.message data.typeName) (.message id data) (.message id data)
  | sanitized {kind} (id data) : data.typeName = kind.messageName → Valid s data →
      Interprets s (.sanitized kind) (.message id data) (.sanitized kind (Storage.wrappedText data))

/-- A stored value of a field is interpreted as its logical value. -/
theorem Coercion.Covers.interprets {s : Schema} {f : Field} {c : Coercion} {a : Stored}
    (covers : c.Covers s f) (of : a.IsOf s f.kind) : c.Interprets s a (f.logical a) := by
  cases covers with
  | bool kind =>
      rw [kind] at of
      obtain ⟨b, rfl⟩ := of
      exact .bool b
  | int32 kind =>
      rw [kind] at of
      obtain ⟨n, rfl⟩ := of
      exact .int32 n
  | int64 kind unmarked =>
      rw [kind] at of
      obtain ⟨n, rfl⟩ := of
      have logical : f.logical (.long n) = .int n := by simp [Field.logical, unmarked]
      rw [logical]
      exact .int64 n
  | int64AsText kind marked =>
      rw [kind] at of
      obtain ⟨n, rfl⟩ := of
      have logical : f.logical (.long n) = .text (toString n.toInt) := if_pos marked
      rw [logical]
      exact .int64AsText n
  | float kind =>
      rw [kind] at of
      obtain ⟨x, rfl⟩ := of
      exact .float x
  | double kind =>
      rw [kind] at of
      obtain ⟨x, rfl⟩ := of
      exact .double x
  | text kind =>
      rw [kind] at of
      obtain ⟨id, t, rfl⟩ := of
      exact .text id t
  | bytes kind =>
      rw [kind] at of
      obtain ⟨id, b, rfl⟩ := of
      exact .bytes id b
  | legacyEnum kind =>
      rw [kind] at of
      obtain ⟨n, rfl⟩ := of
      exact .legacyEnum n
  | modernEnum kind =>
      rw [kind] at of
      obtain ⟨n, rfl⟩ := of
      exact .modernEnum n
  | message kind other =>
      rw [kind] at of
      obtain ⟨id, data, rfl, rfl, -⟩ := of
      have logical : f.logical (.message id data) = .message id data := by
        simp [Field.logical, Field.sanitizedKind?, kind, other]
      rw [logical]
      exact .message id data
  | @sanitized sanitized kind =>
      rw [kind] at of
      obtain ⟨id, data, rfl, typeName, valid⟩ := of
      have logical : f.logical (.message id data) =
          .sanitized sanitized (Storage.wrappedText data) := by
        simp [Field.logical, Field.sanitizedKind?, kind, SanitizedKind.ofMessage?_messageName]
      rw [logical]
      exact .sanitized id data typeName valid

namespace Storage

variable {f : Field}

theorem getterView_eq (other : ∀ name, f.kind = .enum name → f.isModernEnum = true) (a : Stored) :
    getterView f a = pure a.toValue := by
  unfold getterView
  split
  · rfl
  · rename_i legacy
    unfold enumView
    split
    · rename_i name n kind
      exact absurd (other name kind) legacy
    · rfl

theorem getterView_legacyEnum {name : String} (kind : f.kind = .enum name)
    (legacy : f.isModernEnum = false) (n : Int32) :
    getterView f (.int n) = Native.alloc (.enumConst name n) := by
  unfold getterView enumView
  rw [legacy, kind]
  rfl

end Storage

namespace Numeric

theorem ofRatio_zero (f : Format) (negative : Bool) (denominator : Nat) :
    Binary.ofRatio f negative 0 denominator = .zero f negative := by
  unfold Binary.ofRatio Binary.zero
  refine congrArg (Binary.assemble f negative) ?_
  unfold Binary.bodyOfUnits divideToEven
  simp [twoTo]

theorem widen_zero : Single.widen (.zero .single false) = .zero .double false := by
  have read : (Binary.zero .single false).read = .finite false 0 := by decide
  unfold Single.widen Binary.convert
  rw [read]
  exact ofRatio_zero ..

end Numeric

namespace Storage

variable {s : Schema} {f : Field} {l : LogicalValue}

/-- An unset field reads as its explicit default. -/
theorem explicit_gives {enums messages : String → Prop} (loaded : f.Loaded enums messages)
    {d : DefaultValue} (given : f.default = some d) :
    Gives (Storage.default s f) fun a => a.IsOf s f.kind ∧ f.logical a = d.logical f := by
  have unmarked : f.kind ≠ .int64 → f.numericAsText = false := by
    intro other
    by_contra marked
    exact other (loaded.asText (by simpa using marked))
  obtain ⟨-, fits⟩ := loaded.default d given
  unfold Storage.default
  cases d with
  | bool b =>
      change f.kind = .bool at fits
      rw [fits, given]
      exact .pure ⟨⟨_, rfl⟩, rfl⟩
  | int n =>
      rcases fits with kind | ⟨kind, same⟩
      · rw [kind, given]
        exact .pure ⟨⟨_, rfl⟩, rfl⟩
      · have marked := unmarked (by simp [kind])
        rw [kind, given]
        refine .pure ⟨⟨_, rfl⟩, ?_⟩
        simp [Field.logical, DefaultValue.logical, same, marked]
  | float x =>
      rcases fits with kind | kind
      · rw [kind, given]
        refine .pure ⟨⟨_, rfl⟩, ?_⟩
        simp [Field.logical, DefaultValue.logical, kind]
      · rw [kind, given]
        refine .pure ⟨⟨_, rfl⟩, ?_⟩
        simp [Field.logical, DefaultValue.logical, kind]
  | text t =>
      rcases fits with kind | kind
      · rw [kind, given]
        refine fun m => ⟨_, _, rfl, ⟨_, _, rfl⟩, ?_⟩
        simp [Field.logical, DefaultValue.logical, kind]
      · rw [kind, given]
        refine fun m => ⟨_, _, rfl, ⟨_, _, rfl⟩, ?_⟩
        simp [Field.logical, DefaultValue.logical, kind]
  | enum n =>
      obtain ⟨name, kind⟩ := fits
      rw [kind, given]
      exact .pure ⟨⟨_, rfl⟩, rfl⟩

/-- An unset field without an explicit default reads as the default of its kind. -/
theorem implicit_gives (given : f.default = none) (implicit : f.implicit? s = some l) :
    Gives (Storage.default s f) fun a => a.IsOf s f.kind ∧ f.logical a = l := by
  unfold Field.implicit? at implicit
  unfold Storage.default
  rw [given]
  cases kind : f.kind with
  | bool =>
      rw [kind] at implicit
      cases implicit
      exact .pure ⟨⟨_, rfl⟩, rfl⟩
  | int32 =>
      rw [kind] at implicit
      cases implicit
      exact .pure ⟨⟨_, rfl⟩, rfl⟩
  | int64 =>
      rw [kind] at implicit
      cases implicit
      exact .pure ⟨⟨_, rfl⟩, rfl⟩
  | float =>
      rw [kind] at implicit
      cases implicit
      exact .pure ⟨⟨_, rfl⟩, congrArg LogicalValue.float Numeric.widen_zero⟩
  | double =>
      rw [kind] at implicit
      cases implicit
      exact .pure ⟨⟨_, rfl⟩, rfl⟩
  | text =>
      rw [kind] at implicit
      cases implicit
      exact fun m => ⟨_, _, rfl, ⟨_, _, rfl⟩, rfl⟩
  | bytes =>
      rw [kind] at implicit
      cases implicit
      exact fun m => ⟨_, _, rfl, ⟨_, _, rfl⟩, rfl⟩
  | enum name =>
      rw [kind] at implicit
      cases implicit
      refine .pure ⟨⟨_, rfl⟩, congrArg LogicalValue.int ?_⟩
      cases f.isModernEnum with
      | true => rfl
      | false => cases s.enum? name <;> rfl
  | message name =>
      rw [kind] at implicit
      cases implicit

theorem default_gives {enums messages : String → Prop} (loaded : f.Loaded enums messages)
    (unset : f.unset? s = some l) :
    Gives (Storage.default s f) fun a => a.IsOf s f.kind ∧ f.logical a = l := by
  unfold Field.unset? at unset
  cases given : f.default with
  | none =>
      rw [given] at unset
      exact implicit_gives given unset
  | some d =>
      rw [given] at unset
      cases unset
      exact explicit_gives loaded given

/-- What is seen of a field of a valid message is of a value of its kind that is stored, or else of the
default. -/
theorem stored_or_unset {data : MessageData} {m : Message} (loaded : s.Loaded) (valid : Valid s data)
    (found : s.message? data.typeName = some m) (mem : f ∈ s.fieldsOf data.typeName)
    (seen : f.seen? s data = some l) :
    (∃ a : Stored, data.content? f.number = some (.single a) ∧ a.IsOf s f.kind ∧ f.logical a = l) ∨
      data.content? f.number = none ∧ f.unset? s = some l := by
  rw [Field.seen?] at seen
  cases set : data.content? f.number with
  | some content =>
      rw [set] at seen
      obtain ⟨-, fits⟩ := valid.content loaded found mem set
      cases content with
      | single a =>
          cases seen
          exact .inl ⟨a, rfl, (fits a (List.mem_singleton.mpr rfl)).isOf, rfl⟩
      | repeated items => cases seen
  | none =>
      rw [set] at seen
      exact .inr ⟨rfl, seen⟩

/-- A singular field reads as what is seen of it, whatever the view. -/
theorem readThrough_gives {view : Field → Stored → Native Value} {act : Value → Run Value}
    {P : LogicalValue → Value → Prop} {data : MessageData} {m : Message} (loaded : s.Loaded) (valid : Valid s data)
    (found : s.message? data.typeName = some m) (mem : f ∈ s.fieldsOf data.typeName)
    (singular : f.label = .singular) (seen : f.seen? s data = some l)
    (gives : ∀ a : Stored, a.IsOf s f.kind →
      Gives (Run.ofNative (view f a) >>= act) (P (f.logical a))) :
    Gives (Run.ofNative (readThrough view s data f) >>= act) (P l) := by
  rw [readThrough]
  rcases stored_or_unset loaded valid found mem seen with ⟨a, set, of, rfl⟩ | ⟨set, unset⟩
  · rw [set]
    exact gives a of
  · rw [set]
    dsimp only
    rw [if_neg (by simp [Field.isRepeated, singular]), Run.ofNative_bind, bind_assoc]
    refine (Run.ofNative_gives (default_gives (loaded.field found mem) unset)).bind ?_
    rintro a ⟨of, rfl⟩
    exact gives a of

theorem extensionView_wrapper {a : Stored}
    (other : ∀ name, f.kind = .enum name → f.isModernEnum = true)
    (primitive : a.toValue.primitiveType?.isSome = true) :
    extensionView f a = Native.alloc (.wrapper a.toValue) := by
  unfold extensionView
  split
  · rename_i name kind
    rw [if_pos (other name kind)]
  · cases primitive
  · cases primitive
  · cases primitive
  · rfl

theorem extensionView_object {a : Stored} (other : ∀ name, f.kind ≠ .enum name)
    (object : a.toValue.primitiveType? = none) : extensionView f a = pure a.toValue := by
  unfold extensionView
  cases kind : f.kind with
  | enum name => exact absurd kind (other name)
  | _ =>
      cases a with
      | text id t => rfl
      | bytes id b => rfl
      | message id data => rfl
      | _ => cases object

theorem extensionView_legacyEnum {name : String} (kind : f.kind = .enum name)
    (legacy : f.isModernEnum = false) (n : Int32) :
    extensionView f (.int n) = Native.alloc (.enumConst name n) := by
  unfold extensionView enumView
  rw [legacy, kind]
  rfl

end Storage

namespace Coercion

variable {s : Schema} {f : Field} {c : Coercion}

def encodeAct (host : Host) (v : Value) : Run Value := do
  let array ← Signature.byteStringToArray.act host [v]
  let codec ← Signature.base64.act host []
  Signature.base64Encode.act host [array, codec]

theorem encodeBytes_turns (host : Host) :
    Turns host (.ref .byteString) .text encodeBytes (encodeAct host) :=
  (Turns.invoke rfl (.refl _)).seq (.pushSwapInvoke (.invoke rfl rfl) rfl (.refl _))

theorem encodeBytes_gives (s : Schema) (id : ObjectId) (b : List UInt8) :
    Gives (encodeAct (.ofSchema s) (.ref id (.byteString b)))
      (LogicalValue.text (Text.Base64.encode b)).Native :=
  fun _ => ⟨_, _, rfl, _, rfl⟩

theorem enumNumber_gives {name : String} {e : EnumType} (found : s.enum? name = some e)
    (id : ObjectId) (n : Int32) :
    Gives ((Signature.enumNumber name).act (.ofSchema s) [.ref id (.enumConst name n)] >>=
      fun v => Run.ofExcept (v.convert .long)) (LogicalValue.int n.toInt64).Native := by
  have called : (Host.ofSchema s).call ⟨Signature.enumNumber name, some (.ref id (.enumConst name n)), []⟩
      = pure (.int n) := by
    change Native.callEnum s name _ >>= _ = _
    unfold Native.callEnum
    rw [found]
    rfl
  rw [Method.act_receiver rfl rfl, called]
  exact .pure rfl

theorem wrappedValue_gives (loaded : s.Loaded) {data : MessageData} (valid : Valid s data)
    {kind : SanitizedKind} (typeName : data.typeName = kind.messageName) (id : ObjectId) :
    Gives ((Signature.wrappedValue kind).act (.ofSchema s) [.ref id (.message data)])
      (LogicalValue.sanitized kind (Storage.wrappedText data)).Native := by
  obtain ⟨f, fields, number, fieldKind, label, default, method⟩ : ∃ f : Field,
      (SanitizedKind.wrapper kind).fields = [f] ∧ f.number = 1 ∧ f.kind = .text ∧
        f.label = .singular ∧ f.default = none ∧
        (SanitizedKind.wrapper kind).method? ("get_" ++ kind.wrappedField) = some (.get f) :=
    ⟨_, rfl, rfl, rfl, rfl, rfl, by cases kind <;> rfl⟩
  have found : s.message? data.typeName = some (SanitizedKind.wrapper kind) := by
    rw [typeName, loaded.wrapper]
  have mem : f ∈ s.fieldsOf data.typeName := by
    rw [Schema.Loaded.fieldsOf_eq found, fields]
    exact List.mem_append_left _ (List.mem_singleton.mpr rfl)
  have called : (Host.ofSchema s).call ⟨Signature.wrappedValue kind, some (.ref id (.message data)), []⟩
      = Storage.readThrough Storage.getterView s data f := by
    have resolved : (SanitizedKind.wrapper kind).method? (Signature.wrappedValue kind).name =
        some (.get f) := method
    rw [Native.call_message found (congrArg _ typeName.symm) rfl id, resolved]
  have seen : f.seen? s data = some (.text (Storage.wrappedText data)) := by
    unfold Field.seen? Storage.wrappedText
    rcases set : data.content? f.number with _ | a | items
    · rw [number] at set
      rw [set]
      simp [Field.unset?, default, Field.implicit?, fieldKind]
    · obtain ⟨-, fits⟩ := valid.content loaded found mem set
      have of := (fits a (List.mem_singleton.mpr rfl)).isOf
      rw [fieldKind] at of
      obtain ⟨id, t, rfl⟩ := of
      rw [number] at set
      rw [set]
      rfl
    · obtain ⟨absurd, -⟩ := valid.content loaded found mem set
      rw [label] at absurd
      cases absurd
  rw [Method.act_receiver rfl rfl, called, ← bind_pure (Run.ofNative _)]
  change Gives _ (LogicalValue.text (Storage.wrappedText data)).Native
  refine Storage.readThrough_gives (P := LogicalValue.Native) loaded valid found mem label seen ?_
  intro a of
  rw [fieldKind] at of
  obtain ⟨id, t, rfl⟩ := of
  rw [Storage.getterView_eq (by simp [fieldKind])]
  exact .pure ⟨id, rfl⟩

/-- The code for what the getter gives leaves the native form of the logical value. -/
theorem interpret_native (covers : c.Covers s f) (loaded : s.Loaded) :
    ∃ act, Turns (.ofSchema s) c.storageType c.nativeType c.interpret act ∧
      ∀ a : Stored, a.IsOf s f.kind →
        Gives (Run.ofNative (Storage.getterView f a) >>= act) (f.logical a).Native := by
  obtain ⟨act, turns, gives⟩ : ∃ act, Turns (.ofSchema s) c.storageType c.nativeType c.interpret act ∧
      ∀ a l, c.Interprets s a l → Gives (Run.ofNative (Storage.getterView f a) >>= act) l.Native := by
    cases covers with
    | bool kind =>
        refine ⟨_, .pure, fun | _, _, .bool b => ?_⟩
        rw [Storage.getterView_eq (by simp [kind])]
        exact .pure rfl
    | int32 kind =>
        refine ⟨_, .convert (by simp [storageType, nativeType]) rfl rfl, fun | _, _, .int32 n => ?_⟩
        rw [Storage.getterView_eq (by simp [kind])]
        exact .pure rfl
    | int64 kind =>
        refine ⟨_, .pure, fun | _, _, .int64 n => ?_⟩
        rw [Storage.getterView_eq (by simp [kind])]
        exact .pure rfl
    | int64AsText kind =>
        refine ⟨_, .invoke rfl (.refl _), fun | _, _, .int64AsText n => ?_⟩
        rw [Storage.getterView_eq (by simp [kind])]
        exact fun m => ⟨_, _, rfl, _, rfl⟩
    | float kind =>
        refine ⟨_, .convert (by simp [storageType, nativeType]) rfl rfl, fun | _, _, .float x => ?_⟩
        rw [Storage.getterView_eq (by simp [kind])]
        exact .pure rfl
    | double kind =>
        refine ⟨_, .pure, fun | _, _, .double x => ?_⟩
        rw [Storage.getterView_eq (by simp [kind])]
        exact .pure rfl
    | text kind =>
        refine ⟨_, .pure, fun | _, _, .text id t => ?_⟩
        rw [Storage.getterView_eq (by simp [kind])]
        exact .pure ⟨id, rfl⟩
    | bytes kind =>
        refine ⟨_, encodeBytes_turns _, fun | _, _, .bytes id b => ?_⟩
        rw [Storage.getterView_eq (by simp [kind])]
        exact encodeBytes_gives s id b
    | @legacyEnum name e kind found legacy =>
        have fits : Fits [.ref (.enum name)] (Signature.enumNumber name).operands := .refl _
        refine ⟨_, (Turns.invoke rfl fits).seq (.convert (by simp [nativeType]) rfl rfl),
          fun | _, _, .legacyEnum n => ?_⟩
        rw [Storage.getterView_legacyEnum kind legacy]
        refine (Run.ofNative_gives (Native.alloc_gives _)).bind ?_
        rintro _ ⟨id, rfl⟩
        exact enumNumber_gives found id n
    | modernEnum kind modern =>
        refine ⟨_, .convert (by simp [storageType, nativeType]) rfl rfl, fun | _, _, .modernEnum n => ?_⟩
        rw [Storage.getterView_eq (by simp [modern])]
        exact .pure rfl
    | message kind =>
        refine ⟨_, .checkCast_upcast (NativeType.assignableTo_refl _) rfl (by simp [storageType]),
          fun | _, _, .message id data => ?_⟩
        rw [Storage.getterView_eq (by simp [kind])]
        exact .pure rfl
    | @sanitized sanitized kind =>
        have fits : Fits [.message sanitized.messageName] (Signature.wrappedValue sanitized).operands :=
          .refl _
        refine ⟨_, (Turns.checkCast_upcast (t := .message sanitized.messageName)
          (NativeType.assignableTo_refl _) rfl (by simp)).seq (.invoke rfl fits),
          fun | _, _, .sanitized id data typeName valid => ?_⟩
        rw [Storage.getterView_eq (by simp [kind])]
        exact wrappedValue_gives loaded valid typeName id
  exact ⟨act, turns, fun a of => gives a _ (covers.interprets of)⟩

theorem castExtension_turns {host : Host} (r : RefType) (other : r ≠ .object) :
    Turns host Signature.object (.ref r) (Assembler.checkCast r) (Turns.castTo r) := by
  refine .checkCast rfl (.inl ?_)
  cases r with
  | object => exact absurd rfl other
  | _ => rfl

theorem interpretExtension_native (covers : c.Covers s f) (loaded : s.Loaded) :
    ∃ act, Turns (.ofSchema s) Signature.object c.nativeType c.interpretExtension act ∧
      ∀ a : Stored, a.IsOf s f.kind →
        Gives (Run.ofNative (Storage.extensionView f a) >>= act) (f.logical a).Native := by
  obtain ⟨act, turns, gives⟩ : ∃ act,
      Turns (.ofSchema s) Signature.object c.nativeType c.interpretExtension act ∧
        ∀ a l, c.Interprets s a l →
          Gives (Run.ofNative (Storage.extensionView f a) >>= act) l.Native := by
    cases covers with
    | bool kind =>
        refine ⟨_, (castExtension_turns (.wrapper .bool) nofun).seq (.invoke rfl (.refl _)),
          fun | _, _, .bool b => ?_⟩
        rw [Storage.extensionView_wrapper (by simp [kind]) rfl]
        exact fun m => ⟨_, _, rfl, rfl⟩
    | int32 kind =>
        refine ⟨_, (castExtension_turns .number nofun).seq (.invoke rfl (.refl _)),
          fun | _, _, .int32 n => ?_⟩
        rw [Storage.extensionView_wrapper (by simp [kind]) rfl]
        exact fun m => ⟨_, _, rfl, rfl⟩
    | int64 kind =>
        refine ⟨_, (castExtension_turns .number nofun).seq (.invoke rfl (.refl _)),
          fun | _, _, .int64 n => ?_⟩
        rw [Storage.extensionView_wrapper (by simp [kind]) rfl]
        exact fun m => ⟨_, _, rfl, rfl⟩
    | int64AsText kind =>
        refine ⟨_, .invoke rfl (.refl _), fun | _, _, .int64AsText n => ?_⟩
        rw [Storage.extensionView_wrapper (by simp [kind]) rfl]
        exact fun m => ⟨_, _, rfl, _, rfl⟩
    | float kind =>
        refine ⟨_, (castExtension_turns .number nofun).seq (.invoke rfl (.refl _)),
          fun | _, _, .float x => ?_⟩
        rw [Storage.extensionView_wrapper (by simp [kind]) rfl]
        exact fun m => ⟨_, _, rfl, rfl⟩
    | double kind =>
        refine ⟨_, (castExtension_turns .number nofun).seq (.invoke rfl (.refl _)),
          fun | _, _, .double x => ?_⟩
        rw [Storage.extensionView_wrapper (by simp [kind]) rfl]
        exact fun m => ⟨_, _, rfl, rfl⟩
    | text kind =>
        refine ⟨_, castExtension_turns .text nofun, fun | _, _, .text id t => ?_⟩
        rw [Storage.extensionView_object (by simp [kind]) rfl]
        exact .pure ⟨id, rfl⟩
    | bytes kind =>
        refine ⟨_, (castExtension_turns .byteString nofun).seq (encodeBytes_turns _),
          fun | _, _, .bytes id b => ?_⟩
        rw [Storage.extensionView_object (by simp [kind]) rfl]
        exact encodeBytes_gives s id b
    | @legacyEnum name e kind found legacy =>
        have fits : Fits [.ref (.enum name)] (Signature.enumNumber name).operands := .refl _
        refine ⟨_, (castExtension_turns (.enum name) nofun).seq
          ((Turns.invoke rfl fits).seq (.convert (by simp [nativeType]) rfl rfl)),
          fun | _, _, .legacyEnum n => ?_⟩
        rw [Storage.extensionView_legacyEnum kind legacy]
        refine (Run.ofNative_gives (Native.alloc_gives _)).bind ?_
        rintro _ ⟨id, rfl⟩
        rw [Turns.castTo_enumConst, pure_bind]
        exact enumNumber_gives found id n
    | modernEnum kind modern =>
        refine ⟨_, (castExtension_turns .number nofun).seq (.invoke rfl (.refl _)),
          fun | _, _, .modernEnum n => ?_⟩
        rw [Storage.extensionView_wrapper (by simp [modern]) rfl]
        exact fun m => ⟨_, _, rfl, rfl⟩
    | @message name kind =>
        refine ⟨_, castExtension_turns (.message name) nofun, fun | _, _, .message id data => ?_⟩
        rw [Storage.extensionView_object (by simp [kind]) rfl]
        change Gives (Turns.castTo _ (.ref id (.message _))) _
        rw [Turns.castTo_message rfl]
        exact .pure rfl
    | @sanitized sanitized kind =>
        have fits : Fits [.message sanitized.messageName] (Signature.wrappedValue sanitized).operands :=
          .refl _
        refine ⟨_, (castExtension_turns (.message sanitized.messageName) nofun).seq (.invoke rfl fits),
          fun | _, _, .sanitized id data typeName valid => ?_⟩
        rw [Storage.extensionView_object (by simp [kind]) rfl]
        change Gives (Turns.castTo _ (.ref id (.message _)) >>= _) _
        rw [Turns.castTo_message typeName, pure_bind]
        exact wrappedValue_gives loaded valid typeName id
  exact ⟨act, turns, fun a of => gives a _ (covers.interprets of)⟩

end Coercion

end MessageCode
