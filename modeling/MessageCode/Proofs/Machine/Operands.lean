import MessageCode.Machine.Native.Message
import MessageCode.Proofs.Fallible

/-!
What the checks that operations share let through: receivers and arguments of the right form, and operands
that can be stored.
-/

namespace MessageCode

namespace Call

variable {c : Call} {index : Nat} {id : ObjectId} {o : Object} {v : Value}

theorem receiverValue_eq_ok : c.receiverValue = .ok v ↔ c.receiver = some v := by
  unfold receiverValue
  cases c.receiver with
  | none => exact ⟨nofun, nofun⟩
  | some w => simp

theorem receiverObject_eq_ok : c.receiverObject = .ok (id, o) ↔ c.receiver = some (.ref id o) := by
  rw [← receiverValue_eq_ok]
  unfold receiverObject
  rw [Fallible.bind_eq_ok]
  constructor
  · rintro ⟨v, given, found⟩
    cases v with
    | ref =>
        cases found
        exact given
    | _ => cases found
  · exact fun given => ⟨_, given, rfl⟩

theorem arg_eq_ok : c.arg index = .ok v ↔ c.args[index]? = some v := by
  unfold arg
  cases c.args[index]? with
  | none => exact ⟨nofun, nofun⟩
  | some w => simp

theorem objectArg_eq_ok : c.objectArg index = .ok (id, o) ↔ c.arg index = .ok (.ref id o) := by
  unfold objectArg
  rw [Fallible.bind_eq_ok]
  constructor
  · rintro ⟨v, given, found⟩
    cases v with
    | ref =>
        cases found
        exact given
    | _ => cases found
  · exact fun given => ⟨_, given, rfl⟩

theorem intArg_eq_ok {n : Int32} : c.intArg index = .ok n ↔ c.arg index = .ok (.int n) := by
  unfold intArg
  rw [Fallible.bind_eq_ok]
  constructor
  · rintro ⟨v, given, found⟩
    cases v with
    | int =>
        cases found
        exact given
    | _ => cases found
  · exact fun given => ⟨_, given, rfl⟩

end Call

namespace Native

variable {c : Call} {id : ObjectId} {typeName : String}

theorem builderReceiver_eq_ok :
    builderReceiver c = .ok (id, typeName) ↔ c.receiver = some (.ref id (.builder typeName)) := by
  rw [← Call.receiverObject_eq_ok]
  unfold builderReceiver
  rw [Fallible.bind_eq_ok]
  constructor
  · rintro ⟨⟨i, o⟩, given, found⟩
    cases o with
    | builder =>
        cases found
        exact given
    | _ => cases found
  · exact fun given => ⟨_, given, rfl⟩

theorem messageReceiver_eq_ok {data : MessageData} : messageReceiver c typeName = .ok data ↔
    ∃ id, c.receiver = some (.ref id (.message data)) ∧ data.typeName = typeName := by
  simp only [← Call.receiverObject_eq_ok]
  unfold messageReceiver
  rw [Fallible.bind_eq_ok]
  constructor
  · rintro ⟨⟨i, o⟩, given, found⟩
    cases o with
    | message inside =>
        dsimp only at found
        split at found
        · rename_i same
          cases found
          exact ⟨i, given, same⟩
        · cases found
    | _ => cases found
  · rintro ⟨i, given, same⟩
    exact ⟨_, given, if_pos same⟩

end Native

namespace Storage

/-- The values that can be stored in a field, by its kind, and what is stored of them. -/
inductive Takes (f : Field) : Value → Stored → Prop
  | bool {b} : f.kind = .bool → Takes f (.bool b) (.bool b)
  | int {n} : f.kind = .int32 → Takes f (.int n) (.int n)
  | modernEnum {name n} : f.kind = .enum name → f.isModernEnum = true → Takes f (.int n) (.int n)
  | long {n} : f.kind = .int64 → Takes f (.long n) (.long n)
  | float {x} : f.kind = .float → Takes f (.float x) (.float x)
  | double {x} : f.kind = .double → Takes f (.double x) (.double x)
  | enumConst {name id n} : f.kind = .enum name → Takes f (.ref id (.enumConst name n)) (.int n)
  | text {id t} : f.kind = .text → Takes f (.ref id (.text t)) (.text id t)
  | bytes {id b} : f.kind = .bytes → Takes f (.ref id (.byteString b)) (.bytes id b)
  | message {id data} : f.kind = .message data.typeName →
      Takes f (.ref id (.message data)) (.message id data)

variable {c : Call} {f : Field} {v : Value} {a : Stored}

theorem Takes.eq_some (h : Takes f v a) : ofValue? f v = some a := by
  unfold ofValue?
  cases h with
  | bool kind => exact if_pos kind
  | int kind => exact if_pos (.inl kind)
  | modernEnum kind modern => exact if_pos (.inr modern)
  | long kind => exact if_pos kind
  | float kind => exact if_pos kind
  | double kind => exact if_pos kind
  | enumConst kind =>
      rw [kind]
      exact if_pos rfl
  | text kind => rw [kind]
  | bytes kind => rw [kind]
  | message kind =>
      rw [kind]
      exact if_pos rfl

theorem Takes.of_eq_some (h : ofValue? f v = some a) : Takes f v a := by
  unfold ofValue? at h
  cases v with
  | null => cases h
  | int n =>
      dsimp only at h
      split at h
      · rename_i kind
        cases h
        rcases kind with kind | modern
        · exact .int kind
        · cases kind : f.kind with
          | enum name => exact .modernEnum kind modern
          | _ => simp [Field.isModernEnum, kind] at modern
      · cases h
  | ref id o =>
      dsimp only at h
      split at h
      · rename_i kind
        split at h
        · rename_i same
          subst same
          cases h
          exact .enumConst kind
        · cases h
      · rename_i kind
        cases h
        exact .text kind
      · rename_i kind
        cases h
        exact .bytes kind
      · rename_i kind
        split at h
        · rename_i same
          subst same
          cases h
          exact .message kind
        · cases h
      · cases h
  | _ =>
      dsimp only at h
      split at h
      · rename_i kind
        cases h
        constructor
        exact kind
      · cases h

theorem ofValue?_eq_some : ofValue? f v = some a ↔ Takes f v a := ⟨Takes.of_eq_some, Takes.eq_some⟩

theorem ofValue_eq_ok : ofValue c f v = .ok a ↔ ofValue? f v = some a := by
  unfold ofValue
  cases isNull : v.isNull with
  | true =>
      cases v with
      | null => exact ⟨nofun, nofun⟩
      | _ => cases isNull
  | false =>
      rw [if_neg Bool.false_ne_true]
      cases ofValue? f v with
      | none => exact ⟨nofun, nofun⟩
      | some _ => simp

theorem exists_of_ofExtensionValue (h : ofExtensionValue c f v = .ok a) : ∃ w, ofValue? f w = some a := by
  unfold ofExtensionValue at h
  split at h <;> exact ⟨_, ofValue_eq_ok.mp h⟩

end Storage

end MessageCode
