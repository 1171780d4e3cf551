import MessageCode.Proofs.Generate.Held

/-!
Values that fields are given. A field takes the low bits of an integer where it is narrower than that,
refuses the values which stand for nothing that it can store, and stores what it takes of all others.
-/

namespace MessageCode

open Stateful

/-- What a field takes of a value: of an integer only the low bits, where the field has 32. -/
def Field.narrowed (f : Field) (l : LogicalValue) : LogicalValue :=
  match f.kind, l with
  | .int32, .int n | .enum _, .int n => .int n.toInt32.toInt64
  | _, l => l

/-- The fault with which a field refuses a value of its type: a text that is no numeral where it has to
be one, a text that is no base64, and an integer whose low bits are not declared. -/
def Field.refusal? (s : Schema) (f : Field) (c : Coercion) (l : LogicalValue) : Option Fault :=
  match c, l with
  | .int64AsText, .text t => if (Text.int64? t).isSome then none else some (.numberFormat t)
  | .bytes, .text t =>
      if (Text.Base64.decode? t).isSome then none
      else some (.illegalArgument ("bad base64 " ++ Text.quoted t))
  | .legacyEnum name, .int n =>
      if ((s.enum? name).bind (·.valueByNumber? n.toInt32)).isSome then none
      else some (.nullPointer (Filling.method f c).render)
  | _, _ => none

def Field.Lacks (s : Schema) (f : Field) (n : Int32) : Prop :=
  f.isModernEnum = false ∧ ∃ name e, f.kind = .enum name ∧ s.enum? name = some e ∧
    ∀ v ∈ e.values, v.number ≠ n

/-- What a field refuses, for its coercion, and the fault with which it does. -/
inductive Field.Refuses (s : Schema) (f : Field) : Coercion → LogicalValue → Fault → Prop
  | numeral {t} : f.kind = .int64 → f.numericAsText = true → Text.int64? t = none →
      f.Refuses s .int64AsText (.text t) (.numberFormat t)
  | base64 {t} : f.kind = .bytes → Text.Base64.decode? t = none →
      f.Refuses s .bytes (.text t) (.illegalArgument ("bad base64 " ++ Text.quoted t))
  | undeclared {name e n} : f.kind = .enum name → s.enum? name = some e → f.isModernEnum = false →
      e.valueByNumber? n.toInt32 = none →
      f.Refuses s (.legacyEnum name) (.int n) (.nullPointer (Filling.method f (.legacyEnum name)).render)

def LogicalValue.Sound (s : Schema) : LogicalValue → Prop
  | .message _ data => Valid s data
  | _ => True

section

variable {s : Schema} {f : Field} {c : Coercion} {l : LogicalValue} {v : Value} {fault : Fault}

theorem EnumType.valueByNumber?_eq_none_iff {e : EnumType} {n : Int32} :
    e.valueByNumber? n = none ↔ ∀ v ∈ e.values, v.number ≠ n := by
  simp [valueByNumber?]

namespace Coercion.Meets

theorem refusal?_eq_some_iff (meets : c.Meets s f l) :
    f.refusal? s c l = some fault ↔ f.Refuses s c l fault := by
  constructor
  · intro refused
    unfold Field.refusal? at refused
    cases meets with
    | int64AsText kind marked =>
        dsimp only at refused
        split at refused
        · cases refused
        · rename_i unread
          cases refused
          exact .numeral kind marked (by simpa using unread)
    | bytes kind =>
        dsimp only at refused
        split at refused
        · cases refused
        · rename_i unread
          cases refused
          exact .base64 kind (by simpa using unread)
    | legacyEnum kind found legacy =>
        dsimp only at refused
        rw [found, Option.bind_some] at refused
        split at refused
        · cases refused
        · rename_i unknown
          cases refused
          exact .undeclared kind found legacy (by simpa using unknown)
    | _ => cases refused
  · intro refuses
    cases refuses with
    | numeral kind marked unread => simp [Field.refusal?, unread]
    | base64 kind unread => simp [Field.refusal?, unread]
    | undeclared kind found legacy unknown => simp [Field.refusal?, found, unknown]

theorem refusal?_eq_none_iff (meets : c.Meets s f l) :
    f.refusal? s c l = none ↔ ∀ fault, ¬f.Refuses s c l fault := by
  rw [Option.eq_none_iff_forall_ne_some]
  exact forall_congr' fun fault => not_congr meets.refusal?_eq_some_iff

end Coercion.Meets

/-- What is left of a value that the field does not refuse is one that it holds. -/
theorem Field.holds_narrowed (covers : c.Covers s f) (same : c.logicalType = l.type) (sound : l.Sound s)
    (accepted : f.refusal? s c l = none) : f.Holds s (f.narrowed l) := by
  have meets := covers.meets same
  have accepts := meets.refusal?_eq_none_iff.mp accepted
  unfold Field.Holds Field.narrowed
  cases meets with
  | bool kind | float kind | double kind | text kind | sanitized kind => simp only [kind]
  | int64 kind unmarked => simpa only [kind] using unmarked
  | int32 kind =>
      simp only [kind]
      exact ⟨_, rfl⟩
  | @int64AsText t kind marked =>
      simp only [kind]
      exact ⟨marked, Option.ne_none_iff_exists'.mp fun unread => accepts _ (.numeral kind marked unread)⟩
  | @bytes t kind =>
      simp only [kind]
      exact Option.ne_none_iff_exists'.mp fun unread => accepts _ (.base64 kind unread)
  | @legacyEnum name e n kind found legacy =>
      simp only [kind, legacy]
      obtain ⟨u, known⟩ := Option.ne_none_iff_exists'.mp fun unknown =>
        accepts _ (.undeclared (n := n) kind found legacy unknown)
      have number : u.number = n.toInt32 := by simpa using List.find?_some known
      exact ⟨e, u, found, List.mem_of_find?_eq_some known, by rw [number]⟩
  | modernEnum kind modern =>
      simp only [kind, modern]
      exact ⟨_, rfl⟩
  | message kind other =>
      simp only [kind]
      exact ⟨other, trivial, sound⟩

theorem Field.Holds.sound (holds : f.Holds s l) : l.Sound s := by
  cases l with
  | message id data =>
      unfold Field.Holds at holds
      cases kind : f.kind with
      | message name =>
          rw [kind] at holds
          exact holds.2.2
      | _ =>
          rw [kind] at holds
          cases holds
  | _ => trivial

/-- A field does not refuse a value that it holds. -/
theorem Field.Holds.not_refuses (holds : f.Holds s l) : ¬f.Refuses s c l fault := by
  intro refuses
  unfold Field.Holds at holds
  cases refuses with
  | numeral kind marked unread => simp [kind, unread] at holds
  | base64 kind unread => simp [kind, unread] at holds
  | @undeclared name e n kind found legacy unknown =>
      simp only [kind, legacy, Bool.false_eq_true, if_false] at holds
      obtain ⟨e', v, found', declared, rfl⟩ := holds
      cases found.symm.trans found'
      rw [EnumType.valueByNumber?_eq_none_iff] at unknown
      exact unknown v declared (Int32.toInt32_toInt64 _).symm

theorem Field.Holds.taken (holds : f.Holds s l) (covers : c.Covers s f) :
    f.narrowed l = l ∧ f.refusal? s c l = none := by
  have meets := covers.meets (holds.type_eq covers)
  refine ⟨?_, meets.refusal?_eq_none_iff.mpr fun fault => holds.not_refuses⟩
  have back (k : Int32) : k.toInt64.toInt32 = k := Int32.toInt32_toInt64 k
  unfold Field.Holds at holds
  unfold Field.narrowed
  cases meets with
  | int32 kind =>
      simp only [kind] at holds ⊢
      obtain ⟨k, rfl⟩ := holds
      rw [back]
  | modernEnum kind modern =>
      simp only [kind, modern, if_true] at holds ⊢
      obtain ⟨k, rfl⟩ := holds
      rw [back]
  | legacyEnum kind found legacy =>
      simp only [kind, legacy, Bool.false_eq_true, if_false] at holds ⊢
      obtain ⟨e, v, found', declared, rfl⟩ := holds
      rw [back]
  | _ kind => simp only [kind]

namespace Filling

/-- A coercion starts from no more of an integer than the field takes. -/
theorem coerce_narrowed (covers : c.Covers s f) (same : c.logicalType = l.type) (prepared : l.Prepared v) :
    ∃ w, (f.narrowed l).Prepared w ∧ coerceFrom (.ofSchema s) c l.preparedType v =
      coerceFrom (.ofSchema s) c (f.narrowed l).preparedType w := by
  have converts (n : Int64) : convertFrom (LogicalValue.int n).preparedType .int (.long n) =
      pure (.int n.toInt32) := rfl
  have narrow (n : Int64) : n.toInt32.toInt64.toInt32 = n.toInt32 := Int32.toInt32_toInt64 _
  unfold Field.narrowed
  cases covers.meets same with
  | int32 kind | modernEnum kind | legacyEnum kind =>
      cases prepared
      simp only [kind]
      refine ⟨.long _, rfl, ?_⟩
      unfold coerceFrom
      dsimp only
      rw [converts, converts, narrow]
  | _ kind =>
      refine ⟨v, ?_⟩
      simp only [kind]
      exact ⟨prepared, trivial⟩

theorem forNumber_gives_null {name : String} {e : EnumType} (found : s.enum? name = some e) {n : Int32}
    (undeclared : e.valueByNumber? n = none) :
    Gives ((Signature.enumForNumber name).act (.ofSchema s) [.int n]) (· = .null) := by
  rw [enumForNumber_act found, undeclared]
  exact .pure rfl

theorem parse_fails (s : Schema) {t : String} (unread : Text.int64? t = none) (id : ObjectId) (m : Machine) :
    (Signature.longParse.act (.ofSchema s) [.ref id (.text t)]).run m =
      (.error (.fault (.numberFormat t)), m) := by
  rw [longParse_act, unread]
  rfl

theorem decode_fails (s : Schema) {t : String} (unread : Text.Base64.decode? t = none) (id : ObjectId)
    (m : Machine) : ∃ m', (decodeFrom (.ofSchema s) (.ref id (.text t))).run m =
      (.error (.fault (.illegalArgument ("bad base64 " ++ Text.quoted t))), m') := by
  have codec : Gives (Signature.base64.act (.ofSchema s) []) fun w => ∃ id, w = .ref id .codec :=
    fun m => ⟨_, _, rfl, _, rfl⟩
  obtain ⟨_, m', run, codecId, rfl⟩ := codec m
  refine ⟨m', ?_⟩
  unfold decodeFrom
  rw [run_bind_ok run, base64Decode_act, unread]
  rfl

/-- What becomes of a value that the field refuses: the coercion stops, or for a number that is not
declared it gives null. -/
theorem coerce_refused (covers : c.Covers s f) (same : c.logicalType = l.type)
    (refused : f.refusal? s c l = some fault) :
    (∀ v, l.Prepared v → ∀ machine, ∃ machine',
        (coerceFrom (.ofSchema s) c l.preparedType v).run machine = (.error (.fault fault), machine')) ∨
      fault = .nullPointer (method f c).render ∧ c.storageType.isPrimitive = false ∧
        ∀ v, l.Prepared v → Gives (coerceFrom (.ofSchema s) c l.preparedType v) (· = .null) := by
  cases (covers.meets same).refusal?_eq_some_iff.mp refused with
  | numeral kind marked unread =>
      left
      rintro _ ⟨id, rfl⟩ machine
      exact ⟨machine, parse_fails s unread id machine⟩
  | base64 kind unread =>
      left
      rintro _ ⟨id, rfl⟩ machine
      obtain ⟨machine', stop⟩ := decode_fails s unread id machine
      exact ⟨machine', run_bind_error stop _⟩
  | undeclared kind found legacy unknown =>
      refine .inr ⟨rfl, rfl, ?_⟩
      rintro _ rfl
      exact forNumber_gives_null found unknown

theorem stored_null (same : c.logicalType = l.type) (reference : c.storageType.isPrimitive = false)
    (operand : Gives (operandFrom (.ofSchema s) c l.type (l.type.given boxed) v) (· = .null)) (late : Bool)
    (machine : Machine) :
    ∃ machine', (stored (.ofSchema s) f c l.type (l.type.given boxed) late v).run machine =
      (.error (.fault (.nullPointer (method f c).render)), machine') := by
  obtain ⟨_, machine', run, rfl⟩ := operand machine
  unfold stored
  rw [run_bind_ok run, operandType_eq same]
  cases f.isExtension with
  | false => exact ⟨machine', rfl⟩
  | true =>
      have wrapped : wrapFrom c.storageType .null = pure .null := by
        unfold wrapFrom
        simp only [reference, Bool.false_eq_true, if_false]
      simp only [if_true]
      rw [wrapped, pure_bind]
      cases late with
      | false => exact ⟨machine', rfl⟩
      | true => exact ⟨_, rfl⟩

/-- A value of the type of the field, given in either form, is stored unless the field refuses it. -/
theorem stored_settles (loaded : s.Loaded) (covers : c.Covers s f) (same : c.logicalType = l.type)
    (sound : l.Sound s) (form : Access.Form boxed l v) (late : Bool) (machine : Machine) :
    Settles (stored (.ofSchema s) f c c.logicalType (c.logicalType.given boxed) late v) machine
      ((f.refusal? s c l).map .fault) fun a =>
        a.Fits s f ∧ f.logical a = f.normalised (f.narrowed l) := by
  rw [same]
  have prepared := prepared_gives s same form
  cases refused : f.refusal? s c l with
  | none =>
      have holds := Field.holds_narrowed covers same sound refused
      refine stored_of_operand same ?_ late machine
      unfold operandFrom
      rw [preparedType_eq same]
      refine prepared.bind fun w start => ?_
      obtain ⟨w', start', eq⟩ := coerce_narrowed covers same start
      rw [eq]
      exact coerce_gives loaded covers holds start'
  | some fault =>
      rcases coerce_refused covers same refused with stops | ⟨rfl, reference, nulls⟩
      · obtain ⟨w, machine', run, start⟩ := prepared machine
        obtain ⟨machine'', stop⟩ := stops w start machine'
        refine ⟨machine'', ?_⟩
        unfold stored
        apply run_bind_error
        unfold operandFrom
        rw [run_bind_ok run, preparedType_eq same]
        exact stop
      · refine stored_null same reference ?_ late machine
        unfold operandFrom
        rw [preparedType_eq same]
        exact prepared.bind nulls

end Filling

end

end MessageCode
