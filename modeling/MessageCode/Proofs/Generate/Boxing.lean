import MessageCode.Proofs.Generate.Access
import MessageCode.Proofs.Generate.Generated
import MessageCode.Proofs.Machine.Conforms

/-!
Boxing and unboxing. Each undoes the other for the types that have a kind of box of their own. Null stays
null in boxed form, and nothing is unboxed from null.
-/

namespace MessageCode

open Stateful

namespace ValueType

/-- The native forms of the types that have a kind of box of their own; numbers may be narrow. -/
inductive Natively : ValueType → NativeType → Prop
  | bool : Natively .bool .bool
  | int : Natively .int .long
  | narrowInt : Natively .int .int
  | float : Natively .float .double
  | narrowFloat : Natively .float .float
  | text : Natively .text .text
  | message (name) : Natively (.message name) (.message name)
  | sanitized (kind) : Natively (.sanitized kind) .text
  | list (element) : Natively (.list element) (.ref .list)
  | emptyList : Natively .emptyList (.ref .list)

theorem Natively.known {type : ValueType} {t : NativeType} (h : type.Natively t) :
    type.Natively type.nativeType := by
  cases h <;> constructor

theorem Natively.not_boxed {type : ValueType} {t : NativeType} (h : type.Natively t) :
    ¬t.boxedKind?.isSome = true := by
  cases h <;> nofun

end ValueType

namespace Boxed

inductive Of : ValueType → Boxed → Prop
  | bool (b) : Of .bool (.bool b)
  | int (n) : Of .int (.int n)
  | float (x) : Of .float (.float x)
  | text (t) : Of .text (.text t)
  | message (id) (data : MessageData) : Of (.message data.typeName) (.proto (.ref id (.message data)))
  | sanitized (kind content) : Of (.sanitized kind) (.sanitized kind content)
  | list (element items) : Of (.list element) (.list items)
  | emptyList (items) : Of .emptyList (.list items)

/-- The value is what is in the box, in native form: the number, a text of the same content, the message,
or a list of the items. -/
inductive Holds (store : Store) : Boxed → Value → Prop
  | bool (b) : Holds store (.bool b) (.bool b)
  | int (n) : Holds store (.int n) (.long n)
  | narrowInt (n : Int32) : Holds store (.int n.toInt64) (.int n)
  | float (x) : Holds store (.float x) (.double x)
  | narrowFloat (x : Numeric.Single) : Holds store (.float x.widen) (.float x)
  | text (id t) : Holds store (.text t) (.ref id (.text t))
  | sanitized (kind id t) : Holds store (.sanitized kind t) (.ref id (.text t))
  | message (id data) : Holds store (.proto (.ref id (.message data))) (.ref id (.message data))
  | list (id) : Holds store (.list (store.listItems id)) (.ref id .list)

theorem Holds.ne_null {store : Store} {content : Boxed} {v : Value} (h : content.Holds store v) :
    v ≠ .null := by
  rintro rfl
  cases h

end Boxed

theorem NativeType.exists_boxed {t : NativeType} (h : t.boxedKind?.isSome = true) :
    ∃ kind, t = .boxed kind := by
  unfold boxedKind? at h
  split at h
  · exact ⟨_, rfl⟩
  · cases h

theorem Value.isNull_of_ne {v : Value} (present : v ≠ .null) : v.isNull = false := by
  cases v with
  | null => exact absurd rfl present
  | _ => rfl

namespace Value.Conforms

theorem text {v : Value} (h : v.Conforms .text) : v = .null ∨ ∃ id content, v = .ref id (.text content) := by
  cases v with
  | null => exact .inl rfl
  | ref id object =>
      cases object with
      | text content => exact .inr ⟨id, content, rfl⟩
      | _ => cases h
  | _ => cases h

theorem list {v : Value} (h : v.Conforms (.ref .list)) : v = .null ∨ ∃ id, v = .ref id .list := by
  cases v with
  | null => exact .inl rfl
  | ref id object =>
      cases object with
      | list => exact .inr ⟨id, rfl⟩
      | _ => cases h
  | _ => cases h

end Value.Conforms

/-! What the code of boxing and unboxing does to a value. -/

section

variable {s : Schema} {type : ValueType} {t : NativeType} {content : Boxed} {v : Value}

/-- Every value of a native form, other than null, is what is in some box of the type. -/
theorem ValueType.Natively.exists_content (native : type.Natively t) (conforms : v.Conforms t)
    (present : v ≠ .null) (store : Store) : ∃ content, Boxed.Of type content ∧ content.Holds store v := by
  cases native with
  | bool =>
      obtain ⟨b, rfl⟩ := conforms.bool
      exact ⟨_, .bool b, .bool b⟩
  | narrowInt =>
      obtain ⟨n, rfl⟩ := conforms.int
      exact ⟨_, .int _, .narrowInt n⟩
  | int =>
      cases v with
      | long n => exact ⟨_, .int n, .int n⟩
      | _ => cases conforms
  | float =>
      cases v with
      | double x => exact ⟨_, .float x, .float x⟩
      | _ => cases conforms
  | narrowFloat =>
      cases v with
      | float x => exact ⟨_, .float _, .narrowFloat x⟩
      | _ => cases conforms
  | message name =>
      obtain rfl | ⟨id, data, rfl, rfl⟩ := Filling.isInstance_message conforms
      · exact absurd rfl present
      · exact ⟨_, .message id data, .message id data⟩
  | text =>
      obtain rfl | ⟨id, content, rfl⟩ := conforms.text
      · exact absurd rfl present
      · exact ⟨_, .text content, .text id content⟩
  | sanitized kind =>
      obtain rfl | ⟨id, content, rfl⟩ := conforms.text
      · exact absurd rfl present
      · exact ⟨_, .sanitized kind content, .sanitized kind id content⟩
  | list element =>
      obtain rfl | ⟨id, rfl⟩ := conforms.list
      · exact absurd rfl present
      · exact ⟨_, .list element _, .list id⟩
  | emptyList =>
      obtain rfl | ⟨id, rfl⟩ := conforms.list
      · exact absurd rfl present
      · exact ⟨_, .emptyList _, .list id⟩

/-- A value goes into the box that it is in the native form of. -/
theorem boxFrom_gives (native : type.Natively t) (of : Boxed.Of type content) (conforms : v.Conforms t)
    {m : Machine} (holds : content.Holds m.store v) :
    ∃ id m', (boxFrom (.ofSchema s) t type v).run m = (.ok (.ref id (.boxed content)), m') := by
  cases native with
  | sanitized kind =>
      cases of
      cases holds
      cases kind <;> exact ⟨_, _, rfl⟩
  | _ =>
      cases of
      cases holds <;> first | exact ⟨_, _, rfl⟩ | cases conforms

theorem castFrom_kind (t : NativeType) (id : ObjectId) (content : Boxed) :
    castFrom t (.boxed content.kind) (.ref id (.boxed content)) = pure (.ref id (.boxed content)) :=
  Filling.castFrom_of_kind (.inr rfl) t id

theorem unboxBoxedFrom_gives (of : Boxed.Of type content) (t : NativeType) (id : ObjectId) (m : Machine) :
    ∃ w m', (unboxBoxedFrom (.ofSchema s) t type.nativeType (.ref id (.boxed content))).run m = (.ok w, m') ∧
      content.Holds m'.store w ∧ w.Conforms type.nativeType := by
  cases of with
  | bool b => exact ⟨_, _, rfl, .bool b, rfl⟩
  | int n => exact ⟨_, _, rfl, .int n, rfl⟩
  | float x => exact ⟨_, _, rfl, .float x, rfl⟩
  | text content => exact ⟨_, _, rfl, .text _ content, rfl⟩
  | sanitized kind content => exact ⟨_, _, rfl, .sanitized kind _ content, rfl⟩
  | message messageId data =>
      have known : (Value.ref messageId (.message data)).isInstance (.message data.typeName) = true := by
        simp [Value.isInstance, Object.isInstance]
      have cast : castFrom t (.boxed .proto) (.ref id (.boxed (.proto (.ref messageId (.message data))))) =
          pure _ := castFrom_kind t id (.proto _)
      refine ⟨_, m, ?_, .message messageId data, known⟩
      unfold unboxBoxedFrom ValueType.nativeType
      dsimp only
      rw [cast, pure_bind]
      change (Turns.castTo (.message data.typeName) (.ref messageId (.message data))).run m = _
      rw [Turns.castTo_message rfl]
      rfl
  | list element items | emptyList items =>
      have cast : castFrom t (.boxed .list) (.ref id (.boxed (.list items))) = pure _ :=
        castFrom_kind t id (.list items)
      have listed : ∃ listId m', (Signature.asList.act (.ofSchema s) [.ref id (.boxed (.list items))]).run m =
          (.ok (.ref listId .list), m') ∧ m'.store.listItems listId = items :=
        ⟨_, _, rfl, congrArg (Option.getD · []) Cells.get?_set_self⟩
      obtain ⟨listId, m', run, rfl⟩ := listed
      refine ⟨.ref listId .list, m', ?_, .list listId, rfl⟩
      unfold unboxBoxedFrom ValueType.nativeType
      dsimp only
      rw [cast, pure_bind]
      exact run

end

def Assembler.KeepsRoom {α : Type} (steps : Assembler GenerateError α) : Prop :=
  ∀ a x a', a.nextLocal ≤ a.maxLocals → steps.run a = (.ok x, a') →
    a'.nextLocal = a.nextLocal ∧ a'.maxLocals = a.maxLocals

namespace Assembler.KeepsRoom

variable {α β : Type}

theorem pure (x : α) : KeepsRoom (Pure.pure x) := by
  rintro a _ _ - ⟨⟩
  exact ⟨rfl, rfl⟩

theorem throw (e : GenerateError) : KeepsRoom (MonadExcept.throw e : Assembler GenerateError α) := nofun

theorem bind {steps : Assembler GenerateError α} {more : α → Assembler GenerateError β} (h : KeepsRoom steps)
    (h' : ∀ x, KeepsRoom (more x)) : KeepsRoom (steps >>= more) := by
  intro a y a' room run
  obtain ⟨x, b, first, second⟩ := bind_eq_ok.mp run
  obtain ⟨next, max⟩ := h a x b room first
  rw [← next, ← max] at room ⊢
  exact h' x b y a' room second

theorem top : KeepsRoom Assembler.top := by
  intro a t a' _ run
  obtain ⟨_, -, rfl⟩ := Assembler.top_eq_ok.mp run
  exact ⟨rfl, rfl⟩

theorem write (d : Directive) : KeepsRoom (d.write : Assembler GenerateError Unit) := by
  rintro a ⟨⟩ a' - run
  rcases Directive.write_eq_ok run with ⟨rfl, -⟩ | ⟨op, stack, rfl, -⟩
  · exact ⟨rfl, rfl⟩
  · exact ⟨rfl, rfl⟩

theorem branch (test : Test) {thenArm elseArm : Assembler GenerateError Unit} (h : KeepsRoom thenArm)
    (h' : KeepsRoom elseArm) : KeepsRoom (Assembler.branch test thenArm elseArm) := by
  intro a x a' room run
  obtain ⟨_, rest, b, b', _, -, -, first, second, -, rfl⟩ := Assembler.branch_eq_ok.mp run
  obtain ⟨next, max⟩ := h (a.put [] rest).fork () b le_rfl first
  obtain ⟨next', max'⟩ := h' (a.put [] rest).fork () b' le_rfl second
  -- Both arms start with the locals in use, and count no more.
  have start : (a.put [] rest).fork.nextLocal = a.nextLocal := rfl
  have counted : (a.put [] rest).fork.maxLocals = a.nextLocal := rfl
  simp only [Assembly.put_nextLocal, Assembly.put_maxLocals, Assembly.adopt, next, max, next', max', start,
    counted]
  omega

theorem unboxBoxed (target : NativeType) : KeepsRoom (unboxBoxed target) := by
  cases target with
  | bool => exact write (.invoke _)
  | int | long | float | double => exact (write (.invoke _)).bind fun _ => write (.convert _)
  | ref r =>
      cases r with
      | text => exact write (.invoke _)
      | list | object => exact (write (.checkCast _)).bind fun _ => write (.invoke _)
      | message name =>
          exact (write (.checkCast _)).bind fun _ => (write (.invoke _)).bind fun _ => write (.checkCast _)
      | _ => exact top.bind fun _ => throw _

theorem unboxTop (target : NativeType) : KeepsRoom (unboxTop target) := by
  refine top.bind fun t => ?_
  split
  · exact unboxBoxed target
  split
  · exact pure _
  split
  · exact write (.convert target)
  split
  · exact (write (.checkCast _)).bind fun _ => unboxBoxed target
  · exact throw _

theorem boxPresent (type : ValueType) : KeepsRoom (boxPresent type) := by
  refine top.bind fun t => ?_
  split
  · exact write (.invoke _)
  · exact (write (.convert _)).bind fun _ => write (.invoke _)
  · exact (write (.convert _)).bind fun _ => write (.invoke _)
  · exact (write (.convert _)).bind fun _ => write (.invoke _)
  · exact (write (.convert _)).bind fun _ => write (.invoke _)
  · split
    · exact (write (.push _)).bind fun _ => write (.invoke _)
    · exact write (.invoke _)
  · exact write (.invoke _)
  · exact write (.invoke _)
  · exact write (.checkCast _)
  · exact throw _

theorem boxTop (type : ValueType) (nullable : Bool) : KeepsRoom (boxTop type nullable) := by
  refine top.bind fun t => ?_
  split
  · exact pure _
  split
  · exact (write .dup).bind fun _ => branch _ ((write .pop).bind fun _ => write (.push _)) (boxPresent type)
  · exact boxPresent type

end Assembler.KeepsRoom

/-- The boxed form of a value, where null stays null if it is expected. -/
def boxTopFrom (host : Host) (t : NativeType) (type : ValueType) (nullable : Bool) (v : Value) : Run Value :=
  if (nullable && !t.isPrimitive) && v.isNull then pure .null else boxFrom host t type v

namespace Turns

variable {host : Host} {type : ValueType} {t : NativeType}

theorem boxPresent (native : type.Natively t) :
    Turns host t type.boxedType (MessageCode.boxPresent type) (boxFrom host t type) := by
  refine top ?_
  cases native with
  | bool => exact invoke rfl (.cons rfl .nil)
  | int | float => exact (convertTo (.inl rfl)).seq (invoke rfl (.cons rfl .nil))
  | narrowInt | narrowFloat => exact (convertTo (.inr ⟨rfl, rfl⟩)).seq (invoke rfl (.cons rfl .nil))
  | text | message | list | emptyList => exact invoke rfl (.cons rfl .nil)
  | sanitized kind => exact pushInvoke (.const (.int kind.ordinal)) rfl (.cons rfl (.cons rfl .nil))

theorem boxTop (native : type.Natively t) (nullable : Bool) :
    Turns host t type.boxedType (MessageCode.boxTop type nullable) (boxTopFrom host t type nullable) := by
  have present : Turns host t type.boxedType _ _ := boxPresent native
  refine top ?_
  rw [if_neg native.not_boxed]
  by_cases tested : (nullable && !t.isPrimitive) = true
  · have object : t.assignableTo (.ref .object) = true := by
      cases native <;> first | rfl | simp [NativeType.isPrimitive] at tested
    have absent : Turns host t .null Access.absent (fun _ => Pure.pure .null) := Access.absent_turns
    have branches := branch (.isNull object) absent present rfl
    have acts : boxTopFrom host t type nullable =
        fun v => if v.isNull = true then Pure.pure .null else boxFrom host t type v := by
      funext v
      rw [boxTopFrom, tested, Bool.true_and]
    simp only [pure_bind] at branches
    rw [if_pos tested, acts]
    exact branches
  · have acts : boxTopFrom host t type nullable = boxFrom host t type := by
      funext v
      rw [boxTopFrom, Bool.eq_false_of_not_eq_true tested, Bool.false_and, if_neg Bool.false_ne_true]
    rw [if_neg tested, acts]
    exact present

theorem unboxTop (known : type.Natively type.nativeType) (kind : BoxedKind) :
    Turns host (.boxed kind) type.nativeType (MessageCode.unboxTop type.nativeType)
      (unboxBoxedFrom host (.boxed kind) type.nativeType) := by
  refine top ?_
  rw [if_pos (show (NativeType.boxed kind).boxedKind?.isSome = true from rfl)]
  have object : (NativeType.boxed kind).assignableTo (.ref .object) = true := rfl
  have any : Fits [.boxed kind] [.boxed .any] := by cases kind <;> exact .cons rfl .nil
  cases known with
  | bool | text | sanitized => exact invoke rfl any
  | int | float => exact (invoke rfl any).seq (convertTo (.inl rfl))
  | message name =>
      have fits : Fits [(NativeType.boxed kind).cast (.boxed .proto)] Signature.getProto.operands := by
        cases kind <;> exact .cons rfl .nil
      exact (cast object _).seq ((invoke rfl fits).seq (checkCast rfl (.inl rfl)))
  | list | emptyList =>
      have fits : Fits [(NativeType.boxed kind).cast (.boxed .list)] Signature.asList.operands := by
        cases kind <;> exact .cons rfl .nil
      exact (cast object _).seq (invoke rfl fits)

end Turns

theorem unboxBoxedFrom_null {target : NativeType} {a a' : Assembly}
    (written : (unboxBoxed target).run a = (.ok (), a')) (host : Host) (t : NativeType) (m : Machine) :
    ∃ text, (unboxBoxedFrom host t target .null).run m = (.error (.fault (.nullPointer text)), m) := by
  have cast : ∀ r, castFrom t r .null = pure .null := fun r => ite_self _
  cases target with
  | bool => exact ⟨_, rfl⟩
  | int | long | float | double => exact ⟨_, rfl⟩
  | ref r =>
      cases r with
      | text => exact ⟨_, rfl⟩
      | list | object | message name =>
          unfold unboxBoxedFrom
          simp only [cast, pure_bind]
          exact ⟨_, rfl⟩
      | _ =>
          obtain ⟨_, _, _, refused⟩ := bind_eq_ok.mp written
          cases refused

namespace TypedValue

def Yields (s : Schema) (v : TypedValue) (fuel : Nat) (inputs : List Value) (m : Machine) (x : Value)
    (m' : Machine) : Prop :=
  (v.code.run s fuel inputs).run m = (.ok (some x), m')

def HitsNull (s : Schema) (v : TypedValue) (fuel : Nat) (inputs : List Value) (m : Machine) : Prop :=
  ∃ text m', (v.code.run s fuel inputs).run m = (.error (.fault (.nullPointer text)), m')

/-- The value is another one that is acted on at the end. -/
structure Continues (s : Schema) (v' v : TypedValue) (t : NativeType) (act : Value → Run Value) : Prop where
  native : v'.native = t
  type : v'.type = v.type
  nullable : v'.isNullable = v.isNullable
  run_eq : ∀ {fuel inputs m x m'}, v.Yields s fuel inputs m x m' →
    (v'.code.run s fuel inputs).run m = (some <$> act x).run m'

section

variable {s : Schema} {v v' : TypedValue} {t : NativeType} {steps : Assembler GenerateError Unit}
  {act : Value → Run Value} {fuel : Nat} {inputs : List Value} {m m' : Machine} {x : Value}

/-- Steps that use no local act on what the value ends with. -/
theorem continues_of_extend (made : v.extend steps = .ok v')
    (becomes : Becomes (.ofSchema s) v.native t steps act) (room : steps.KeepsRoom) :
    v'.Continues s v t act := by
  obtain ⟨type, a', run, finished⟩ := assemble_eq_ok made
  obtain ⟨⟨⟩, a, spliced, more⟩ := bind_eq_ok.mp run
  have wrote := v.append_start spliced
  obtain ⟨_, _, _, _, rfl⟩ := Assembler.append_eq_ok.mp spliced
  obtain ⟨ops, wrote', acts⟩ := becomes _ [] a' wrote.stack more
  obtain ⟨-, locals⟩ := room _ () a' (Nat.zero_le _) more
  have code : v'.code = ⟨v.code.ops ++ ops, v.code.inputs, some t, v.code.nonNull, v.code.maxLocals⟩ := by
    obtain ⟨t', stack, code⟩ := Assembly.finishExpression_eq_ok.mp finished
    cases wrote'.stack.symm.trans stack
    rw [code, wrote'.ops, wrote.ops, wrote'.inputs, wrote.inputs, locals]
    simp [Assembly.start]
  have output := v'.output_eq
  rw [code] at output
  refine ⟨(Option.some.inj output).symm, type, by rw [isNullable, code]; rfl, ?_⟩
  intro fuel inputs m x m' yields
  unfold Yields Sequence.run Sequence.runOn at yields
  unfold Sequence.run Sequence.runOn
  by_cases other : inputs.length ≠ v.code.inputs.length
  · rw [if_pos other] at yields
    cases yields
  rw [if_neg other] at yields
  obtain ⟨⟨left, locals⟩, m₁, executed, finish⟩ := bind_eq_ok.mp yields
  rw [v.output_eq] at finish
  cases left with
  | nil => cases finish
  | cons y rest =>
      cases finish
      rw [code, if_neg other]
      change (Op.execAll _ fuel (v.code.ops ++ ops) _ >>= _).run m = _
      rw [Op.execAll_append, bind_assoc, run_bind_ok executed, acts.exec, bind_assoc]
      rw [← bind_pure_comp]
      rfl

theorem exists_extend (turns : Turns (.ofSchema s) v.native t steps act) (room : steps.KeepsRoom) :
    ∃ v', v.extend steps = .ok v' ∧ v'.Continues s v t act := by
  have fits : Fits v.code.inputs.reverse v.code.inputs.reverse := .refl _
  have stack : (Assembly.start v.code.inputs).stack = v.code.inputs.reverse ++ [] := by simp [Assembly.start]
  have spliced := (Assembler.append_eq_ok (ε := GenerateError) (u := ())).mpr ⟨_, _, stack, fits, rfl⟩
  obtain ⟨ops, a, run, wrote, -⟩ := turns _ [] (v.append_start spliced).stack
  have made : v.extend steps = .ok _ :=
    assemble_of_run ((run_bind_ok spliced _).trans run) wrote.stack v.code.nonNull v.type
  exact ⟨_, made, continues_of_extend made (.of_turns turns) room⟩

theorem Continues.yields (h : v'.Continues s v t act) (yields : v.Yields s fuel inputs m x m') {y : Value}
    {m₁ : Machine} (run : (act x).run m' = (.ok y, m₁)) : v'.Yields s fuel inputs m y m₁ := by
  rw [Yields, h.run_eq yields, run_map, run]
  rfl

theorem unboxAs_null (boxed : v.isBoxed = true) {target : NativeType} (made : v.unboxAs target = .ok v')
    (yields : v.Yields s fuel inputs m .null m') : v'.HitsNull s fuel inputs m := by
  have isBoxed : v.native.boxedKind?.isSome = true := boxed
  have continues := continues_of_extend made (.unboxTop (.ofSchema s) v.native target) (.unboxTop target)
  have acts : unboxFrom (.ofSchema s) v.native target = unboxBoxedFrom (.ofSchema s) v.native target := by
    funext w
    rw [unboxFrom, if_pos isBoxed]
  -- The steps were written, so that the target is one that can be unboxed to.
  obtain ⟨-, a', run, -⟩ := assemble_eq_ok made
  obtain ⟨⟨⟩, a, spliced, more⟩ := bind_eq_ok.mp run
  unfold unboxTop at more
  rw [run_bind_ok (Assembler.top_eq_ok.mpr ⟨[], (v.append_start spliced).stack, rfl⟩), if_pos isBoxed] at more
  obtain ⟨text, faults⟩ := unboxBoxedFrom_null more (.ofSchema s) v.native m'
  refine ⟨text, m', ?_⟩
  rw [continues.run_eq yields, acts, run_map, faults]
  rfl

end

/-- A value in native form can be boxed. -/
theorem exists_box (s : Schema) {v : TypedValue} (native : v.type.Natively v.native) :
    ∃ v', v.box = .ok v' ∧
      v'.Continues s v v.type.boxedType (boxTopFrom (.ofSchema s) v.native v.type v.isNullable) := by
  have plain : ¬v.isBoxed = true := native.not_boxed
  obtain ⟨v', boxes, continues⟩ :=
    v.exists_extend (s := s) (.boxTop native v.isNullable) (.boxTop v.type v.isNullable)
  exact ⟨v', (if_neg plain).trans boxes, continues⟩

theorem exists_unbox (s : Schema) {v : TypedValue} {kind : BoxedKind} (boxed : v.native = .boxed kind)
    {type : ValueType} (known : type.Natively type.nativeType) :
    ∃ v', v.unboxAs type.nativeType = .ok v' ∧
      v'.Continues s v type.nativeType (unboxBoxedFrom (.ofSchema s) (.boxed kind) type.nativeType) := by
  refine exists_extend ?_ (.unboxTop type.nativeType)
  rw [boxed]
  exact .unboxTop known kind

theorem Continues.boxes {v v' : TypedValue} {s : Schema} (h : v'.Continues s v v.type.boxedType
      (boxTopFrom (.ofSchema s) v.native v.type v.isNullable)) (native : v.type.Natively v.native)
    {fuel : Nat} {inputs : List Value} {m m' : Machine} {x : Value} (yields : v.Yields s fuel inputs m x m')
    (conforms : x.Conforms v.native) {content : Boxed} (of : content.Of v.type)
    (holds : content.Holds m'.store x) :
    ∃ id m₁, v'.Yields s fuel inputs m (.ref id (.boxed content)) m₁ := by
  obtain ⟨id, m₁, run⟩ := boxFrom_gives (s := s) native of conforms holds
  refine ⟨id, m₁, h.yields yields ?_⟩
  rw [boxTopFrom, Value.isNull_of_ne holds.ne_null, Bool.and_false, if_neg Bool.false_ne_true]
  exact run

/-- What a value in native form becomes when it is boxed, and when its boxed form is unboxed. -/
structure BoxesBack (s : Schema) (v boxed unboxed : TypedValue) : Prop where
  native : boxed.native = v.type.boxedType
  null : ∀ {fuel inputs m m'}, v.Yields s fuel inputs m .null m' → Value.null.Conforms v.native →
    v.isNullable = true → ∃ m₁, boxed.Yields s fuel inputs m .null m₁
  present : ∀ {fuel inputs m x m'}, v.Yields s fuel inputs m x m' → x.Conforms v.native → x ≠ .null →
    ∃ content : Boxed, content.Of v.type ∧ content.Holds m'.store x ∧
      (∃ id m₁, boxed.Yields s fuel inputs m (.ref id (.boxed content)) m₁) ∧
      ∃ y m₂, unboxed.Yields s fuel inputs m y m₂ ∧ y.Conforms v.type.nativeType ∧ content.Holds m₂.store y

/-- A value in native form can be boxed, and unboxed again. -/
theorem exists_boxesBack (s : Schema) {v : TypedValue} (native : v.type.Natively v.native) :
    ∃ boxed unboxed, v.box = .ok boxed ∧ boxed.unboxAs v.type.nativeType = .ok unboxed ∧
      v.BoxesBack s boxed unboxed := by
  obtain ⟨boxed, boxes, continues⟩ := v.exists_box s native
  obtain ⟨unboxed, unboxes, continues'⟩ := boxed.exists_unbox s continues.native native.known
  refine ⟨boxed, unboxed, boxes, unboxes, continues.native, ?_, ?_⟩
  · intro fuel inputs m m' yields conforms nullable
    have reference : v.native.isPrimitive = false := by
      cases own : v.native with
      | ref r => rfl
      | _ =>
          rw [own] at conforms
          cases conforms
    refine ⟨m', continues.yields yields ?_⟩
    rw [boxTopFrom, nullable, reference]
    rfl
  · intro fuel inputs m x m' yields conforms present
    obtain ⟨content, of, holds⟩ := native.exists_content conforms present m'.store
    obtain ⟨id, m₁, boxedYields⟩ := continues.boxes native yields conforms of holds
    obtain ⟨y, m₂, run, holds', conforms'⟩ :=
      unboxBoxedFrom_gives (s := s) of (.boxed v.type.boxedKind) id m₁
    exact ⟨content, of, holds, ⟨id, m₁, boxedYields⟩, y, m₂, continues'.yields boxedYields run, conforms',
      holds'⟩

/-- A boxed value of its own type can be unboxed, and boxed again as what it was. -/
theorem exists_unboxesBack (s : Schema) {v : TypedValue} (boxed : v.isBoxed = true)
    (known : v.type.Natively v.type.nativeType) :
    ∃ native v', v.unboxAs v.type.nativeType = .ok native ∧ native.box = .ok v' ∧
      ∀ {fuel inputs m id content m'}, v.Yields s fuel inputs m (.ref id (.boxed content)) m' →
        content.Of v.type → ∃ id' m₁, v'.Yields s fuel inputs m (.ref id' (.boxed content)) m₁ := by
  obtain ⟨kind, own⟩ := NativeType.exists_boxed boxed
  obtain ⟨native, unboxes, continues⟩ := v.exists_unbox s own known
  have form : native.type.Natively native.native := by
    rw [continues.type, continues.native]
    exact known
  obtain ⟨v', boxes, continues'⟩ := native.exists_box s form
  refine ⟨native, v', unboxes, boxes, ?_⟩
  intro fuel inputs m id content m' yields of
  obtain ⟨y, m₁, run, holds, conforms⟩ := unboxBoxedFrom_gives (s := s) of (.boxed kind) id m'
  rw [← continues.native] at conforms
  rw [← continues.type] at of
  exact continues'.boxes form (continues.yields yields run) conforms of holds

/-- Boxing and unboxing are inverse to each other and preserve null. A value in native form, if it is there,
goes into a box of its type, out of which the same comes again; a box of the type of its value is given
again after it was unboxed; and null, which stays null in boxed form, unboxes to a null pointer. -/
theorem box_inverse (s : Schema) (v : TypedValue) :
    (v.type.Natively v.native → ∃ boxed unboxed, v.box = .ok boxed ∧
      boxed.unboxAs v.type.nativeType = .ok unboxed ∧ v.BoxesBack s boxed unboxed) ∧
    (v.isBoxed = true → v.type.Natively v.type.nativeType →
      ∃ native v', v.unboxAs v.type.nativeType = .ok native ∧ native.box = .ok v' ∧
        ∀ {fuel inputs m id content m'}, v.Yields s fuel inputs m (.ref id (.boxed content)) m' →
          content.Of v.type → ∃ id' m₁, v'.Yields s fuel inputs m (.ref id' (.boxed content)) m₁) ∧
    (v.isBoxed = true → ∀ {target native}, v.unboxAs target = .ok native →
      ∀ {fuel inputs m m'}, v.Yields s fuel inputs m .null m' → native.HitsNull s fuel inputs m) :=
  ⟨exists_boxesBack s, exists_unboxesBack s, fun boxed _ _ made _ _ _ _ => unboxAs_null boxed made⟩

/-- Text that is markup is boxed as such, and unboxed as the text again. Null is boxed as null, and is not
unboxed. -/
theorem markup_boxed :
    ∃ v boxed unboxed, input (.sanitized .html) false true = .ok v ∧ v.box = .ok boxed ∧
      boxed.unboxAs .text = .ok unboxed ∧
      (∃ id m, boxed.Yields noteSchema 0 [.ref 0 (.text "<b>")] .start
        (.ref id (.boxed (.sanitized .html "<b>"))) m) ∧
      (∃ id m, unboxed.Yields noteSchema 0 [.ref 0 (.text "<b>")] .start (.ref id (.text "<b>")) m) ∧
      (∃ m, boxed.Yields noteSchema 0 [.null] .start .null m) ∧
      unboxed.HitsNull noteSchema 0 [.null] .start := by
  let v := (input (.sanitized .html) false true).toOption.getD .null
  have given : input (.sanitized .html) false true = .ok v := rfl
  obtain ⟨boxed, unboxed, boxes, unboxes, back⟩ := (box_inverse noteSchema v).1 (.sanitized .html)
  have text : v.Yields noteSchema 0 [.ref 0 (.text "<b>")] .start (.ref 0 (.text "<b>")) .start := rfl
  have null : v.Yields noteSchema 0 [.null] .start .null .start := rfl
  obtain ⟨content, of, holds, boxedText, y, m, unboxedText, -, holds'⟩ := back.present text rfl nofun
  obtain ⟨m', boxedNull⟩ := back.null null rfl rfl
  have isBoxed : boxed.isBoxed = true := by
    rw [TypedValue.isBoxed, back.native]
    rfl
  have markup : content.Of (.sanitized .html) := of
  cases markup
  cases holds
  cases holds'
  exact ⟨v, boxed, unboxed, given, boxes, unboxes, boxedText, ⟨_, m, unboxedText⟩, ⟨m', boxedNull⟩,
    (box_inverse noteSchema boxed).2.2 isBoxed unboxes boxedNull⟩

end TypedValue

end MessageCode
