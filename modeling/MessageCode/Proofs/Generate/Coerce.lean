import MessageCode.Generate.Construction
import MessageCode.Proofs.Generate.Turns

/-!
Coercing arguments. What the code from an argument to the storage form of a field does to a value, as a
function of the type that the value is known to have. Where such code can be written, it does that.
-/

namespace MessageCode

/-- If the steps can be written with a value of the first type on top, they turn it into one of the
second. -/
def Becomes (host : Host) (t t' : NativeType) (steps : Assembler GenerateError Unit)
    (act : Value → Run Value) : Prop :=
  ∀ a rest a', a.stack = t :: rest → steps.run a = (.ok (), a') →
    ∃ ops, Wrote a ops (t' :: rest) a' ∧ Acts host ops act

/-! The actions. -/

/-- A cast, which is no step where the type tells that it succeeds. -/
def castFrom (t : NativeType) (r : RefType) (v : Value) : Run Value :=
  if t.assignableTo (.ref r) && t ≠ .null then pure v else Turns.castTo r v

def NativeType.cast (t : NativeType) (r : RefType) : NativeType :=
  if t.assignableTo (.ref r) && t ≠ .null then t else .ref r

/-- A conversion, which is no step to the same type. -/
def convertFrom (t target : NativeType) (v : Value) : Run Value :=
  if t = target then pure v else Run.ofExcept (v.convert target)

section

variable (host : Host)

def unboxBoxedFrom (t target : NativeType) (v : Value) : Run Value :=
  match target with
  | .bool => (Signature.unbox "boolean_value" .bool).act host [v]
  | .int | .long => do
      convertFrom .long target (← (Signature.unbox "long_value" .long).act host [v])
  | .float | .double => do
      convertFrom .double target (← (Signature.unbox "float_value" .double).act host [v])
  | .ref .text => (Signature.unbox "string_value" .text).act host [v]
  | .ref .list => do Signature.asList.act host [← castFrom t (.boxed .list) v]
  | .ref .object => do Signature.getProto.act host [← castFrom t (.boxed .proto) v]
  | .ref (.message name) => do
      Turns.castTo (.message name) (← Signature.getProto.act host [← castFrom t (.boxed .proto) v])
  | _ => pure v

def unboxFrom (t target : NativeType) (v : Value) : Run Value :=
  if t.boxedKind?.isSome then unboxBoxedFrom host t target v
  else if t.assignableTo target then pure v
  else if t.isNumeric && target.isNumeric then convertFrom t target v
  else do unboxBoxedFrom host (t.cast (.boxed .any)) target (← castFrom t (.boxed .any) v)

def boxFrom (t : NativeType) (type : ValueType) (v : Value) : Run Value :=
  match t with
  | .bool => (Signature.forValue .bool).act host [v]
  | .int | .long => do (Signature.forValue .int).act host [← convertFrom t .long v]
  | .float | .double => do (Signature.forValue .float).act host [← convertFrom t .double v]
  | .ref .text =>
      match type with
      | .sanitized kind => Signature.ordain.act host [.int kind.ordinal, v]
      | _ => (Signature.forValue .text).act host [v]
  | .ref (.message _) => (Signature.forValue .proto).act host [v]
  | .ref .list => (Signature.forValue .list).act host [v]
  | .ref .null => Turns.castTo (.boxed .any) v
  | _ => pure v

/-- The form that a coercion starts from: boxed for sanitized content, and native for all else. -/
def preparedFrom (c : Coercion) (type : ValueType) (t : NativeType) (v : Value) : Run Value :=
  match c.unboxTarget with
  | some target => unboxFrom host t target v
  | none => if t.boxedKind?.isNone then boxFrom host t type v else pure v

def decodeFrom (v : Value) : Run Value := do
  let codec ← Signature.base64.act host []
  Signature.base64Decode.act host [v, codec]

/-- The form in which a setter takes the value of a field. -/
def coerceFrom (c : Coercion) (t : NativeType) (v : Value) : Run Value :=
  match c with
  | .bool | .double | .text | .int64 => pure v
  | .float => convertFrom t .float v
  | .int32 | .modernEnum _ => convertFrom t .int v
  | .int64AsText => Signature.longParse.act host [v]
  | .legacyEnum name => do (Signature.enumForNumber name).act host [← convertFrom t .int v]
  | .bytes => do Signature.byteStringCopyFrom.act host [← decodeFrom host v]
  | .message name => castFrom t (.message name) v
  | .sanitized kind => do (Signature.toSafeProto kind).act host [← castFrom t (.boxed .sanitized) v]

end

def NativeType.unboxed (t target : NativeType) : NativeType :=
  if t.boxedKind?.isSome then target else if t.assignableTo target then t else target

def NativeType.boxedAs (t : NativeType) (type : ValueType) : NativeType :=
  match t with
  | .bool => .boxed .bool
  | .int | .long => .boxed .int
  | .float | .double => .boxed .float
  | .ref .text =>
      match type with
      | .sanitized _ => .boxed .sanitized
      | _ => .boxed .text
  | .ref (.message _) => .boxed .proto
  | .ref .list => .boxed .list
  | _ => .boxed .any

def Coercion.preparedType (c : Coercion) (type : ValueType) (t : NativeType) : NativeType :=
  match c.unboxTarget with
  | some target => t.unboxed target
  | none => if t.boxedKind?.isNone then t.boxedAs type else t

def Coercion.coercedType (c : Coercion) (t : NativeType) : NativeType :=
  match c with
  | .bool | .double | .text | .int64 => t
  | .message name => t.cast (.message name)
  | c => c.storageType

/-- The operand of a setter that stores a value. -/
def operandFrom (host : Host) (c : Coercion) (type : ValueType) (t : NativeType) (v : Value) :
    Run Value := do
  coerceFrom host c (c.preparedType type t) (← preparedFrom host c type t v)

def Coercion.operandType (c : Coercion) (type : ValueType) (t : NativeType) : NativeType :=
  c.coercedType (c.preparedType type t)

def wrapFrom (t : NativeType) (v : Value) : Run Value :=
  if t.isPrimitive then
    if v.primitiveType? = some t then (monadLift (Machine.alloc (.wrapper v)) : Run Value)
    else Run.fault (.badOperand "box" t.render v.typeName)
  else pure v

def NativeType.wrapped (t : NativeType) : NativeType :=
  if t.isPrimitive then .ref (.wrapper t) else t

namespace Turns

variable {host : Host} {t target : NativeType}

theorem convertTo (numeric : t = target ∨ t.isNumeric = true ∧ target.isNumeric = true) :
    Turns host t target (Assembler.convert target) (convertFrom t target) := by
  by_cases same : t = target
  · subst same
    have acts : convertFrom t t = Pure.pure := funext fun v => if_pos rfl
    rw [acts]
    exact convert_self
  · have acts : convertFrom t target = fun v => Run.ofExcept (v.convert target) :=
      funext fun v => if_neg same
    obtain ⟨source, other⟩ := numeric.resolve_left same
    rw [acts]
    exact convert same source other

theorem cast (object : t.assignableTo (.ref .object) = true) (r : RefType) :
    Turns host t (t.cast r) (Assembler.checkCast r) (castFrom t r) := by
  by_cases known : (t.assignableTo (.ref r) && decide (t ≠ .null)) = true
  · have acts : castFrom t r = Pure.pure := funext fun v => if_pos known
    rw [acts, NativeType.cast, if_pos known]
    simp only [Bool.and_eq_true, decide_eq_true_eq] at known
    exact checkCast_upcast known.1 object known.2
  · have acts : castFrom t r = castTo r := funext fun v => if_neg known
    rw [acts, NativeType.cast, if_neg known]
    have down : t.assignableTo (.ref r) = false ∨ t = .null := by
      by_contra other
      rw [not_or] at other
      simp [other] at known
    exact checkCast object down

end Turns

namespace Becomes

variable {host : Host} {t t' t'' r : NativeType} {steps more : Assembler GenerateError Unit}
  {act act' : Value → Run Value}

theorem of_turns (h : Turns host t t' steps act) : Becomes host t t' steps act := by
  intro a rest a' stack run
  obtain ⟨ops, b, run', wrote, acts⟩ := h a rest stack
  cases run.symm.trans run'
  exact ⟨ops, wrote, acts⟩

theorem seq (h : Becomes host t t' steps act) (h' : Becomes host t' t'' more act') :
    Becomes host t t'' (steps >>= fun _ => more) (fun v => act v >>= act') := by
  intro a rest a' stack run
  obtain ⟨⟨⟩, b, first, second⟩ := Stateful.bind_eq_ok.mp run
  obtain ⟨ops, wrote, acts⟩ := h a rest b stack first
  obtain ⟨ops', wrote', acts'⟩ := h' b rest a' wrote.stack second
  exact ⟨_, wrote.trans wrote', acts.append acts'⟩

/-- Steps that depend on the type on top. -/
theorem top {steps : NativeType → Assembler GenerateError Unit} (h : Becomes host t t' (steps t) act) :
    Becomes host t t' (Assembler.top >>= steps) act := by
  intro a rest a' stack run
  rw [Stateful.run_bind_ok (Assembler.top_eq_ok.mpr ⟨rest, stack, rfl⟩)] at run
  exact h a rest a' stack run

theorem throw (e : GenerateError) : Becomes host t t' (throw e) act := by
  intro a rest a' stack run
  cases run

theorem convert (host : Host) (t target : NativeType) :
    Becomes host t target (Assembler.convert target) (convertFrom t target) := by
  intro a rest a' stack run
  -- The types have to be numeric, or else the conversion is refused.
  obtain ⟨_, _, stack', numeric, -⟩ := Assembler.convert_eq_ok.mp run
  cases stack.symm.trans stack'
  exact of_turns (.convertTo numeric) a rest a' stack run

theorem checkCast (host : Host) (t : NativeType) (r : RefType) :
    Becomes host t (t.cast r) (Assembler.checkCast r) (castFrom t r) := by
  intro a rest a' stack run
  obtain ⟨_, _, stack', object, -⟩ := Assembler.checkCast_eq_ok.mp run
  cases stack.symm.trans stack'
  exact of_turns (.cast object r) a rest a' stack run

theorem invoke {m : Method} (returns : m.returns = some r) (one : m.operands.length = 1) :
    Becomes host t r (Assembler.invoke m) (fun v => m.act host [v]) := by
  intro a rest a' stack run
  obtain ⟨found, _, stack', fits, -⟩ := Assembler.invoke_eq_ok.mp run
  obtain ⟨u, rfl⟩ := List.length_eq_one_iff.mp (fits.length_eq.trans one)
  cases stack.symm.trans stack'
  exact of_turns (.invoke returns fits) a _ a' stack run

theorem pure (host : Host) (t : NativeType) : Becomes host t t (Pure.pure ()) Pure.pure :=
  of_turns .pure

theorem unboxBoxed (host : Host) (t target : NativeType) :
    Becomes host t target (MessageCode.unboxBoxed target) (unboxBoxedFrom host t target) := by
  have refused : ∀ act, Becomes host t target
      (Assembler.top >>= fun found => MonadExcept.throw (cannotUnbox target found)) act :=
    fun act => top (throw _)
  cases target with
  | bool => exact invoke rfl rfl
  | int => exact (invoke rfl rfl).seq (convert host .long .int)
  | long => exact (invoke rfl rfl).seq (convert host .long .long)
  | float => exact (invoke rfl rfl).seq (convert host .double .float)
  | double => exact (invoke rfl rfl).seq (convert host .double .double)
  | ref r =>
      cases r with
      | text => exact invoke rfl rfl
      | list => exact (checkCast host t (.boxed .list)).seq (invoke rfl rfl)
      | object => exact (checkCast host t (.boxed .proto)).seq (invoke rfl rfl)
      | message name =>
          exact (checkCast host t (.boxed .proto)).seq ((invoke rfl rfl).seq
            (of_turns (.checkCast rfl (.inl (by simp [Signature.object, NativeType.assignableTo,
              RefType.assignableTo])))))
      | _ => exact refused _

theorem unboxTop (host : Host) (t target : NativeType) :
    Becomes host t (t.unboxed target) (MessageCode.unboxTop target) (unboxFrom host t target) := by
  refine top ?_
  unfold NativeType.unboxed unboxFrom
  cases boxed : t.boxedKind?.isSome with
  | true => exact unboxBoxed host t target
  | false =>
      simp only [Bool.false_eq_true, if_false]
      cases fits : t.assignableTo target with
      | true => exact pure host t
      | false =>
          simp only [Bool.false_eq_true, if_false]
          cases numbers : t.isNumeric && target.isNumeric with
          | true => exact convert host t target
          | false =>
              simp only [Bool.false_eq_true, if_false]
              cases objects : decide (t = .ref .object) && !target.isPrimitive with
              | true =>
                  rw [if_pos rfl]
                  exact (checkCast host t (.boxed .any)).seq (unboxBoxed host _ target)
              | false =>
                  rw [if_neg Bool.false_ne_true]
                  exact throw _

theorem boxPresent (host : Host) (t : NativeType) (type : ValueType) :
    Becomes host t (t.boxedAs type) (MessageCode.boxPresent type) (boxFrom host t type) := by
  refine top ?_
  cases t with
  | bool => exact invoke rfl rfl
  | int => exact (convert host .int .long).seq (invoke rfl rfl)
  | long => exact (convert host .long .long).seq (invoke rfl rfl)
  | float => exact (convert host .float .double).seq (invoke rfl rfl)
  | double => exact (convert host .double .double).seq (invoke rfl rfl)
  | ref r =>
      cases r with
      | text =>
          cases type with
          | sanitized kind =>
              exact of_turns (.pushInvoke (.const (.int kind.ordinal)) rfl (.cons rfl (.cons rfl .nil)))
          | _ => exact invoke rfl rfl
      | message name => exact invoke rfl rfl
      | list => exact invoke rfl rfl
      | null => exact of_turns (.checkCast rfl (.inr rfl))
      | _ => exact throw _

theorem unboxed_assignable (t target : NativeType) : (t.unboxed target).assignableTo target = true := by
  unfold NativeType.unboxed
  split
  · exact target.assignableTo_refl
  · split
    · assumption
    · exact target.assignableTo_refl

theorem prepared (host : Host) (c : Coercion) (type : ValueType) (t : NativeType) :
    Becomes host t (c.preparedType type t) (Construction.unboxFor c type)
      (preparedFrom host c type t) := by
  unfold Construction.unboxFor Coercion.preparedType preparedFrom
  cases c.unboxTarget with
  | some target => exact unboxTop host t target
  | none =>
      refine top ?_
      cases boxed : t.boxedKind?.isNone with
      | false =>
          simp only [Bool.false_eq_true, if_false]
          exact pure host t
      | true =>
          have plain : t.boxedKind?.isSome = false := by simpa using boxed
          have direct : MessageCode.boxTop type false = Assembler.top >>= fun top =>
              if top.boxedKind?.isSome then Pure.pure () else MessageCode.boxPresent type := rfl
          simp only [if_true, direct]
          refine top ?_
          rw [plain, if_neg Bool.false_ne_true]
          exact boxPresent host t type

theorem coerce (host : Host) {c : Coercion} {t : NativeType}
    (fits : ∀ target, c.unboxTarget = some target → t.assignableTo target = true) :
    Becomes host t (c.coercedType t) c.coerce (coerceFrom host c t) := by
  cases c with
  | bool => exact pure host t
  | int32 => exact convert host t .int
  | int64 => exact pure host t
  | int64AsText => exact invoke rfl rfl
  | float => exact convert host t .float
  | double => exact pure host t
  | text => exact pure host t
  | bytes =>
      have operands : Fits [t, .ref .codec] Signature.base64Decode.operands :=
        .cons (fits _ rfl) (.cons rfl .nil)
      have decoded : Becomes host t (.ref .byteArray) _ (decodeFrom host) :=
        of_turns (.pushSwapInvoke (.invoke rfl rfl) rfl operands)
      have copied : Becomes host (.ref .byteArray) (.ref .byteString) _ _ :=
        invoke (m := Signature.byteStringCopyFrom) rfl rfl
      have steps : Coercion.bytes.coerce = (Assembler.invoke Signature.base64 >>= fun _ =>
          Assembler.swap >>= fun _ => Assembler.invoke Signature.base64Decode) >>= fun _ =>
            Assembler.invoke Signature.byteStringCopyFrom := by
        simp only [bind_assoc]
        rfl
      rw [steps]
      exact decoded.seq copied
  | legacyEnum name => exact (convert host t .int).seq (invoke rfl rfl)
  | modernEnum name => exact convert host t .int
  | message name => exact checkCast host t (.message name)
  | sanitized kind => exact (checkCast host t (.boxed .sanitized)).seq (invoke rfl rfl)

theorem operand (host : Host) (c : Coercion) (type : ValueType) (t : NativeType) :
    Becomes host t (c.operandType type t) (Construction.unboxFor c type >>= fun _ => c.coerce)
      (operandFrom host c type t) := by
  refine (prepared host c type t).seq (coerce host fun target unboxes => ?_)
  unfold Coercion.preparedType
  rw [unboxes]
  exact unboxed_assignable t target

theorem wrapped (host : Host) (t : NativeType) :
    Becomes host t t.wrapped
      (Assembler.top >>= fun top => if top.isPrimitive then Assembler.boxPrimitive else Pure.pure ())
      (wrapFrom t) := by
  refine top ?_
  unfold NativeType.wrapped wrapFrom
  cases primitive : t.isPrimitive with
  | false =>
      simp only [Bool.false_eq_true, if_false]
      exact pure host t
  | true =>
      simp only [if_true]
      have acts : Acts host [.box t] fun v =>
          if v.primitiveType? = some t then (monadLift (Machine.alloc (.wrapper v)) : Run Value)
          else Run.fault (.badOperand "box" t.render v.typeName) := by
        apply Acts.singleton
        · intro offset
          rfl
        · intro fuel v stack locals
          rw [Op.exec_box]
          split <;> rfl
      refine of_turns (Turns.singleton (fun a rest stack => ?_) acts)
      exact Assembler.boxPrimitive_eq_ok.mpr ⟨t, rest, stack, primitive, rfl⟩

theorem extensionOperand (host : Host) (c : Coercion) (type : ValueType) (t : NativeType) :
    Becomes host t (c.operandType type t).wrapped (Construction.extensionValue c type)
      (fun v => operandFrom host c type t v >>= wrapFrom (c.operandType type t)) := by
  have steps : Construction.extensionValue c type =
      (Construction.unboxFor c type >>= fun _ => c.coerce) >>= fun _ =>
        Assembler.top >>= fun top => if top.isPrimitive then Assembler.boxPrimitive else Pure.pure () := by
    rw [bind_assoc]
    rfl
  rw [steps]
  exact (operand host c type t).seq (wrapped host _)

end Becomes

end MessageCode
