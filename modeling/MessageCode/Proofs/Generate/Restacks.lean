import MessageCode.Proofs.Generate.AddAll

/-!
Constructions can be written. What the steps of a construction need is on the stack, as types, when an
argument has the type of its field, in native or in boxed form.
-/

namespace MessageCode

open Stateful

/-- On the first stack the steps can be written, and they leave the second. -/
def Restacks (stack stack' : List NativeType) (steps : Assembler GenerateError Unit) : Prop :=
  ∀ a, a.stack = stack → ∃ a', steps.run a = (.ok (), a') ∧ a'.stack = stack'

namespace Restacks

variable {stack stack' stack'' rest : List NativeType} {t t' u : NativeType}
  {steps more : Assembler GenerateError Unit}

theorem pure (stack : List NativeType) : Restacks stack stack (Pure.pure ()) :=
  fun a same => ⟨a, rfl, same⟩

theorem seq (h : Restacks stack stack' steps) (h' : Restacks stack' stack'' more) :
    Restacks stack stack'' (steps >>= fun _ => more) := by
  intro a same
  obtain ⟨b, run, left⟩ := h a same
  obtain ⟨c, run', left'⟩ := h' b left
  exact ⟨c, by rw [run_bind_ok run, run'], left'⟩

theorem forM {α : Type} {items : List α} {step : α → Assembler GenerateError Unit}
    (h : ∀ item ∈ items, Restacks stack stack (step item)) : Restacks stack stack (items.forM step) := by
  induction items with
  | nil => exact pure stack
  | cons item items ih =>
      exact (h item List.mem_cons_self).seq (ih fun item mem => h item (List.mem_cons_of_mem _ mem))

theorem top {steps : NativeType → Assembler GenerateError Unit}
    (h : Restacks (t :: rest) stack (steps t)) :
    Restacks (t :: rest) stack (Assembler.top >>= steps) := by
  intro a same
  obtain ⟨b, run, left⟩ := h a same
  refine ⟨b, ?_, left⟩
  rw [run_bind_ok (Assembler.top_eq_ok.mpr ⟨rest, same, rfl⟩), run]

theorem invoke {m : Method} (found rest : List NativeType) (fits : Fits found m.operands) :
    Restacks (found ++ rest) (m.returns.toList ++ rest) (Assembler.invoke m) := by
  intro a same
  exact ⟨_, Assembler.invoke_eq_ok.mpr ⟨found, rest, same, fits, rfl⟩, rfl⟩

theorem getStatic (f : StaticField) (stack : List NativeType) :
    Restacks stack (f.type :: stack) (Assembler.getStatic f) := by
  rintro a rfl
  exact ⟨_, Assembler.run_getStatic f a, rfl⟩

theorem dup (t : NativeType) (rest : List NativeType) :
    Restacks (t :: rest) (t :: t :: rest) Assembler.dup := by
  intro a same
  exact ⟨_, Assembler.dup_eq_ok.mpr ⟨t, rest, same, rfl⟩, rfl⟩

theorem pop (t : NativeType) (rest : List NativeType) : Restacks (t :: rest) rest Assembler.pop := by
  intro a same
  exact ⟨_, Assembler.pop_eq_ok.mpr ⟨t, rest, same, rfl⟩, rfl⟩

theorem swap (t u : NativeType) (rest : List NativeType) :
    Restacks (t :: u :: rest) (u :: t :: rest) Assembler.swap := by
  intro a same
  exact ⟨_, Assembler.swap_eq_ok.mpr ⟨t, u, rest, same, rfl⟩, rfl⟩

theorem load (l : Local) (stack : List NativeType) :
    Restacks stack (l.type :: stack) (Assembler.load l) := by
  intro a same
  exact ⟨_, Assembler.run_load l a, by rw [Assembly.put_stack, same]⟩

theorem store (l : Local) (stack : List NativeType) :
    Restacks (l.type :: stack) stack (Assembler.store l) := by
  intro a same
  exact ⟨_, Assembler.run_store stack same, rfl⟩

theorem pushConst (c : Constant) (stack : List NativeType) :
    Restacks stack (c.type :: stack) (Assembler.pushConst c) := by
  intro a same
  exact ⟨_, Assembler.run_pushConst c a, by rw [Assembly.put_stack, same]⟩

theorem increment {l : Local} (int : l.type = .int) (delta : Int32) (stack : List NativeType) :
    Restacks stack stack (Assembler.increment l delta) := by
  intro a same
  exact ⟨_, Assembler.increment_eq_ok.mpr ⟨int, rfl⟩, same⟩

theorem declareLocal {name : String} {steps : Local → Assembler GenerateError Unit}
    (h : ∀ l : Local, l.type = t → Restacks stack stack' (steps l)) :
    Restacks stack stack' (Assembler.declareLocal name t >>= steps) := by
  intro a same
  rw [run_bind_ok (Assembler.run_declareLocal ..)]
  exact h _ rfl _ same

theorem scope (h : Restacks stack stack' steps) : Restacks stack stack' (Assembler.scope steps) := by
  intro a same
  obtain ⟨b, run, left⟩ := h a.fork same
  exact ⟨_, Assembler.scope_eq_ok.mpr ⟨b, run, rfl⟩, left⟩

theorem whileLoop (found : List NativeType) {test : Test} (h : Restacks stack (found ++ stack) steps)
    (fits : Fits found test.operands.reverse) (h' : Restacks stack stack more) :
    Restacks stack stack (Assembler.whileLoop steps test more) := by
  intro a same
  obtain ⟨b, run, left⟩ := h a.fork same
  obtain ⟨c, run', left'⟩ := h' (a.adopt b).fork same
  rw [← same] at left left'
  exact ⟨_, Assembler.whileLoop_eq_ok.mpr ⟨b, found, c, run, left, fits, run', left', rfl⟩, same⟩

theorem branch {test : Test} {left right : List NativeType} (found : List NativeType)
    (fits : Fits found test.operands.reverse) (h : Restacks rest left steps)
    (h' : Restacks rest right more) (merge : Assembler.mergeSlots left right = some stack) :
    Restacks (found ++ rest) stack (Assembler.branch test steps more) := by
  intro a same
  obtain ⟨b, run, rfl⟩ := h (a.put [] rest).fork rfl
  obtain ⟨c, run', rfl⟩ := h' (a.put [] rest).fork rfl
  exact ⟨_, Assembler.branch_eq_ok.mpr ⟨found, rest, b, c, stack, same, fits, run, run', merge, rfl⟩, rfl⟩

theorem convert_self (t : NativeType) (rest : List NativeType) :
    Restacks (t :: rest) (t :: rest) (Assembler.convert t) := by
  intro a same
  exact ⟨a, Assembler.convert_eq_ok.mpr ⟨t, rest, same, .inl rfl, (if_pos rfl).symm⟩, same⟩

theorem checkCast (r : RefType) (object : t.assignableTo (.ref .object) = true)
    (rest : List NativeType) :
    Restacks (t :: rest) (t.cast r :: rest) (Assembler.checkCast r) := by
  intro a same
  refine ⟨_, Assembler.checkCast_eq_ok.mpr ⟨t, rest, same, object, rfl⟩, ?_⟩
  unfold NativeType.cast
  by_cases known : t.assignableTo (.ref r) = true ∧ t ≠ .null
  · rw [if_pos known, if_pos (by simpa using known), same]
  · rw [if_neg known, if_neg (by simpa using known), Assembly.put_stack]

theorem overList {name : String} {round : Local → Local → Assembler GenerateError Unit}
    (h : ∀ list index : Local, list.type = Signature.list → index.type = .int →
      Restacks stack stack (round list index)) :
    Restacks (Signature.list :: stack) stack (Construction.overList name round) := by
  have sized : Restacks (Signature.list :: stack) (.int :: stack)
      (Assembler.invoke Signature.listSize) := invoke [Signature.list] stack (.cons rfl .nil)
  unfold Construction.overList
  apply scope
  apply declareLocal
  intro list type
  have kept := store list stack
  have loaded := load list stack
  rw [type] at kept loaded
  apply kept.seq
  apply declareLocal
  intro size type'
  have kept' := store size stack
  have loaded' := load size (.int :: stack)
  rw [type'] at kept' loaded'
  apply loaded.seq
  apply sized.seq
  apply kept'.seq
  apply declareLocal
  intro index type''
  have kept'' := store index stack
  have loaded'' := load index stack
  rw [type''] at kept'' loaded''
  apply (pushConst (.int 0) stack).seq
  apply kept''.seq
  exact whileLoop [.int, .int] (loaded''.seq loaded') (.refl _)
    ((h list index type type'').seq (increment type'' 1 stack))

end Restacks

def ValueType.given (type : ValueType) (boxed : Bool) : NativeType :=
  if boxed then type.boxedType else type.nativeType

def Field.Takes (f : Field) (c : Coercion) (type : ValueType) : Prop :=
  if f.isRepeated then type = .list c.logicalType ∨ type = .emptyList else type = c.logicalType

/-- A value of the second type can be given for one of the first. -/
inductive ValueType.Suits (expected : ValueType) : ValueType → Prop
  | same : Suits expected expected
  | any : Suits expected .any
  | null : Suits expected .null
  | widened : expected = .float → Suits expected .int

theorem ValueType.accepts_iff {expected found : ValueType} :
    expected.accepts found = true ↔ expected.Suits found := by
  constructor
  · intro h
    unfold accepts at h
    split at h
    · exact .any
    · exact .null
    · exact .widened rfl
    · cases of_decide_eq_true h
      exact .same
  · rintro (_ | _ | _ | rfl)
    · cases expected <;> simp [accepts]
    · rfl
    · rfl
    · rfl

def Field.Admits (f : Field) (type found : ValueType) : Prop :=
  if f.isRepeated then
    found = .null ∨ found = .any ∨ found = .emptyList ∨ ∃ item, found = .list item ∧ type.Suits item
  else type.Suits found

theorem Field.Takes.admits {f : Field} {c : Coercion} {type : ValueType} (h : f.Takes c type) :
    f.Admits c.logicalType type := by
  unfold Takes at h
  unfold Admits
  split at h
  · rw [if_pos ‹_›]
    rcases h with rfl | rfl
    · exact .inr (.inr (.inr ⟨_, rfl, .same⟩))
    · exact .inr (.inr (.inl rfl))
  · rw [if_neg ‹_›, h]
    exact .same

theorem Shape.repeated_acceptsArgument_iff {c : Coercion} {extension : Bool} {found : ValueType} :
    (Shape.repeated c extension).acceptsArgument found = true ↔
      found = .null ∨ found = .any ∨ found = .emptyList ∨
        ∃ item, found = .list item ∧ c.logicalType.Suits item := by
  cases found <;> simp [acceptsArgument, ValueType.accepts_iff]

/-- Every extension has an identifier. -/
theorem Signature.exists_extensionId {f : Field} (extension : f.isExtension = true) :
    ∃ identifier, Signature.extensionId f = .ok identifier ∧ identifier.type = Signature.extension := by
  obtain ⟨scope, declared⟩ := Option.isSome_iff_exists.mp extension
  cases scope with
  | message name => exact ⟨_, by rw [Signature.extensionId, declared], rfl⟩
  | file holder => exact ⟨_, by rw [Signature.extensionId, declared], rfl⟩

def ListResolver.Waits (resolver : ListResolver) : Prop :=
  ∃ wait, resolver.resolveList = .ok wait ∧ wait.inputs = [Signature.list] ∧
    wait.output = some Signature.list

theorem ListResolver.immediate_waits : immediate.Waits := ⟨wait, rfl, rfl, rfl⟩

namespace Restacks

variable {stack rest : List NativeType} {t u w : NativeType} {steps : Assembler GenerateError Unit}

theorem cast_message (name : String) (rest : List NativeType) :
    Restacks (.message name :: rest) (.message name :: rest) (Assembler.checkCast (.message name)) := by
  have casts := checkCast (t := .message name) (.message name) rfl rest
  rwa [show (NativeType.message name).cast (.message name) = .message name from ite_self _] at casts

variable {target : NativeType}

theorem coerce (c : Coercion) (unboxes : c.unboxTarget = some target) (rest : List NativeType) :
    Restacks (target :: rest) (c.storageType :: rest) c.coerce := by
  cases c with
  | message name =>
      cases unboxes
      exact cast_message name rest
  | bytes =>
      cases unboxes
      have codec := invoke (m := Signature.base64) [] (.text :: rest) .nil
      have decodes := invoke (m := Signature.base64Decode) [.text, .ref .codec] rest (.refl _)
      have copies := invoke (m := Signature.byteStringCopyFrom) [.ref .byteArray] rest (.refl _)
      exact codec.seq ((swap (.ref .codec) .text rest).seq (decodes.seq copies))
  | sanitized kind => cases unboxes
  | _ =>
      cases unboxes
      rintro ⟨ops, inputs, stack, _, _, _⟩ rfl
      exact ⟨_, rfl, rfl⟩

theorem unboxBoxed (c : Coercion) (unboxes : c.unboxTarget = some target) (kind : BoxedKind)
    (rest : List NativeType) :
    Restacks (.boxed kind :: rest) (target :: rest) (MessageCode.unboxBoxed target) := by
  have reads (name : String) (t : NativeType) : Restacks (.boxed kind :: rest) (t :: rest)
      (Assembler.invoke (Signature.unbox name t)) := by
    have fits : (NativeType.boxed kind).assignableTo (.boxed .any) = true := by cases kind <;> rfl
    exact invoke [.boxed kind] rest (.cons fits .nil)
  cases c with
  | message name =>
      cases unboxes
      have casts := checkCast (t := .boxed kind) (.boxed .proto) rfl rest
      rw [show (NativeType.boxed kind).cast (.boxed .proto) = .boxed .proto by cases kind <;> rfl] at casts
      have gets := invoke (m := Signature.getProto) [.boxed .proto] rest (.refl _)
      have casts' := checkCast (t := Signature.object) (.message name) rfl rest
      exact casts.seq (gets.seq casts')
  | bool =>
      cases unboxes
      exact reads _ _
  | int64AsText | text | bytes =>
      cases unboxes
      exact reads _ _
  | sanitized => cases unboxes
  | _ =>
      cases unboxes
      exact (reads _ _).seq (convert_self _ _)

theorem operand_boxed (c : Coercion) (type : ValueType) (kind : BoxedKind) (rest : List NativeType) :
    Restacks (.boxed kind :: rest) (c.storageType :: rest)
      (Construction.unboxFor c type >>= fun _ => c.coerce) := by
  cases unboxes : c.unboxTarget with
  | some target =>
      unfold Construction.unboxFor
      rw [unboxes]
      exact (top (unboxBoxed c unboxes kind rest)).seq (coerce c unboxes rest)
  | none =>
      cases c with
      | sanitized target =>
          have kept : Restacks (.boxed kind :: rest) (.boxed kind :: rest)
              (Construction.unboxFor (.sanitized target) type) := top (pure _)
          have casts := checkCast (t := .boxed kind) (.boxed .sanitized) rfl rest
          rw [show (NativeType.boxed kind).cast (.boxed .sanitized) = .boxed .sanitized by
            cases kind <;> rfl] at casts
          have calls := invoke (m := Signature.toSafeProto target) [.boxed .sanitized] rest (.refl _)
          exact kept.seq (casts.seq calls)
      | _ => cases unboxes

theorem operand_native (c : Coercion) (rest : List NativeType) :
    Restacks (c.logicalType.nativeType :: rest) (c.storageType :: rest)
      (Construction.unboxFor c c.logicalType >>= fun _ => c.coerce) := by
  cases unboxes : c.unboxTarget with
  | some target =>
      have plain : c.logicalType.nativeType.boxedKind?.isSome ≠ true := by
        cases c <;> exact Bool.false_ne_true
      have same : c.logicalType.nativeType = target := by cases c <;> cases unboxes <;> rfl
      rw [same] at plain ⊢
      have kept : Restacks (target :: rest) (target :: rest) (unboxTop target) := by
        apply top
        rw [if_neg plain, if_pos (NativeType.assignableTo_refl _)]
        exact pure _
      unfold Construction.unboxFor
      rw [unboxes]
      exact kept.seq (coerce c unboxes rest)
  | none =>
      cases c with
      | sanitized target =>
          rintro ⟨ops, inputs, stack, _, _, _⟩ rfl
          exact ⟨_, rfl, rfl⟩
      | _ => cases unboxes

theorem operand_widened (c : Coercion) (float : c.logicalType = .float) (rest : List NativeType) :
    Restacks (.long :: rest) (c.storageType :: rest)
      (Construction.unboxFor c .int >>= fun _ => c.coerce) := by
  cases c with
  | float | double =>
      rintro ⟨ops, inputs, stack, _, _, _⟩ rfl
      exact ⟨_, rfl, rfl⟩
  | _ => cases float

/-- A value that can be given for one of the logical type becomes an operand of the setter. The null
literal in native form is left out: constructions write no code for it. -/
theorem operand (c : Coercion) {type : ValueType} (suits : c.logicalType.Suits type)
    {boxed : Bool} (formed : type ≠ .null ∨ boxed = true) (rest : List NativeType) :
    Restacks (type.given boxed :: rest) (c.storageType :: rest)
      (Construction.unboxFor c type >>= fun _ => c.coerce) := by
  cases boxed with
  | true => exact operand_boxed c type type.boxedKind rest
  | false =>
      cases suits with
      | same => exact operand_native c rest
      | any => exact operand_boxed c .any .any rest
      | null => simp at formed
      | widened float => exact operand_widened c float rest

/-- A value that can be given for one of the logical type is stored through the setter. -/
theorem storeValue (f : Field) (c : Coercion) {type : ValueType} (suits : c.logicalType.Suits type)
    {boxed : Bool}
    (formed : type ≠ .null ∨ boxed = true) :
    Restacks [type.given boxed, .builder f.container] [.builder f.container]
      (Construction.storeValue f c type) := by
  have stores := (operand c suits formed [.builder f.container]).seq
    (invoke (m := Signature.setter f c.storageType) [c.storageType, .builder f.container] [] (.refl _))
  rw [bind_assoc] at stores
  exact stores

theorem wrapped_assignable (t : NativeType) : t.wrapped.assignableTo (.ref .object) = true := by
  cases t <;> simp [NativeType.wrapped, NativeType.isPrimitive, NativeType.assignableTo,
    RefType.assignableTo]

theorem extensionValue (c : Coercion) {type : ValueType} (suits : c.logicalType.Suits type)
    {boxed : Bool} (formed : type ≠ .null ∨ boxed = true) (rest : List NativeType) :
    Restacks (type.given boxed :: rest) (c.storageType.wrapped :: rest)
      (Construction.extensionValue c type) := by
  have wraps : Restacks (c.storageType :: rest) (c.storageType.wrapped :: rest)
      (Assembler.top >>= fun top =>
        if top.isPrimitive then Assembler.boxPrimitive else Pure.pure ()) := by
    rintro ⟨ops, inputs, stack, _, _, _⟩ rfl
    cases c.storageType <;> exact ⟨_, rfl, rfl⟩
  have stores := (operand c suits formed rest).seq wraps
  rw [bind_assoc] at stores
  exact stores

variable {v : TypedValue}

theorem append (alone : v.code.inputs = []) (stack : List NativeType) :
    Restacks stack (v.native :: stack) (Assembler.append v.code) := by
  intro a same
  have fits : Fits [] v.code.inputs.reverse := by
    rw [alone]
    exact .nil
  refine ⟨_, Assembler.append_eq_ok.mpr ⟨[], stack, same, fits, rfl⟩, ?_⟩
  rw [Assembly.put_stack, v.output_eq]
  rfl

theorem tested (alone : v.code.inputs = []) (test : Construction.needsNullTest v = true)
    (h : Restacks [v.native, u] [w] steps) (merge : u.merge w = some t) :
    Restacks [u] [t] (Assembler.append v.code >>= fun _ => Assembler.dup >>= fun _ =>
      Assembler.branch .isNull Assembler.pop steps) := by
  have object : v.native.assignableTo (.ref .object) = true := by
    unfold Construction.needsNullTest at test
    simp only [Bool.and_eq_true, Bool.not_eq_true'] at test
    cases native : v.native with
    | ref r => simp [NativeType.assignableTo, RefType.assignableTo]
    | _ =>
        rw [native] at test
        cases test.2
  have slots : Assembler.mergeSlots [u] [w] = some [t] := by
    rw [Assembler.mergeSlots, merge]
    rfl
  exact (append alone [u]).seq ((dup v.native [u]).seq
    (branch [v.native] (.cons object .nil) (pop v.native [u]) h slots))

theorem unlessNull (alone : v.code.inputs = []) (h : Restacks [v.native, u] [u] steps) :
    Restacks [u] [u] (Construction.unlessNull v steps) := by
  unfold Construction.unlessNull
  cases test : Construction.needsNullTest v with
  | true =>
      simp only [if_true]
      exact tested alone test h (NativeType.merge_self u)
  | false =>
      simp only [Bool.false_eq_true, if_false]
      exact (append alone [u]).seq h

variable {f : Field} {c : Coercion} {boxed : Bool}

theorem setSingular (alone : v.code.inputs = []) (suits : c.logicalType.Suits v.type)
    (formed : v.type ≠ .null ∨ boxed = true) (native : v.native = v.type.given boxed) :
    Restacks [.builder f.container] [.builder f.container] (Construction.setSingular f c v) := by
  unfold Construction.setSingular
  apply unlessNull alone
  rw [native]
  exact storeValue f c suits formed

theorem storeExtension (m : Method) (params : m.params = [Signature.extension, Signature.object])
    (owner : m.owner = .extendableBuilder) (onInstance : m.isStatic = false)
    (returns : m.returns = some (.ref .extendableBuilder)) (t : NativeType) (message : String) :
    Restacks [t.wrapped, Signature.extension, .builder message] [.ref .extendableBuilder]
      (Assembler.invoke m) := by
  have widens : (NativeType.builder message).assignableTo (.ref .extendableBuilder) = true := by
    simp [NativeType.assignableTo, RefType.assignableTo]
  have fits : Fits [t.wrapped, Signature.extension, .builder message] m.operands := by
    unfold Method.operands
    rw [params, owner, onInstance]
    exact .cons (wrapped_assignable t) (.cons rfl (.cons widens .nil))
  have calls := invoke [t.wrapped, Signature.extension, .builder message] [] fits
  rw [returns] at calls
  exact calls

theorem asExtendable {message : String}
    (h : Restacks [.builder message] [.ref .extendableBuilder] steps) :
    Restacks [.builder message] [.builder message] (Assembler.checkCast .extendableBuilder >>= fun _ =>
      steps >>= fun _ => Assembler.checkCast (.builder message)) := by
  have wide : (NativeType.builder message).cast .extendableBuilder = .builder message := by
    simp [NativeType.cast, NativeType.assignableTo, RefType.assignableTo]
  have narrow : (NativeType.ref .extendableBuilder).cast (.builder message) = .builder message := by
    simp [NativeType.cast, NativeType.assignableTo, RefType.assignableTo]
  have widens := checkCast (t := .builder message) .extendableBuilder rfl []
  have narrows := checkCast (t := .ref .extendableBuilder) (.builder message) rfl []
  rw [wide] at widens
  rw [narrow] at narrows
  exact widens.seq (h.seq narrows)

theorem setExtension (extension : f.isExtension = true) (alone : v.code.inputs = [])
    (suits : c.logicalType.Suits v.type) (formed : v.type ≠ .null ∨ boxed = true)
    (native : v.native = v.type.given boxed) :
    Restacks [.builder f.container] [.builder f.container] (Construction.setExtension f c v) := by
  obtain ⟨identifier, identifies, type⟩ := Signature.exists_extensionId extension
  have fetches := getStatic identifier
  rw [type] at fetches
  have sets (t : NativeType) := storeExtension Signature.setExtension rfl rfl rfl rfl t f.container
  have value := extensionValue c suits formed
  rw [← native] at value
  unfold Construction.setExtension
  rw [identifies, Assembler.ofExcept, pure_bind]
  cases test : Construction.needsNullTest v with
  | true =>
      have stores := (value [.builder f.container]).seq ((fetches _).seq ((swap _ _ _).seq (sets _)))
      have merge : (NativeType.builder f.container).merge (.ref .extendableBuilder) =
          some (.ref .extendableBuilder) := by
        simp [NativeType.merge, RefType.assignableTo]
      have tests := asExtendable (tested alone test stores merge)
      simp only [bind_assoc] at tests
      simp only [if_true]
      exact tests
  | false =>
      have stores := asExtendable ((fetches _).seq ((append alone _).seq ((value _).seq (sets _))))
      simp only [bind_assoc] at stores
      simp only [Bool.false_eq_true, if_false]
      exact stores

theorem loadElement {list index : Local} (type : list.type = Signature.list)
    (type' : index.type = .int) (kind : BoxedKind) (stack : List NativeType) :
    Restacks stack (.boxed kind :: stack) (Construction.loadElement list index kind) := by
  have loads := load list stack
  rw [type] at loads
  have loads' := load index (Signature.list :: stack)
  rw [type'] at loads'
  have gets : Restacks (.int :: Signature.list :: stack) (Signature.object :: stack)
      (Assembler.invoke Signature.listGet) := invoke [.int, Signature.list] stack (.refl _)
  have casts : Restacks (Signature.object :: stack) (.ref .provider :: stack)
      (Assembler.checkCast .provider) := checkCast (t := Signature.object) .provider rfl stack
  have resolves : Restacks (.ref .provider :: stack) (.boxed .any :: stack)
      (Assembler.invoke Signature.resolve) := invoke [.ref .provider] stack (.refl _)
  have casts' := checkCast (t := .boxed .any) (.boxed kind) rfl stack
  have same : (NativeType.boxed .any).cast (.boxed kind) = .boxed kind := by
    cases kind <;> rfl
  rw [same] at casts'
  exact loads.seq (loads'.seq (gets.seq (casts.seq (resolves.seq casts'))))

theorem round (f : Field) (c : Coercion) {type : ValueType} (suits : c.logicalType.Suits type)
    {list index : Local} (listType : list.type = Signature.list) (indexType : index.type = .int) :
    Restacks [.builder f.container] [.builder f.container]
      (if f.isExtension then Construction.addExtensionElement f c type list index
        else Construction.loadElement list index type.boxedKind >>= fun _ =>
          Construction.storeValue f c type) := by
  have loads := loadElement listType indexType type.boxedKind
  cases extension : f.isExtension with
  | false =>
      simp only [Bool.false_eq_true, if_false]
      exact (loads _).seq (storeValue f c suits (.inr rfl))
  | true =>
      obtain ⟨identifier, identifies, type'⟩ := Signature.exists_extensionId extension
      have fetches := getStatic identifier
      rw [type'] at fetches
      have adds (t : NativeType) := storeExtension Signature.addExtension rfl rfl rfl rfl t f.container
      have stores := asExtendable ((fetches _).seq ((loads _).seq
        ((extensionValue c suits (.inr rfl) _).seq (adds _))))
      unfold Construction.addExtensionElement
      rw [identifies]
      simp only [bind_assoc] at stores
      simp only [if_true, Assembler.ofExcept, pure_bind]
      exact stores

variable {resolver : ListResolver}

/-- The elements of a list are added once the code has waited for them. -/
theorem setRepeated (waits : resolver.Waits) (alone : v.code.inputs = [])
    (admits : v.type = .any ∨ v.type = .emptyList ∨ ∃ item, v.type = .list item ∧ c.logicalType.Suits item)
    (native : v.native = v.type.given boxed) :
    Restacks [.builder f.container] [.builder f.container]
      (Construction.setRepeated resolver f c f.isExtension v) := by
  unfold Construction.setRepeated
  split
  · exact pure _
  rename_i filled
  have suits : c.logicalType.Suits (Construction.elementType v.type) := by
    rcases admits with type | type | ⟨item, type, suits⟩
    · rw [type]
      exact .any
    · exact absurd type filled
    · rw [type]
      exact suits
  have unboxes : Restacks [v.native, .builder f.container] [Signature.list, .builder f.container]
      (unboxTop Signature.list) := by
    rw [native]
    rintro ⟨ops, inputs, stack, _, _, _⟩ rfl
    rcases admits with type | type | ⟨item, type, -⟩
    · rw [type]
      cases boxed <;> exact ⟨_, rfl, rfl⟩
    · exact absurd type filled
    · rw [type]
      cases boxed <;> exact ⟨_, rfl, rfl⟩
  obtain ⟨wait, given, inputs, output⟩ := waits
  have appends : Restacks [Signature.list, .builder f.container] [Signature.list, .builder f.container]
      (Assembler.append wait) := by
    intro a same
    refine ⟨_, Assembler.append_eq_ok.mpr ⟨[Signature.list], _, same, ?_, rfl⟩, ?_⟩
    · rw [inputs]
      exact .refl _
    · rw [output]
      rfl
  rw [given]
  apply unlessNull alone
  refine unboxes.seq ?_
  change Restacks _ _ (Assembler.append wait >>= fun _ => Construction.addAll f c f.isExtension _)
  rw [Construction.addAll_eq]
  exact appends.seq (overList fun list index type type' => round f c suits type type')

/-- An argument that the field admits can be stored. -/
theorem setArgument {s : Schema} (waits : resolver.Waits) {message name : String}
    (named : s.field? message name = some f) (container : f.container = message)
    (coercion : Coercion.of s f = .ok c) (alone : v.code.inputs = [])
    (admits : f.Admits c.logicalType v.type) (native : v.native = v.type.given boxed) :
    Restacks [.builder message] [.builder message]
      (Construction.setArgument s resolver message (name, v)) := by
  have isEmpty : v.code.inputs.isEmpty = true := by
    rw [alone]
    rfl
  unfold Construction.setArgument
  dsimp only
  rw [named]
  dsimp only
  rw [if_pos isEmpty, ← container]
  by_cases null : v.type = .null
  · rw [if_pos null]
    exact pure _
  rw [if_neg null]
  cases many : f.isRepeated with
  | true =>
      unfold Field.Admits at admits
      rw [if_pos many] at admits
      rw [Shape.of_repeated coercion many]
      change Restacks _ _ (if (Shape.repeated c f.isExtension).acceptsArgument v.type then _ else _)
      rw [if_pos (Shape.repeated_acceptsArgument_iff.mpr admits)]
      exact setRepeated waits alone (admits.resolve_left null) native
  | false =>
      have suits : c.logicalType.Suits v.type := by
        unfold Field.Admits at admits
        rwa [many, if_neg Bool.false_ne_true] at admits
      have accepts := ValueType.accepts_iff.mpr suits
      cases extension : f.isExtension with
      | false =>
          obtain ⟨test, shape⟩ := Shape.exists_of_declared coercion many extension
          rw [shape]
          change Restacks _ _ (if c.logicalType.accepts v.type then _ else _)
          rw [if_pos accepts]
          exact setSingular alone suits (.inl null) native
      | true =>
          obtain ⟨presence, shape⟩ := Shape.exists_of_extension coercion many extension
          rw [shape]
          change Restacks _ _ (if c.logicalType.accepts v.type then _ else _)
          rw [if_pos accepts]
          exact setExtension extension alone suits (.inl null) native

end Restacks

theorem TypedValue.exists_assemble (inputs : List NativeType) {t : NativeType}
    {steps : Assembler GenerateError Unit} (h : Restacks inputs.reverse [t] steps) (nonNull : Bool)
    (type : ValueType) : ∃ v, assemble inputs nonNull type steps = .ok v := by
  obtain ⟨a, run, left⟩ := h (.start inputs) rfl
  exact ⟨_, assemble_of_run run left nonNull type⟩

/-- Without arguments the code takes the default instance, and otherwise it fills a new builder and builds
it. -/
theorem generateConstruction_eq_ok {s : Schema} {resolver : ListResolver} {message : String}
    {arguments : List (String × TypedValue)} {v : TypedValue} :
    generateConstruction s resolver message arguments = .ok v ↔
      ¬(s.message? message).isNone = true ∧ TypedValue.assemble [] true (.message message) (do
        if arguments.isEmpty then Assembler.invoke (Signature.defaultInstance message)
        else
          Assembler.invoke (Signature.newBuilder message)
          arguments.forM (Construction.setArgument s resolver message)
          Assembler.invoke (Signature.build message)) = .ok v := by
  unfold generateConstruction
  exact Fallible.refuse_eq_ok

/-- There is code for a message if all arguments can be stored. -/
theorem exists_generateConstruction {s : Schema} {message : String} {m : Message}
    {resolver : ListResolver} {arguments : List (String × TypedValue)}
    (found : s.message? message = some m)
    (stores : ∀ argument ∈ arguments, Restacks [.builder message] [.builder message]
      (Construction.setArgument s resolver message argument)) :
    ∃ k, generateConstruction s resolver message arguments = .ok k := by
  have starts : Restacks [] [.builder message] (Assembler.invoke (Signature.newBuilder message)) :=
    .invoke [] [] .nil
  have builds : Restacks [.builder message] [.message message]
      (Assembler.invoke (Signature.build message)) := .invoke [.builder message] [] (.refl _)
  have defaults : Restacks [] [.message message]
      (Assembler.invoke (Signature.defaultInstance message)) := .invoke [] [] .nil
  have fills := starts.seq ((Restacks.forM stores).seq builds)
  have writes : Restacks [] [.message message]
      (if arguments.isEmpty then Assembler.invoke (Signature.defaultInstance message)
        else Assembler.invoke (Signature.newBuilder message) >>= fun _ =>
          arguments.forM (Construction.setArgument s resolver message) >>= fun _ =>
            Assembler.invoke (Signature.build message)) := by
    split
    · exact defaults
    · exact fills
  obtain ⟨k, assembled⟩ := TypedValue.exists_assemble [] writes true (.message message)
  exact ⟨k, generateConstruction_eq_ok.mpr ⟨by simp [found], assembled⟩⟩

theorem Schema.Loaded.exists_generateConstruction {s : Schema} (loaded : s.Loaded)
    {message name : String} {m : Message} {f : Field} {c : Coercion} {v : TypedValue} {boxed : Bool}
    (found : s.message? message = some m) (named : s.field? message name = some f)
    (coercion : Coercion.of s f = .ok c) (alone : v.code.inputs = [])
    (takes : f.Takes c v.type) (native : v.native = v.type.given boxed) :
    ∃ k, generateConstruction s .immediate message [(name, v)] = .ok k := by
  apply MessageCode.exists_generateConstruction found
  intro argument mem
  obtain rfl := List.mem_singleton.mp mem
  have container := loaded.container found (Schema.Loaded.mem_of_field? found named)
  exact .setArgument ListResolver.immediate_waits named container coercion alone takes.admits native

end MessageCode
