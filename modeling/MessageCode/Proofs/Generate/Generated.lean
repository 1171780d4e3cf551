import MessageCode.Proofs.Generate.Coerced
import MessageCode.Proofs.Generate.Fills
import MessageCode.Proofs.Machine.Present

/-!
Generated values: whatever literals, inputs, coercions and generators make, nested to any depth. One that
is marked as never null is not null, and a message is in it where it is a boxed message.
-/

namespace MessageCode

open Stateful

namespace TypedValue

/-- Values as the constructors and the generators make them of one another, with a mark for each input of
their code that tells whether it is declared never to be null. The resolvers of the constructions in them
are restricted to some. -/
inductive Generated (s : Schema) (resolves : ListResolver → Prop) : TypedValue → List Bool → Prop
  | ofBool (b : Bool) : Generated s resolves (ofBool b) []
  | ofLong (n : Int64) : Generated s resolves (ofLong n) []
  | ofDouble (x : Numeric.Double) : Generated s resolves (ofDouble x) []
  | ofText (t : String) : Generated s resolves (ofText t) []
  | null : Generated s resolves null []
  | ofSanitized {kind content v} : ofSanitized kind content = .ok v → Generated s resolves v []
  | listOf {element items v} (declared : TypedValue → List Bool) :
      (∀ item ∈ items, Generated s resolves item (declared item)) → listOf element items = .ok v →
      Generated s resolves v []
  | emptyList {v} : emptyList = .ok v → Generated s resolves v []
  | input {type boxed nullable v} : input type boxed nullable = .ok v → Generated s resolves v [!nullable]
  | asNullable {v declared} : Generated s resolves v declared → Generated s resolves v.asNullable declared
  | box {v declared v'} : Generated s resolves v declared → v.box = .ok v' → Generated s resolves v' declared
  | unboxAs {v declared target v'} : Generated s resolves v declared → v.unboxAs target = .ok v' →
      Generated s resolves v' declared
  | cast {v declared target v'} : Generated s resolves v declared → v.cast target = .ok v' →
      Generated s resolves v' declared
  | access {base declared message field v} : Generated s resolves base declared →
      generateAccess s message base field = .ok v → Generated s resolves v declared
  | construction {resolver message arguments v} (declared : TypedValue → List Bool) : resolves resolver →
      (∀ argument ∈ arguments, Generated s resolves argument.2 (declared argument.2)) →
      generateConstruction s resolver message arguments = .ok v → Generated s resolves v []

/-- An input that is declared never to be null is there. -/
def Supplied (nonNull : Bool) (v : Value) : Prop := nonNull = true → v.Present

def Supplies (declared : List Bool) (stack : List Value) : Prop :=
  ∃ inputs rest, stack = inputs.reverse ++ rest ∧ List.Forall₂ Supplied declared inputs

end TypedValue

theorem Method.method_of_takeOperands {m : Method} {frame frame' : Frame} {c : Call}
    (taken : m.takeOperands frame = .ok (c, frame')) : c.method = m := by
  unfold takeOperands at taken
  obtain ⟨⟨args, between⟩, -, taken⟩ := Fallible.bind_eq_ok.mp taken
  dsimp only at taken
  split at taken
  · cases taken
    rfl
  · obtain ⟨⟨receiver, under⟩, -, taken⟩ := Fallible.bind_eq_ok.mp taken
    dsimp only at taken
    split at taken
    · cases taken
    · cases taken
      rfl

theorem Method.exists_result {host : Host} {m : Method} (returns : m.returns.isSome = true)
    {frame frame' : Frame} {machine machine' : Machine}
    (run : (m.exec host false frame).run machine = (.ok frame', machine')) :
    ∃ c v rest, c.method = m ∧ frame'.stack = v :: rest ∧
      ∃ before, (host.call c).run before = (.ok v, machine') := by
  unfold exec at run
  obtain ⟨⟨c, left⟩, m₁, taken, run⟩ := bind_eq_ok.mp run
  obtain ⟨v, m₂, called, last⟩ := bind_eq_ok.mp run
  rw [if_pos returns] at last
  cases last
  have method : c.method = m := by
    rw [Run.run_ofExcept] at taken
    cases operands : m.takeOperands frame with
    | error f =>
        rw [operands] at taken
        cases taken
    | ok result =>
        rw [operands] at taken
        cases taken
        exact method_of_takeOperands operands
  have performed : (perform host false c).run m₁ = (.ok v, machine') := called
  exact ⟨c, v, left.stack, method, rfl, perform_eq_ok performed⟩

/-- Whichever run of the code ends leaves a value with the property on top. -/
def Op.Leaves (host : Host) (start : List Value → Prop) (P : Value → Prop) (ops : List Op) : Prop :=
  ∀ fuel stack locals m frame m', start stack →
    (Op.execAll host fuel ops ⟨stack, locals⟩).run m = (.ok frame, m') →
      ∃ v rest, frame.stack = v :: rest ∧ P v

/-- The code that is written leaves such a value, which is known to be of the type. -/
structure Assembly.Leaves (host : Host) (start : List Value → Prop) (t : NativeType) (P : Value → Prop)
    (a : Assembly) : Prop where
  stack : ∃ rest, a.stack = t :: rest
  ops : Op.Leaves host start P a.ops

namespace Assembly.Leaves

variable {host : Host} {start : List Value → Prop} {t t' : NativeType} {P Q : Value → Prop}
  {a a' : Assembly}

theorem becomes {steps : Assembler GenerateError Unit} {act : Value → Run Value}
    (h : a.Leaves host start t P) (turns : Becomes host t t' steps act)
    (run : steps.run a = (.ok (), a')) (keeps : ∀ v, P v → Ensures (act v) Q) :
    a'.Leaves host start t' Q := by
  obtain ⟨rest, stack⟩ := h.stack
  obtain ⟨ops, wrote, acts⟩ := turns a rest a' stack run
  refine ⟨⟨rest, wrote.stack⟩, ?_⟩
  intro fuel under locals m frame m' starts ended
  rw [wrote.ops, Op.execAll_append] at ended
  obtain ⟨⟨between, locals'⟩, m₁, first, second⟩ := bind_eq_ok.mp ended
  obtain ⟨v, left, rfl, holds⟩ := h.ops fuel under locals m _ m₁ starts first
  rw [acts.exec] at second
  obtain ⟨w, m₂, acted, last⟩ := bind_eq_ok.mp second
  cases last
  exact ⟨w, left, rfl, keeps v holds m₁ w m' acted⟩

end Assembly.Leaves

/-- The steps end with such a value, whatever is written before them. -/
def Assembler.Ends (host : Host) (start : List Value → Prop) (t : NativeType) (P : Value → Prop)
    (steps : Assembler GenerateError Unit) : Prop :=
  ∀ a a', steps.run a = (.ok (), a') → a'.Leaves host start t P

namespace Assembler.Ends

variable {host : Host} {start : List Value → Prop} {t t' : NativeType} {P Q : Value → Prop}

theorem after {α : Type} {x : Assembler GenerateError α} {f : α → Assembler GenerateError Unit}
    (h : ∀ y, (f y).Ends host start t P) : (x >>= f).Ends host start t P := by
  intro a a' run
  obtain ⟨y, b, -, rest⟩ := bind_eq_ok.mp run
  exact h y b a' rest

theorem becomes {steps more : Assembler GenerateError Unit} {act : Value → Run Value}
    (h : steps.Ends host start t P) (turns : Becomes host t t' more act)
    (keeps : ∀ v, P v → Ensures (act v) Q) : (steps >>= fun _ => more).Ends host start t' Q := by
  intro a a' run
  obtain ⟨⟨⟩, b, first, second⟩ := bind_eq_ok.mp run
  exact (h a b first).becomes turns second keeps

theorem invoke {m : Method} (returns : m.returns = some t)
    (known : ∀ c, c.method = m → Ensures (host.call c) P) : (Assembler.invoke m).Ends host start t P := by
  intro a a' run
  obtain ⟨found, rest, -, -, rfl⟩ := Assembler.invoke_eq_ok.mp run
  refine ⟨⟨rest, by simp [returns]⟩, ?_⟩
  intro fuel under locals m₀ frame m' starts ended
  rw [Assembly.put_ops, Op.execAll_append] at ended
  obtain ⟨before, m₁, -, last⟩ := bind_eq_ok.mp ended
  have called : (m.exec host false before).run m₁ = (.ok frame, m') := by
    rwa [Op.execAll_singleton] at last
  obtain ⟨c, v, under', method, top, between, gave⟩ := m.exists_result (by rw [returns]; rfl) called
  exact ⟨v, under', top, known c method between v m' gave⟩

end Assembler.Ends

/-- Operations that give something whenever they return. -/
def Method.isPlain (m : Method) : Bool :=
  match m.owner with
  | .list => m.name ≠ "get"
  | .provider => m.name ≠ "resolve"
  | .boxed _ => m.name ≠ "get_proto" && m.name ≠ "get_field"
  | .enum _ => m.name ≠ "for_number"
  | _ => true

theorem Native.invoke_plain (s : Schema) {c : Call} (plain : c.method.isPlain = true) :
    Ensures (Native.invoke s c) Value.Present := by
  refine (Native.invoke_present s c).imp fun v given => ?_
  rcases given with present | exempt
  · exact present
  · unfold Method.isPlain at plain
    cases exempt with
    | item owner name | resolved owner name | content owner name | unset owner name
    | undeclared owner name =>
        rw [owner] at plain
        simp [show c.method.name = _ from name] at plain

/-- The message in a box is there. -/
theorem Native.invoke_getProto (s : Schema) {c : Call} (method : c.method = Signature.getProto)
    (receiver : ∀ w, c.receiver = some w → w.Present) : Ensures (Native.invoke s c) Value.Present := by
  refine (invoke_present s c).imp fun v given => given.elim id fun exempt => ?_
  cases exempt with
  | content _ _ given =>
      obtain ⟨messageId, data, rfl⟩ := (receiver _ given).message _ _ rfl
      exact .object rfl messageId
  | unset _ name =>
      have other : "get_proto" = "get_field" := (congrArg Method.name method).symm.trans name
      exact absurd other (by decide)
  | item owner | resolved owner | undeclared owner =>
      rw [method] at owner
      cases owner

/-- A field of a boxed message is boxed, or null where it is unset. -/
theorem Native.getField_ensures (s : Schema) {c : Call} (method : c.method = Signature.getField) :
    Ensures (Native.invoke s c) fun v => v = .null ∨ v.Present ∧ ∃ id b, v = .ref id (.boxed b) := by
  have name : c.name = "get_field" := congrArg Method.name method
  have onInstance : ¬c.method.isStatic = true := by rw [method]; decide
  have field : Shows (Native.callBoxed s .proto c)
      fun v => v = .null ∨ v.Present ∧ ∃ id b, v = .ref id (.boxed b) := by
    unfold Native.callBoxed
    rw [if_neg onInstance]
    refine .after fun ⟨id, o⟩ => ?_
    split
    · unfold Native.unboxed
      rw [name]
      refine .after fun field => ?_
      split
      · split
        · exact Shows.of_value (Storage.boxedField_ensures s _ field)
        · exact .throw _
      · exact .throw _
    · exact .throw _
  unfold Native.invoke Native.dispatch
  rw [method]
  refine Ensures.bind (P := fun result => ∀ v, result = some v → _) field fun result shown => ?_
  split
  · exact .pure (shown _ rfl)
  · exact .throw _

theorem Assembler.Ends.plain (s : Schema) {m : Method} {start : List Value → Prop} {t : NativeType}
    (returns : m.returns = some t) (plain : m.isPlain = true) :
    (Assembler.invoke m).Ends (.ofSchema s) start t Value.Present :=
  .invoke returns fun c method => Native.invoke_plain s (by rwa [method])

theorem Becomes.boxPlain (host : Host) {t : NativeType} (plain : ¬t.boxedKind?.isSome = true)
    (type : ValueType) : Becomes host t (t.boxedAs type) (boxTop type false) (boxFrom host t type) := by
  have direct : MessageCode.boxTop type false = Assembler.top >>= fun top =>
      if top.boxedKind?.isSome then Pure.pure () else MessageCode.boxPresent type := rfl
  rw [direct]
  refine top ?_
  rw [if_neg plain]
  exact boxPresent host t type

theorem Quiet.ensures {α : Type} {x : Run α} {P : α → Prop} {mayFault : Prop} (h : Quiet x P mayFault) :
    Ensures x P :=
  fun _ _ _ run => h.of_ok run

namespace Method

variable {host : Host} {m : Method} {operands : List Value}

theorem method_of_callOn {c : Call} (taken : m.callOn operands = .ok c) : c.method = m := by
  unfold callOn at taken
  cases whole : m.takeOperands ⟨operands, []⟩ with
  | error f =>
      rw [whole] at taken
      cases taken
  | ok result =>
      rw [whole] at taken
      cases taken
      exact method_of_takeOperands whole

theorem act_ensures {P : Value → Prop} (h : ∀ c, m.callOn operands = .ok c → Ensures (host.call c) P) :
    Ensures (m.act host operands) P := by
  unfold act
  cases taken : m.callOn operands with
  | error f => exact fun _ _ _ => nofun
  | ok c =>
      intro machine v machine' run
      have performed : (perform host false c).run machine = (.ok v, machine') := run
      obtain ⟨between, called⟩ := perform_eq_ok performed
      exact h c taken between v machine' called

theorem act_present (s : Schema) (plain : m.isPlain = true) (operands : List Value) :
    Ensures (m.act (.ofSchema s) operands) Value.Present :=
  act_ensures fun c taken => Native.invoke_plain s (by rwa [method_of_callOn taken])

end Method

/-! What coercions make of a value that is there. -/

section

variable (s : Schema) {v : Value}

theorem getProto_present (present : v.Present) :
    Ensures (Signature.getProto.act (.ofSchema s) [v]) Value.Present := by
  refine Method.act_ensures fun c taken => ?_
  have count : ([] : List Value).length = Signature.getProto.params.length := rfl
  have call : Signature.getProto.callOn [v] = _ := Method.callOn_onInstance rfl count v
  rw [call] at taken
  split at taken
  · cases taken
  · cases taken
    refine Native.invoke_getProto s rfl ?_
    rintro _ ⟨⟩
    exact present

theorem resolve_present (given : v = .null ∨ v.Present ∧ ∃ id b, v = .ref id (.boxed b)) :
    Ensures (Signature.resolve.act (.ofSchema s) [v]) Value.Present := by
  rcases given with rfl | ⟨present, id, b, rfl⟩
  · exact fun _ _ _ => nofun
  · rintro m _ m' ⟨⟩
    exact present

theorem castFrom_present (t : NativeType) (r : RefType) (present : v.Present) :
    Ensures (castFrom t r v) Value.Present := by
  refine (Filling.castFrom_keeps t r v).ensures.imp ?_
  rintro _ rfl
  exact present

theorem castTo_present (r : RefType) (present : v.Present) : Ensures (Turns.castTo r v) Value.Present := by
  refine (Filling.castTo_quiet r v).ensures.imp ?_
  rintro _ ⟨rfl, -⟩
  exact present

theorem Value.convert_present {target : NativeType} {w : Value} (done : v.convert target = .ok w) :
    w.Present := by
  cases v with
  | int | long | float | double =>
      cases target with
      | bool | ref => cases done
      | _ =>
          cases done
          exact .of_primitive rfl
  | _ => cases done

theorem convertFrom_present (t target : NativeType) (present : v.Present) :
    Ensures (convertFrom t target v) Value.Present := by
  unfold convertFrom
  split
  · exact .pure present
  · intro m w m' run
    rw [Run.run_ofExcept] at run
    cases done : v.convert target with
    | error f =>
        rw [done] at run
        cases run
    | ok w =>
        rw [done] at run
        cases run
        exact Value.convert_present done

theorem unboxBoxedFrom_present (t target : NativeType) (present : v.Present) :
    Ensures (unboxBoxedFrom (.ofSchema s) t target v) Value.Present := by
  cases target with
  | bool => exact Method.act_present s rfl _
  | int | long =>
      exact (Method.act_present s rfl _).bind fun w there => convertFrom_present .long _ there
  | float | double =>
      exact (Method.act_present s rfl _).bind fun w there => convertFrom_present .double _ there
  | ref r =>
      cases r with
      | text => exact Method.act_present s rfl _
      | list => exact .after fun w => Method.act_present s rfl _
      | object =>
          exact (castFrom_present t (.boxed .proto) present).bind fun w there => getProto_present s there
      | message name =>
          refine (castFrom_present t (.boxed .proto) present).bind fun w there => ?_
          exact (getProto_present s there).bind fun w there => castTo_present _ there
      | _ => exact .pure present

theorem unboxFrom_present (t target : NativeType) (present : v.Present) :
    Ensures (unboxFrom (.ofSchema s) t target v) Value.Present := by
  unfold unboxFrom
  split
  · exact unboxBoxedFrom_present s t target present
  · split
    · exact .pure present
    · split
      · exact convertFrom_present t target present
      · refine (castFrom_present t (.boxed .any) present).bind fun w there => ?_
        exact unboxBoxedFrom_present s _ target there

theorem boxFrom_present (t : NativeType) (type : ValueType) (present : v.Present) :
    Ensures (boxFrom (.ofSchema s) t type v) Value.Present := by
  cases t with
  | bool => exact Method.act_present s rfl _
  | int | long | float | double => exact .after fun w => Method.act_present s rfl _
  | ref r =>
      cases r with
      | text => cases type <;> exact Method.act_present s rfl _
      | message name | list => exact Method.act_present s rfl _
      | null => exact castTo_present _ present
      | _ => exact .pure present

end

theorem Coercion.encodeBytes_becomes (s : Schema) (t : NativeType) :
    Becomes (.ofSchema s) t .text encodeBytes (encodeAct (.ofSchema s)) :=
  (Becomes.invoke rfl rfl).seq (.of_turns (.pushSwapInvoke (.invoke rfl rfl) rfl (.refl _)))

theorem Coercion.encodeAct_present (s : Schema) (v : Value) :
    Ensures (encodeAct (.ofSchema s) v) Value.Present :=
  .after fun array => .after fun codec => Method.act_present s rfl [array, codec]

/-- Steps to native form, written with a value of any type on top. -/
theorem Coercion.interpret_becomes (s : Schema) (c : Coercion) (t : NativeType) :
    ∃ t' act, Becomes (.ofSchema s) t t' c.interpret act ∧
      ∀ v : Value, v.Present → Ensures (act v) Value.Present := by
  cases c with
  | bool | double | text | int64 => exact ⟨t, pure, .pure _ t, fun v => .pure⟩
  | float => exact ⟨_, _, .convert _ t .double, fun v => convertFrom_present t .double⟩
  | int32 | modernEnum name => exact ⟨_, _, .convert _ t .long, fun v => convertFrom_present t .long⟩
  | int64AsText => exact ⟨_, _, .invoke rfl rfl, fun v _ => Method.act_present s rfl [v]⟩
  | legacyEnum name =>
      refine ⟨_, _, (Becomes.invoke rfl rfl).seq (.convert _ .int .long), fun v _ => ?_⟩
      exact (Method.act_present s rfl [v]).bind fun w there => convertFrom_present .int .long there
  | bytes => exact ⟨_, _, encodeBytes_becomes s t, fun v _ => encodeAct_present s v⟩
  | message name => exact ⟨_, _, .checkCast _ t (.message name), fun v => castFrom_present t _⟩
  | sanitized kind =>
      refine ⟨_, _, (Becomes.checkCast _ t _).seq (.invoke rfl rfl), fun v _ => ?_⟩
      exact .after fun w => Method.act_present s rfl [w]

theorem Coercion.interpretExtension_becomes (s : Schema) (c : Coercion) (t : NativeType) :
    ∃ t' act, Becomes (.ofSchema s) t t' c.interpretExtension act ∧
      ∀ v : Value, v.Present → Ensures (act v) Value.Present := by
  have called : ∀ (r : RefType) {m : Method} {t' : NativeType}, m.isPlain = true → m.returns = some t' →
      m.operands.length = 1 → ∃ t' act,
        Becomes (.ofSchema s) t t' (Assembler.checkCast r >>= fun _ => Assembler.invoke m) act ∧
          ∀ v : Value, v.Present → Ensures (act v) Value.Present :=
    fun r m t' plain returns one => ⟨_, _, (Becomes.checkCast _ t r).seq (.invoke returns one),
      fun v _ => .after fun w => Method.act_present s plain [w]⟩
  cases c with
  | float | double => exact called .number rfl rfl rfl
  | int32 | int64 | modernEnum name => exact called .number rfl rfl rfl
  | bool => exact called (.wrapper .bool) rfl rfl rfl
  | sanitized kind => exact called (.message kind.messageName) rfl rfl rfl
  | int64AsText => exact ⟨_, _, .invoke rfl rfl, fun v _ => Method.act_present s rfl [v]⟩
  | text => exact ⟨_, _, .checkCast _ t .text, fun v => castFrom_present t .text⟩
  | message name => exact ⟨_, _, .checkCast _ t (.message name), fun v => castFrom_present t _⟩
  | legacyEnum name =>
      refine ⟨_, _, (Becomes.checkCast _ t _).seq ((Becomes.invoke rfl rfl).seq (.convert _ .int .long)),
        fun v _ => .after fun w => ?_⟩
      exact (Method.act_present s rfl [w]).bind fun n there => convertFrom_present .int .long there
  | bytes =>
      refine ⟨_, _, (Becomes.checkCast _ t .byteString).seq (encodeBytes_becomes s _), fun v _ => ?_⟩
      exact .after fun w => encodeAct_present s w

/-- The three ways to read a field, and the code that each writes. -/
inductive Access.Reading (base : TypedValue) (message : String) (f : Field) (v : TypedValue) : Prop
  | repeated (element : Coercion) : Access.readRepeated base f element = .ok v → Reading base message f v
  | extension (coercion : Coercion) (presence : PresencePolicy) :
      Access.readExtension base message f coercion presence = .ok v → Reading base message f v
  | singular (coercion : Coercion) (presence : PresencePolicy) (test : PresenceTest) :
      Access.readSingular base message f coercion presence test = .ok v → Reading base message f v

theorem generateAccess_eq_ok {s : Schema} {message field : String} {base v : TypedValue}
    (made : generateAccess s message base field = .ok v) : ∃ f, Access.Reading base message f v := by
  unfold generateAccess at made
  have made := (Fallible.refuse_eq_ok.mp made).2
  split at made
  · cases made
  · rename_i f _
    obtain ⟨shape, -, made⟩ := Fallible.bind_eq_ok.mp made
    have made := (Fallible.refuse_eq_ok.mp made).2
    cases shape with
    | repeated element => exact ⟨f, .repeated element made⟩
    | extension coercion presence => exact ⟨f, .extension coercion presence made⟩
    | singular coercion presence test => exact ⟨f, .singular coercion presence test made⟩

namespace TypedValue

variable {host : Host} {start : List Value → Prop} {P : Value → Prop} {v v' : TypedValue}

/-- The code of a value, spliced in at the start. -/
theorem append_leaves (h : Op.Leaves host start P v.code.ops) {a : Assembly}
    (run : (Assembler.append v.code : Assembler GenerateError Unit).run (.start v.code.inputs) =
      (.ok (), a)) : a.Leaves host start v.native P := by
  have wrote := v.append_start run
  refine ⟨⟨[], wrote.stack⟩, ?_⟩
  rw [wrote.ops]
  exact h

theorem assemble_leaves {inputs : List NativeType} {nonNull : Bool} {type : ValueType}
    {steps : Assembler GenerateError Unit} (made : assemble inputs nonNull type steps = .ok v)
    (h : ∀ a, steps.run (.start inputs) = (.ok (), a) → Op.Leaves host start P a.ops) :
    Op.Leaves host start P v.code.ops := by
  obtain ⟨-, a, run, finished⟩ := assemble_eq_ok made
  rw [(Assembly.Finishes.eq (.inl ⟨nonNull, finished⟩)).1]
  exact h a run

theorem assemble_ends {inputs : List NativeType} {nonNull : Bool} {type : ValueType} {t : NativeType}
    {steps : Assembler GenerateError Unit} (made : assemble inputs nonNull type steps = .ok v)
    (h : steps.Ends host start t P) : Op.Leaves host start P v.code.ops :=
  assemble_leaves made fun a run => (h _ a run).ops

theorem nonNull_of_assemble {inputs : List NativeType} {nonNull : Bool} {type : ValueType}
    {steps : Assembler GenerateError Unit} (made : assemble inputs nonNull type steps = .ok v) :
    v.code.nonNull = nonNull := by
  obtain ⟨-, a, -, finished⟩ := assemble_eq_ok made
  obtain ⟨t, -, code⟩ := Assembly.finishExpression_eq_ok.mp finished
  rw [code]

theorem extend_leaves {steps : Assembler GenerateError Unit} {t : NativeType} {act : Value → Run Value}
    (h : Op.Leaves host start P v.code.ops) (made : v.extend steps = .ok v')
    (turns : Becomes host v.native t steps act) (keeps : ∀ w, P w → Ensures (act w) P) :
    Op.Leaves host start P v'.code.ops := by
  refine assemble_leaves made fun a run => ?_
  obtain ⟨⟨⟩, b, spliced, more⟩ := bind_eq_ok.mp run
  exact ((append_leaves h spliced).becomes turns more keeps).ops

theorem constant_leaves {c : Constant} {type : ValueType} (marked : (ofConstant c type).code.nonNull = true) :
    Op.Leaves host start Value.Present (ofConstant c type).code.ops := by
  intro fuel stack locals m frame m' starts run
  have alone : (ofConstant c type).code.ops = [.push c] := rfl
  rw [alone, Op.execAll_singleton, Op.exec_push] at run
  obtain ⟨v, m₁, loaded, last⟩ := bind_eq_ok.mp run
  cases last
  refine ⟨v, stack, rfl, ?_⟩
  cases c with
  | null => cases marked
  | text t =>
      cases loaded
      exact .object rfl _
  | _ =>
      cases loaded
      exact .of_primitive rfl

namespace Generated

variable {s : Schema} {resolves : ListResolver → Prop} {declared : List Bool}

/-- A repeated field is boxed. -/
theorem readRepeated_leaves {base : TypedValue} {f : Field} {element : Coercion}
    (made : Access.readRepeated base f element = .ok v) :
    Op.Leaves (.ofSchema s) start Value.Present v.code.ops := by
  unfold Access.readRepeated at made
  obtain ⟨boxed, -, made⟩ := Fallible.bind_eq_ok.mp made
  have given : (Assembler.invoke Signature.getField).Ends (.ofSchema s) start (.ref .provider) fun w =>
      w = .null ∨ w.Present ∧ ∃ id b, w = .ref id (.boxed b) :=
    .invoke rfl fun c method => Native.getField_ensures s method
  have read := given.becomes ((Becomes.invoke rfl rfl).seq (.checkCast _ _ (.boxed .list))) fun w found =>
    (resolve_present s found).bind fun w there => castFrom_present _ _ there
  exact assemble_ends made (.after fun _ => .after fun _ => .after fun _ => read)

/-- Only the branch for an unset field gives null, and it is written for checked fields only. -/
theorem access_leaves {base : TypedValue} {message field : String}
    (made : generateAccess s message base field = .ok v) (marked : v.code.nonNull = true) :
    Op.Leaves (.ofSchema s) start Value.Present v.code.ops := by
  obtain ⟨f, read⟩ := generateAccess_eq_ok made
  cases read with
  | repeated element made => exact readRepeated_leaves made
  | extension coercion presence made =>
      have unchecked : presence.checks = false := by simpa using (nonNull_of_assemble made).symm.trans marked
      obtain ⟨t, act, becomes, keeps⟩ := coercion.interpretExtension_becomes s Signature.object
      unfold Access.readExtension at made
      rw [unchecked] at made
      have got : (Assembler.invoke Signature.getExtension).Ends (.ofSchema s) start _ _ := .plain s rfl rfl
      exact assemble_ends made (.after fun _ => .after fun _ => .after fun _ => got.becomes becomes keeps)
  | singular coercion presence test made =>
      have unchecked : presence.checks = false := by simpa using (nonNull_of_assemble made).symm.trans marked
      obtain ⟨t, act, becomes, keeps⟩ := coercion.interpret_becomes s coercion.storageType
      unfold Access.readSingular at made
      rw [unchecked] at made
      have got : (Assembler.invoke (Signature.getter f coercion.storageType)).Ends (.ofSchema s) start _ _ :=
        .plain s rfl rfl
      exact assemble_ends made (.after fun _ => got.becomes becomes keeps)

theorem construction_leaves {resolver : ListResolver} {message : String}
    {arguments : List (String × TypedValue)}
    (made : generateConstruction s resolver message arguments = .ok v) :
    Op.Leaves (.ofSchema s) start Value.Present v.code.ops := by
  refine assemble_ends (t := .message message) (generateConstruction_eq_ok.mp made).2 ?_
  split
  · exact .plain s rfl rfl
  · exact .after fun _ => .after fun _ => .plain s rfl rfl

/-- What is marked is there. -/
theorem leaves (made : Generated s resolves v declared) (marked : v.code.nonNull = true) :
    Op.Leaves (.ofSchema s) (Supplies declared) Value.Present v.code.ops := by
  induction made with
  | ofBool | ofLong | ofDouble | ofText | null => exact constant_leaves marked
  | ofSanitized made | listOf _ _ made =>
      exact assemble_ends made (.after fun _ => .after fun _ => .plain s rfl rfl)
  | emptyList made => exact assemble_ends made (.after fun _ => .plain s rfl rfl)
  | @input type boxed nullable v made =>
      have declares : nullable = false := by
        rw [nonNull_of_assemble made] at marked
        simpa using marked
      refine assemble_leaves made fun a run => ?_
      cases run
      intro fuel stack locals m frame m' starts run
      cases run
      obtain ⟨inputs, rest, rfl, supplied⟩ := starts
      obtain _ | ⟨there, ⟨⟩⟩ := supplied
      exact ⟨_, rest, rfl, there (by rw [declares]; rfl)⟩
  | asNullable => cases marked
  | @box v declared v' _ made ih =>
      unfold TypedValue.box at made
      split at made
      · cases made
        exact ih marked
      · rename_i native
        have same := nonNull_of_assemble made
        have given : v.code.nonNull = true := same.symm.trans marked
        have plain : v.isNullable = false := by simp [isNullable, given]
        rw [plain] at made
        exact extend_leaves (ih given) made (.boxPlain _ native v.type) fun w there =>
          boxFrom_present s v.native v.type there
  | @unboxAs v declared target v' _ made ih =>
      have given : v.code.nonNull = true := (nonNull_of_assemble made).symm.trans marked
      exact extend_leaves (ih given) made (.unboxTop _ v.native target) fun w there =>
        unboxFrom_present s v.native target there
  | @cast v declared target v' _ made ih =>
      have given : v.code.nonNull = true := (nonNull_of_assemble made).symm.trans marked
      exact extend_leaves (ih given) made (.checkCast _ v.native target) fun w there =>
        castFrom_present v.native target there
  | access _ made => exact access_leaves made marked
  | construction _ _ _ made => exact construction_leaves made

end Generated

end TypedValue

/-- Marks are truthful. A generated value that is not nullable is never null: no run of its code that ends,
on inputs that are there wherever they are declared to be, gives null. -/
theorem TypedValue.Generated.result_ne_null {s : Schema} {resolves : ListResolver → Prop} {v : TypedValue}
    {declared : List Bool} (made : v.Generated s resolves declared) (marked : v.isNullable = false)
    {inputs : List Value} (supplied : List.Forall₂ TypedValue.Supplied declared inputs) {fuel : Nat}
    {m m' : Machine} {result : Option Value} (run : (v.code.run s fuel inputs).run m = (.ok result, m')) :
    ∃ w, result = some w ∧ w ≠ .null := by
  have nonNull : v.code.nonNull = true := by simpa [TypedValue.isNullable] using marked
  unfold Sequence.run Sequence.runOn at run
  by_cases other : inputs.length ≠ v.code.inputs.length
  · rw [if_pos other] at run
    cases run
  rw [if_neg other] at run
  obtain ⟨frame, m₁, executed, finish⟩ := bind_eq_ok.mp run
  have starts : TypedValue.Supplies declared inputs.reverse := ⟨inputs, [], by simp, supplied⟩
  obtain ⟨w, rest, stack, present⟩ := made.leaves nonNull fuel _ _ m frame m₁ starts executed
  obtain ⟨under, locals⟩ := frame
  cases stack
  rw [v.output_eq] at finish
  cases finish
  exact ⟨w, rfl, present.ne_null⟩

/-- The size of a boxed note is never null, nor is it when it is boxed in turn. -/
theorem noteSize_marked :
    ∃ base v boxed, TypedValue.input (.message "demo.Note") true false = .ok base ∧
      generateAccess noteSchema "demo.Note" base "size" = .ok v ∧ v.box = .ok boxed ∧
      boxed.isNullable = false ∧ ∃ result m', (boxed.code.run noteSchema 0
        [.ref 0 (.boxed (.proto (.ref 1 (.message noteData))))]).run .start = (.ok result, m') ∧
          ∃ w, result = some w ∧ w ≠ .null := by
  let base := (TypedValue.input (.message "demo.Note") true false).toOption.getD .null
  let v := (generateAccess noteSchema "demo.Note" base "size").toOption.getD .null
  let boxed := v.box.toOption.getD .null
  have given : TypedValue.input (.message "demo.Note") true false = .ok base := rfl
  have read : generateAccess noteSchema "demo.Note" base "size" = .ok v := rfl
  have boxes : v.box = .ok boxed := rfl
  have made : boxed.Generated noteSchema (fun _ => False) [true] :=
    ((TypedValue.Generated.input given).access read).box boxes
  have run : (boxed.code.run noteSchema 0
      [.ref 0 (.boxed (.proto (.ref 1 (.message noteData))))]).run .start =
      (.ok (some (.ref 0 (.boxed (.int 5)))), ⟨⟨1, [], []⟩, [], 0⟩) := rfl
  refine ⟨base, v, boxed, given, read, boxes, rfl, _, _, run, ?_⟩
  exact made.result_ne_null rfl (.cons (fun _ => .proto 0 1 noteData) .nil) run

end MessageCode
