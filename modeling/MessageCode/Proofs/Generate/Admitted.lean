import MessageCode.Proofs.Generate.Restacks
import MessageCode.Proofs.Schema.Resolved

/-!
What constructions admit. The check of the arguments is the only reason for which the code for a
message is refused: once it passes, every argument can be unboxed, coerced, and stored.
-/

namespace MessageCode

open Stateful

def Field.valueType (f : Field) : ValueType :=
  match f.kind with
  | .bool => .bool
  | .int32 | .enum _ => .int
  | .int64 => if f.numericAsText then .text else .int
  | .float | .double => .float
  | .text | .bytes => .text
  | .message name =>
      match f.sanitizedKind? with
      | some kind => .sanitized kind
      | none => .message name

/-- The type that a whole argument for the field is expected to have. -/
def Field.argumentType (f : Field) : ValueType :=
  if f.isRepeated then .list f.valueType else f.valueType

theorem Coercion.Covers.logicalType_eq {s : Schema} {f : Field} {c : Coercion} (h : c.Covers s f) :
    c.logicalType = f.valueType := by
  unfold Field.valueType
  cases h with
  | legacyEnum kind => rw [kind]; rfl
  | modernEnum kind => rw [kind]; rfl
  | int64 kind unmarked => rw [kind, unmarked]; rfl
  | int64AsText kind marked => rw [kind, marked]; rfl
  | message kind other => rw [Field.sanitizedKind?, kind]; dsimp only; rw [other]; rfl
  | sanitized kind =>
      rw [Field.sanitizedKind?, kind]
      dsimp only
      rw [SanitizedKind.ofMessage?_messageName]
      rfl
  | _ => rename_i kind; rw [kind]; rfl

/-- The shape of a field checks an argument by its type. -/
theorem Shape.exists_check {s : Schema} {f : Field} {c : Coercion} (coercion : Coercion.of s f = .ok c) :
    ∃ shape, Shape.of s f = .ok shape ∧ shape.expectedArgument = f.argumentType ∧
      ∀ found, shape.acceptsArgument found = true ↔ f.Admits f.valueType found := by
  unfold Field.argumentType Field.Admits
  rw [← (Coercion.covers_of_eq_ok coercion).logicalType_eq]
  cases many : f.isRepeated with
  | true => exact ⟨_, of_repeated coercion many, rfl, fun found => repeated_acceptsArgument_iff⟩
  | false =>
      cases extension : f.isExtension with
      | true =>
          obtain ⟨presence, classified⟩ := exists_of_extension coercion many extension
          exact ⟨_, classified, rfl, fun found => ValueType.accepts_iff⟩
      | false =>
          obtain ⟨test, classified⟩ := exists_of_declared coercion many extension
          exact ⟨_, classified, rfl, fun found => ValueType.accepts_iff⟩

/-- An argument under the name of a field that admits its type, with code that needs nothing else. -/
structure Admitted (s : Schema) (message : String) (argument : String × TypedValue) : Prop where
  field : ∃ f ∈ s.fieldsOf message, f.name = argument.1 ∧ f.Admits f.valueType argument.2.type
  alone : argument.2.code.inputs = []

/-- What is wrong with an argument, and the report of it. -/
inductive Objection (s : Schema) (message : String) : String × TypedValue → GenerateError → Prop
  | unknown {name v} : (∀ f ∈ s.fieldsOf message, f.name ≠ name) →
      Objection s message (name, v) (.unknownField message name)
  | inputs {f v} : f ∈ s.fieldsOf message → v.code.inputs ≠ [] →
      Objection s message (f.name, v) (.unsupported f.fullName "argument that takes stack inputs")
  | mismatch {f v} : f ∈ s.fieldsOf message → v.code.inputs = [] → ¬f.Admits f.valueType v.type →
      Objection s message (f.name, v)
        (.argumentMismatch f.fullName f.argumentType.render v.type.render)

theorem Restacks.forM_stops {α : Type} {stack : List NativeType} {before after : List α} {item : α}
    {step : α → Assembler GenerateError Unit} {e : GenerateError}
    (h : ∀ earlier ∈ before, Restacks stack stack (step earlier))
    (stops : ∀ a, ∃ a', (step item).run a = (.error e, a')) (a : Assembly) (same : a.stack = stack) :
    ∃ a', ((before ++ item :: after).forM step).run a = (.error e, a') := by
  induction before generalizing a with
  | nil =>
      obtain ⟨a', stopped⟩ := stops a
      exact ⟨a', run_bind_error stopped _⟩
  | cons earlier before ih =>
      obtain ⟨b, run, left⟩ := h earlier List.mem_cons_self a same
      obtain ⟨a', stopped⟩ := ih (fun earlier mem => h earlier (List.mem_cons_of_mem _ mem)) b left
      exact ⟨a', (run_bind_ok run _).trans stopped⟩

section

variable {s : Schema} {message : String} {m : Message} {resolver : ListResolver}
  {argument : String × TypedValue} {e : GenerateError}

/-- An argument is admitted, or there is an objection to it. -/
theorem Admitted.or_objection (s : Schema) (message : String) (argument : String × TypedValue) :
    Admitted s message argument ∨ ∃ e, Objection s message argument e := by
  obtain ⟨name, v⟩ := argument
  by_cases known : ∃ f ∈ s.fieldsOf message, f.name = name
  · obtain ⟨f, mem, rfl⟩ := known
    by_cases alone : v.code.inputs = []
    · by_cases admits : f.Admits f.valueType v.type
      · exact .inl ⟨⟨f, mem, rfl, admits⟩, alone⟩
      · exact .inr ⟨_, .mismatch mem alone admits⟩
    · exact .inr ⟨_, .inputs mem alone⟩
  · simp only [not_exists, not_and] at known
    exact .inr ⟨_, .unknown known⟩

variable (loaded : s.Loaded) (found : s.message? message = some m)

include loaded found

theorem Admitted.restacks (h : Admitted s message argument) (waits : resolver.Waits) {boxed : Bool}
    (native : argument.2.native = argument.2.type.given boxed) :
    Restacks [.builder message] [.builder message]
      (Construction.setArgument s resolver message argument) := by
  obtain ⟨⟨f, mem, named, admits⟩, alone⟩ := h
  obtain ⟨name, v⟩ := argument
  cases named
  obtain ⟨c, coercion⟩ := Coercion.exists_of (loaded.field found mem)
  rw [← (Coercion.covers_of_eq_ok coercion).logicalType_eq] at admits
  exact .setArgument waits (loaded.field?_eq found mem) (loaded.container found mem) coercion alone
    admits native

/-- An argument to which there is an objection stops the construction with the report of it, whatever
has been written before. -/
theorem Objection.stops (h : Objection s message argument e) (resolver : ListResolver) (a : Assembly) :
    ∃ a', (Construction.setArgument s resolver message argument).run a = (.error e, a') := by
  unfold Construction.setArgument
  cases h with
  | unknown absent =>
      rename_i name v
      have none : s.field? message name = none := by
        rcases other : s.field? message name with _ | f
        · rfl
        · exact absurd (Schema.Loaded.name_of_field? other) (absent f (Schema.Loaded.mem_of_field? found other))
      dsimp only
      rw [none]
      exact ⟨a, rfl⟩
  | inputs mem inputs =>
      rename_i f v
      have taken : v.code.inputs.isEmpty ≠ true := by simpa using inputs
      dsimp only
      rw [loaded.field?_eq found mem]
      dsimp only
      rw [if_neg taken]
      exact ⟨a, rfl⟩
  | mismatch mem alone refuses =>
      rename_i f v
      obtain ⟨c, coercion⟩ := Coercion.exists_of (loaded.field found mem)
      obtain ⟨shape, classified, expected, accepts⟩ := Shape.exists_check coercion
      have none : v.code.inputs.isEmpty = true := by rw [alone]; rfl
      have present : v.type ≠ .null := by
        intro null
        apply refuses
        rw [null]
        unfold Field.Admits
        split
        · exact .inl rfl
        · exact .null
      have misfit : shape.acceptsArgument v.type ≠ true := fun fits => refuses ((accepts _).mp fits)
      dsimp only
      rw [loaded.field?_eq found mem]
      dsimp only
      rw [if_pos none, if_neg present, classified]
      refine ⟨a, ?_⟩
      change (if shape.acceptsArgument v.type = true then _ else _ : Assembler GenerateError Unit).run a = _
      rw [if_neg misfit, expected]
      rfl

/-- The first argument to which there is an objection decides on the report. -/
theorem Objection.refuses (h : Objection s message argument e) (resolver : ListResolver)
    {before after : List (String × TypedValue)}
    (stores : ∀ earlier ∈ before, Restacks [.builder message] [.builder message]
      (Construction.setArgument s resolver message earlier)) :
    generateConstruction s resolver message (before ++ argument :: after) = .error e := by
  have starts : Restacks [] [.builder message] (Assembler.invoke (Signature.newBuilder message)) :=
    .invoke [] [] .nil
  obtain ⟨a, begun, left⟩ := starts (.start []) rfl
  obtain ⟨b, fills⟩ : ∃ b, ((before ++ argument :: after).forM
      (Construction.setArgument s resolver message)).run a = (.error e, b) :=
    Restacks.forM_stops stores (h.stops loaded found resolver) a left
  have written : ((do
      Assembler.invoke (Signature.newBuilder message)
      (before ++ argument :: after).forM (Construction.setArgument s resolver message)
      Assembler.invoke (Signature.build message)) : Assembler GenerateError Unit).run (.start []) =
      (.error e, b) := by
    rw [run_bind_ok begun]
    exact run_bind_error fills _
  have some : (before ++ argument :: after).isEmpty ≠ true := by simp
  unfold generateConstruction
  rw [found]
  dsimp only
  rw [if_neg some, TypedValue.assemble, Assembler.expression, written]
  rfl

end

theorem exists_first {α : Type} {P : α → Prop} {items : List α} (h : ¬∀ a ∈ items, P a) :
    ∃ before a after, items = before ++ a :: after ∧ (∀ b ∈ before, P b) ∧ ¬P a := by
  induction items with
  | nil => exact absurd nofun h
  | cons a items ih =>
      by_cases first : P a
      · obtain ⟨before, b, after, rfl, all, fails⟩ := ih fun all => h (by simpa [first] using all)
        exact ⟨a :: before, b, after, rfl, by simpa [first] using all, fails⟩
      · exact ⟨[], a, items, rfl, nofun, first⟩

/-- The check of the arguments is the only gate of a construction. There is code for a message exactly
when every argument is admitted, and otherwise the report is that of the first one that is not. -/
theorem generateConstruction_gate {files : List FileDescription} {s : Schema}
    (resolved : Schema.resolve files = .ok s) {message : String} {m : Message}
    (found : s.message? message = some m) {resolver : ListResolver} (waits : resolver.Waits)
    {arguments : List (String × TypedValue)}
    (formed : ∀ argument ∈ arguments, argument.2.native = argument.2.type.nativeType ∨
      argument.2.native = argument.2.type.boxedType) :
    ((∃ k, generateConstruction s resolver message arguments = .ok k) ↔
      ∀ argument ∈ arguments, Admitted s message argument) ∧
    ∀ e, generateConstruction s resolver message arguments = .error e ↔
      ∃ before argument after, arguments = before ++ argument :: after ∧
        (∀ earlier ∈ before, Admitted s message earlier) ∧ Objection s message argument e := by
  have loaded := Schema.loaded_of_resolve resolved
  have stores : ∀ argument ∈ arguments, Admitted s message argument →
      Restacks [.builder message] [.builder message]
        (Construction.setArgument s resolver message argument) := by
    intro argument mem admitted
    rcases formed argument mem with native | boxed
    · exact admitted.restacks loaded found waits (show _ = argument.2.type.given false from native)
    · exact admitted.restacks loaded found waits (show _ = argument.2.type.given true from boxed)
  have refused : ∀ e, (∃ before argument after, arguments = before ++ argument :: after ∧
      (∀ earlier ∈ before, Admitted s message earlier) ∧ Objection s message argument e) →
      generateConstruction s resolver message arguments = .error e := by
    rintro e ⟨before, argument, after, rfl, admitted, objection⟩
    refine objection.refuses loaded found resolver fun earlier mem => ?_
    exact stores earlier (List.mem_append_left _ mem) (admitted earlier mem)
  by_cases all : ∀ argument ∈ arguments, Admitted s message argument
  · obtain ⟨k, generated⟩ := exists_generateConstruction found fun argument mem =>
      stores argument mem (all argument mem)
    refine ⟨⟨fun _ => all, fun _ => ⟨k, generated⟩⟩, fun e => ⟨fun failed => ?_, refused e⟩⟩
    cases generated.symm.trans failed
  · obtain ⟨before, argument, after, split, admitted, fails⟩ := exists_first all
    obtain ⟨e, objection⟩ := (Admitted.or_objection s message argument).resolve_left fails
    have failed := refused e ⟨before, argument, after, split, admitted, objection⟩
    constructor
    · refine ⟨?_, fun each => absurd each all⟩
      rintro ⟨k, generated⟩
      cases generated.symm.trans failed
    · refine fun e' => ⟨fun failed' => ?_, refused e'⟩
      cases failed.symm.trans failed'
      exact ⟨before, argument, after, split, admitted, objection⟩

/-- A letter can be made of a tone alone. A weight has to be text, which is found out before an unknown
name that comes later. -/
theorem letterSchema_gate :
    (∃ k, generateConstruction letterSchema .immediate "demo.Letter"
      [("tone", .ofLong 2), ("weight", .null)] = .ok k) ∧
    generateConstruction letterSchema .immediate "demo.Letter"
      [("tone", .ofLong 2), ("weight", .ofLong 5), ("ghost", .null)] =
        .error (.argumentMismatch "demo.Letter.weight" "string" "int") := by
  have weighs : letterWeight ∈ letterSchema.fieldsOf "demo.Letter" := .tail _ (.tail _ (.head _))
  have tone : Admitted letterSchema "demo.Letter" ("tone", .ofLong 2) := ⟨⟨_, .head _, rfl, .same⟩, rfl⟩
  have unweighed : Admitted letterSchema "demo.Letter" ("weight", .null) :=
    ⟨⟨letterWeight, weighs, rfl, .null⟩, rfl⟩
  have heavy : Objection letterSchema "demo.Letter" ("weight", .ofLong 5)
      (.argumentMismatch "demo.Letter.weight" "string" "int") := .mismatch weighs rfl nofun
  constructor
  · refine (generateConstruction_gate letterSchema_resolved rfl ListResolver.immediate_waits ?_).1.mpr ?_
    · simp [TypedValue.ofLong, TypedValue.null, TypedValue.ofConstant, ValueType.nativeType,
        Constant.type]
    · simp [tone, unweighed]
  · refine ((generateConstruction_gate letterSchema_resolved rfl ListResolver.immediate_waits ?_).2 _).mpr
      ⟨[_], _, _, rfl, by simp [tone], heavy⟩
    simp [TypedValue.ofLong, TypedValue.null, TypedValue.ofConstant, ValueType.nativeType,
      Constant.type]

end MessageCode
