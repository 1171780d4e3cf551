import MessageCode.Proofs.Generate.Held
import MessageCode.Proofs.Generate.Total

/-!
Fields by name. A boxed message gives its fields under their names, boxed, in another way than generated
reads do. The two agree on every field but for one case, in which a field is null by name only.
-/

namespace MessageCode

open Stateful

/-- Both are null, or boxes of the same content. -/
inductive Value.SameBox : Value → Value → Prop
  | null : SameBox .null .null
  | boxed {id id' : ObjectId} {b : Boxed} : SameBox (.ref id (.boxed b)) (.ref id' (.boxed b))
  | list {id id' : ObjectId} {items items' : List Value} : List.Forall₂ SameBox items items' →
      SameBox (.ref id (.boxed (.list items))) (.ref id' (.boxed (.list items')))

theorem LogicalValue.InBox.sameBox {l : LogicalValue} {v w : Value} (h : l.InBox v) (h' : l.InBox w) :
    v.SameBox w := by
  obtain ⟨id, rfl⟩ := h
  obtain ⟨id', rfl⟩ := h'
  exact .boxed

theorem LogicalValue.inBox_each {α : Type} {logical : α → LogicalValue} {elements : List α}
    {items items' : List Value} (h : List.Forall₂ (fun a => (logical a).InBox) elements items)
    (h' : List.Forall₂ (fun a => (logical a).InBox) elements items') :
    List.Forall₂ Value.SameBox items items' := by
  induction h generalizing items' with
  | nil =>
      cases h'
      exact .nil
  | cons first _ ih =>
      cases h' with
      | cons first' rest' => exact .cons (first.sameBox first') (ih rest')

/-- The field is unset and has no default of its own; read by generated code it is the default of its
kind all the same, for it is a declared field of the modern revision and no message. -/
structure Field.Implied (f : Field) (data : MessageData) : Prop where
  singular : f.label = .singular
  declared : f.extensionScope = none
  modern : f.revision = .modern
  plain : ∀ message, f.kind ≠ .message message
  noDefault : f.default = none
  unset : data.isSet f.number = false

theorem Field.implied_iff {f : Field} {data : MessageData} :
    f.Implied data ↔ f.label = .singular ∧ f.default = none ∧ data.isSet f.number = false ∧
      f.nullUnset = false := by
  constructor
  · rintro ⟨singular, declared, modern, plain, noDefault, unset⟩
    refine ⟨singular, noDefault, unset, ?_⟩
    unfold nullUnset isExtension
    cases kind : f.kind with
    | message name => exact absurd kind (plain name)
    | _ => simp [declared, modern]
  · rintro ⟨singular, noDefault, unset, notNull⟩
    unfold nullUnset isExtension at notNull
    simp only [noDefault, Option.isNone_none, Bool.true_and, Bool.or_eq_false_iff,
      decide_eq_false_iff_not] at notNull
    obtain ⟨⟨declared, modern⟩, plain⟩ := notNull
    refine ⟨singular, by simpa using declared, ?_, ?_, noDefault, unset⟩
    · cases revision : f.revision with
      | legacy => exact absurd revision modern
      | modern => rfl
    · intro name kind
      rw [kind] at plain
      cases plain

namespace Access

theorem boxPresent_turns (s : Schema) (c : Coercion) :
    ∃ act, Turns (.ofSchema s) c.nativeType (.boxed c.logicalType.boxedKind) (boxPresent c.logicalType)
        act ∧
      ∀ (l : LogicalValue) v, l.type = c.logicalType → l.Native v → Gives (act v) l.InBox := by
  rw [c.nativeType_eq]
  cases type : c.logicalType with
  | bool =>
      refine ⟨_, .top (.invoke rfl (.refl _)), fun l v of native => ?_⟩
      cases l with
      | bool b =>
          cases native
          exact fun m => ⟨_, _, rfl, _, rfl⟩
      | _ => cases of
  | int =>
      refine ⟨_, .top (.seq .convert_self (.invoke rfl (.refl _))), fun l v of native => ?_⟩
      cases l with
      | int n =>
          cases native
          exact fun m => ⟨_, _, rfl, _, rfl⟩
      | _ => cases of
  | float =>
      refine ⟨_, .top (.seq .convert_self (.invoke rfl (.refl _))), fun l v of native => ?_⟩
      cases l with
      | float x =>
          cases native
          exact fun m => ⟨_, _, rfl, _, rfl⟩
      | _ => cases of
  | text =>
      refine ⟨_, .top (.invoke rfl (.refl _)), fun l v of native => ?_⟩
      cases l with
      | text t =>
          obtain ⟨id, rfl⟩ := native
          exact fun m => ⟨_, _, rfl, _, rfl⟩
      | _ => cases of
  | message name =>
      refine ⟨_, .top (.invoke rfl (.cons rfl .nil)), fun l v of native => ?_⟩
      cases l with
      | message id data =>
          cases native
          exact fun m => ⟨_, _, rfl, _, rfl⟩
      | _ => cases of
  | sanitized kind =>
      have ordinal : Pushes (.ofSchema s) .int (Assembler.pushConst (.int kind.ordinal)) _ :=
        .const (.int kind.ordinal)
      refine ⟨_, .top (.pushInvoke ordinal rfl (.refl _)), fun l v of native => ?_⟩
      cases l with
      | sanitized kind content =>
          cases of
          obtain ⟨id, rfl⟩ := native
          cases kind <;> exact fun m => ⟨_, _, rfl, _, rfl⟩
      | _ => cases of
  | _ => cases c <;> cases type

theorem boxField_turns (s : Schema) (c : Coercion) (nullable : Bool) :
    ∃ act, Turns (.ofSchema s) c.nativeType (.boxed c.logicalType.boxedKind)
        (boxTop c.logicalType nullable) act ∧
      (∀ (l : LogicalValue) v, l.type = c.logicalType → l.Native v → Gives (act v) l.InBox) ∧
      (nullable = true → c.nativeType.isPrimitive = false → Gives (act .null) (· = .null)) := by
  obtain ⟨act, present, gives⟩ := boxPresent_turns s c
  have unboxed : ¬c.nativeType.boxedKind?.isSome = true := by simp [nativeType_nonBoxed]
  by_cases tested : (nullable && !c.nativeType.isPrimitive) = true
  · have reference : c.nativeType.isPrimitive = false := by simp_all
    have object : c.nativeType.assignableTo (.ref .object) = true := by
      cases c <;> first | rfl | cases reference
    have absent : Turns (.ofSchema s) c.nativeType .null absent (fun _ => pure .null) := absent_turns
    have branches := Turns.branch (.isNull object) absent present rfl
    simp only [pure_bind] at branches
    refine ⟨fun v => if v.isNull = true then pure .null else act v, .top ?_, ?_, fun _ _ => .pure rfl⟩
    · rw [if_neg unboxed, if_pos tested]
      exact branches
    · intro l v of native
      have nonNull : v.isNull = false := by
        cases l with
        | text t | sanitized kind content =>
            obtain ⟨id, rfl⟩ := native
            rfl
        | _ =>
            cases native
            rfl
      dsimp only
      rw [if_neg (by simp [nonNull])]
      exact gives l v of native
  · refine ⟨_, .top ?_, gives, ?_⟩
    · rw [if_neg unboxed, if_neg tested]
      exact present
    · intro null reference
      simp [null, reference] at tested

theorem box_read {s : Schema} {v : TypedValue} {c : Coercion} {null : Bool}
    (type : v.type = c.logicalType) (native : v.native = if null then c.nullableType else c.nativeType)
    (nullable : v.isNullable = null) {t : NativeType} {act : Value → Run Value}
    (converts : v.Converts (.ofSchema s) t act) :
    ∃ v' boxAct, v.box = .ok v' ∧ v'.Converts (.ofSchema s) t (fun x => act x >>= boxAct) ∧
      (∀ (l : LogicalValue) w, l.type = c.logicalType → Form v.isBoxed l w → Gives (boxAct w) l.InBox) ∧
      (null = true → Gives (boxAct .null) (· = .null)) := by
  have isBoxed : v.isBoxed = v.native.boxedKind?.isSome := rfl
  unfold TypedValue.box
  cases boxed : v.isBoxed with
  | true =>
      refine ⟨v, pure, if_pos rfl, ?_, fun _ _ _ form => .pure form, fun _ => .pure rfl⟩
      simpa only [bind_pure] using converts
  | false =>
      rw [boxed, native] at isBoxed
      have reference : null = true → c.nativeType.isPrimitive = false := by
        rintro rfl
        cases c <;> first | rfl | cases isBoxed
      have plain : v.native = c.nativeType := by
        rw [native]
        cases null with
        | false => rfl
        | true => simp [Coercion.nullableType, reference]
      obtain ⟨boxAct, boxes, gives, absent⟩ := boxField_turns s c v.isNullable
      rw [← plain, ← type] at boxes
      obtain ⟨v', assembled, converts', -⟩ :=
        TypedValue.assemble_converts (converts.turns.seq boxes) v.code.nonNull v.type
      rw [← converts.inputs] at assembled
      refine ⟨v', boxAct, ?_, converts', gives, fun checked => ?_⟩
      · rw [if_neg Bool.false_ne_true]
        exact assembled
      · exact absent (nullable.trans checked) (reference checked)

/-- A read of a singular field is of the logical type of the field. -/
theorem type_of_read {s : Schema} {message : String} {m : Message} {f : Field} {c : Coercion}
    {base v : TypedValue} {boxed : Bool} (loaded : s.Loaded) (found : s.message? message = some m)
    (within : f ∈ s.fieldsOf message) (coercion : Coercion.of s f = .ok c)
    (native : base.native = if boxed then .boxed .proto else .message message)
    (singular : f.label = .singular) (generated : generateAccess s message base f.name = .ok v) :
    v.type = c.logicalType := by
  rw [generateAccess_eq loaded found within coercion native, Field.isRepeated, singular] at generated
  cases extension : f.isExtension with
  | true =>
      rw [extension] at generated
      exact (TypedValue.assemble_eq_ok generated).1
  | false =>
      rw [extension] at generated
      exact (TypedValue.assemble_eq_ok generated).1

end Access

namespace Field

variable {s : Schema} {f : Field} {data : MessageData} {l : LogicalValue}

/-- What is seen of a field is of the logical type of its coercion. -/
theorem type_of_seen {m : Message} {c : Coercion} (loaded : s.Loaded)
    (found : s.message? data.typeName = some m) (mem : f ∈ s.fieldsOf data.typeName)
    (valid : Valid s data) (covers : c.Covers s f) (seen : f.seen? s data = some l) :
    l.type = c.logicalType := by
  rcases Storage.stored_or_unset loaded valid found mem seen with ⟨a, -, of, rfl⟩ | ⟨-, unset⟩
  · exact (covers.interprets of).type_eq
  · obtain ⟨a, -, -, of, rfl⟩ := Storage.default_gives (loaded.field found mem) unset .start
    exact (covers.interprets of).type_eq

theorem seen?_implicit (unset : data.isSet f.number = false) (noDefault : f.default = none) :
    f.seen? s data = f.implicit? s := by
  have content : data.content? f.number = none := by simpa [Record.isSet] using unset
  rw [seen?, content]
  dsimp only
  rw [unset?, noDefault]

/-- The result is what the field of a message is by its name. -/
structure NamedAs (s : Schema) (f : Field) (data : MessageData) (result : Value) : Prop where
  elements : f.label = .repeated → ∃ id items, result = .ref id (.boxed (.list items)) ∧
    List.Forall₂ (fun a => (f.logical a).InBox) (data.elements f.number) items
  absent : f.label = .singular → data.isSet f.number = false → f.default = none → result = .null
  value : f.label = .singular → data.isSet f.number = true ∨ f.default ≠ none →
    ∃ l, f.seen? s data = some l ∧ l.InBox result

/-- What a read leaves in boxed form and what the field is by its name are the same, but where a read
gives the default of the kind of the field. -/
theorem ReadAs.sameBox {result read : Value} (h : f.ReadAs s data true result)
    (h' : f.NamedAs s data read) (common : ¬f.Implied data) : result.SameBox read := by
  cases label : f.label with
  | repeated =>
      obtain ⟨id, items, rfl, forms⟩ := h.elements label
      obtain ⟨id', items', rfl, forms'⟩ := h'.elements label
      exact .list (LogicalValue.inBox_each forms forms')
  | singular =>
      by_cases shown : data.isSet f.number = true ∨ f.default ≠ none
      · have seen : data.isSet f.number = true ∨ f.nullUnset = false := by
          refine shown.imp_right fun given => ?_
          simp [nullUnset, given]
        obtain ⟨l, seen, form⟩ := h.value label seen
        obtain ⟨l', seen', form'⟩ := h'.value label shown
        cases seen.symm.trans seen'
        exact form.sameBox form'
      · rw [not_or, Bool.not_eq_true, not_not] at shown
        have null : f.nullUnset = true := by
          by_contra notNull
          exact common (implied_iff.mpr ⟨label, shown.2, shown.1, by simpa using notNull⟩)
        rw [h.absent label shown.1 null, h'.absent label shown.1 shown.2]
        exact .null

end Field

namespace Access

variable {s : Schema} {m : Message} {f : Field} {data : MessageData}

/-- Fields of boxed messages by name: a singular field gives what is seen of it, boxed, while it is set
or has a default of its own. -/
theorem boxedField_shown {l : LogicalValue} (loaded : s.Loaded)
    (found : s.message? data.typeName = some m) (mem : f ∈ s.fieldsOf data.typeName)
    (singular : f.label = .singular) (valid : Valid s data)
    (shown : data.isSet f.number = true ∨ f.default ≠ none) (seen : f.seen? s data = some l) :
    Gives (Storage.boxedField s data f.name) l.InBox := by
  unfold Storage.boxedField
  rw [loaded.field?_eq found mem]
  dsimp only
  rcases Storage.stored_or_unset loaded valid found mem seen with ⟨a, set, of, rfl⟩ | ⟨set, unset⟩
  · rw [set]
    exact boxedView_gives of
  · have given : ¬f.default.isNone = true := by
      rw [Option.isNone_iff_eq_none]
      exact shown.resolve_left (by simp [Record.isSet, set])
    rw [set]
    dsimp only
    rw [if_neg (by simp [Field.isRepeated, singular]), if_neg given]
    refine (Storage.default_gives (loaded.field found mem) unset).bind ?_
    rintro a ⟨of, rfl⟩
    exact boxedView_gives of

theorem boxedField_unset (loaded : s.Loaded)
    (found : s.message? data.typeName = some m) (mem : f ∈ s.fieldsOf data.typeName)
    (singular : f.label = .singular) (unset : data.isSet f.number = false) (noDefault : f.default = none) :
    Storage.boxedField s data f.name = pure .null := by
  have content : data.content? f.number = none := by simpa [Record.isSet] using unset
  unfold Storage.boxedField
  rw [loaded.field?_eq found mem]
  dsimp only
  rw [content, noDefault]
  dsimp only
  rw [if_neg (by simp [Field.isRepeated, singular])]
  rfl

theorem boxedField_namedAs (loaded : s.Loaded) (found : s.message? data.typeName = some m)
    (mem : f ∈ s.fieldsOf data.typeName) (valid : Valid s data) :
    Gives (Storage.boxedField s data f.name) (f.NamedAs s data) := by
  cases label : f.label with
  | repeated =>
      refine (boxedField_gives loaded found mem label valid).imp fun result elements => ?_
      exact ⟨fun _ => elements, by simp [label], by simp [label]⟩
  | singular =>
      by_cases shown : data.isSet f.number = true ∨ f.default ≠ none
      · have seen : data.isSet f.number = true ∨ f.nullUnset = false := by
          refine shown.imp_right fun given => ?_
          simp [Field.nullUnset, given]
        obtain ⟨l, seen⟩ := Field.exists_seen loaded found valid mem label seen
        refine (boxedField_shown loaded found mem label valid shown seen).imp fun result form => ?_
        refine ⟨by simp [label], fun _ unset noDefault => ?_, fun _ _ => ⟨l, seen, form⟩⟩
        simp [unset, noDefault] at shown
      · rw [not_or, Bool.not_eq_true, not_not] at shown
        rw [boxedField_unset loaded found mem label shown.1 shown.2]
        refine .pure ⟨by simp [label], fun _ _ _ => rfl, fun _ given => ?_⟩
        simp [shown] at given

theorem exec_getField (s : Schema) (f : Field) (id boxId textId : ObjectId) (data : MessageData)
    (fuel : Nat) (locals : List Value) :
    (Op.invoke Signature.getField).exec (.ofSchema s) fuel
        ⟨[.ref textId (.text f.name), .ref boxId (.boxed (LogicalValue.message id data).boxed)], locals⟩ =
      Run.ofNative (Storage.boxedField s data f.name) >>= fun v => pure ⟨[v], locals⟩ := by
  have height (v w : Value) : [v, w].length = Signature.getField.arity := rfl
  rw [← act_getField]
  exact Method.exec_invoke rfl (height ..) fuel [] locals

end Access

/-- What a read of a field leaves can be boxed, and is in boxed form what it was. -/
theorem Schema.Loaded.exists_boxed_read {s : Schema} (loaded : s.Loaded) {message : String} {m : Message}
    (found : s.message? message = some m) {f : Field} (within : f ∈ s.fieldsOf message)
    (leads : f.LeadsBack s m) (boxed nullable : Bool) :
    ∃ base v v' act, TypedValue.input (.message message) boxed nullable = .ok base ∧
      generateAccess s message base f.name = .ok v ∧ v.box = .ok v' ∧
      v'.Converts (.ofSchema s) base.native act ∧
      ∀ id (data : MessageData) input, data.typeName = message → Valid s data →
        Access.Form boxed (.message id data) input → Gives (act input) (f.ReadAs s data true) := by
  obtain ⟨base, v, act, given, generated, converts, gives⟩ :=
    loaded.exists_read found within leads boxed nullable
  obtain ⟨base', v', c, given', native, coercion, generated', leaves⟩ :=
    loaded.exists_generateAccess found ((Schema.Loaded.mem_fieldsOf found).mp within) boxed nullable
  cases given.symm.trans given'
  cases generated.symm.trans generated'
  have output := leaves.native
  have mark := leaves.nonNull
  rw [Field.readType, Field.isRepeated] at output
  rw [Field.isRepeated] at mark
  cases label : f.label with
  | repeated =>
      rw [label] at output
      have boxed : v.isBoxed = true := by rw [TypedValue.isBoxed, output]; rfl
      rw [boxed] at gives
      exact ⟨base, v, v, act, given, generated, if_pos boxed, converts, gives⟩
  | singular =>
      rw [label] at output mark
      have covers := Coercion.covers_of_eq_ok coercion
      have type := Access.type_of_read loaded found within coercion native label generated
      have isNullable : v.isNullable = f.nullUnset := by
        rw [TypedValue.isNullable, mark]
        cases f.nullUnset <;> rfl
      obtain ⟨v', boxAct, box, converts', boxes, null⟩ := Access.box_read type output isNullable converts
      refine ⟨base, v, v', _, given, generated, box, converts', ?_⟩
      rintro id data input rfl valid form
      refine (gives id data input rfl valid form).bind fun result read => ?_
      by_cases shown : data.isSet f.number = true ∨ f.nullUnset = false
      · obtain ⟨l, seen, form⟩ := read.value label shown
        have type := Field.type_of_seen loaded found within valid covers seen
        refine (boxes l result type form).imp fun boxed inBox => ?_
        refine ⟨by simp [label], fun _ unset null => ?_, fun _ _ => ⟨l, seen, inBox⟩⟩
        simp [unset, null] at shown
      · rw [not_or, Bool.not_eq_true, Bool.not_eq_false] at shown
        rw [read.absent label shown.1 shown.2]
        refine (null shown.2).imp fun boxed absent => ?_
        refine ⟨by simp [label], fun _ _ _ => absent, fun _ set => ?_⟩
        simp [shown] at set

/-- Reads by name agree with generated reads: on every valid message the call for a field by its name and
the code of the read, boxed, both end without a fault, and they leave the same boxed value or null. Only an
unset field of the modern revision that has no default of its own and is no message is null by name while
the read gives the default of its kind. -/
theorem generateAccess_byName {files : List FileDescription} {s : Schema}
    (resolved : Schema.resolve files = .ok s) {message : String} {m : Message}
    (found : s.message? message = some m) {f : Field}
    (mem : f ∈ m.fields ∨ f ∈ s.extensions ∧ f.container = message) (leads : f.LeadsBack s m)
    (boxed nullable : Bool) :
    ∃ base v v', TypedValue.input (.message message) boxed nullable = .ok base ∧
      generateAccess s message base f.name = .ok v ∧ v.box = .ok v' ∧
      ∀ id (data : MessageData) input, data.typeName = message → Valid s data →
        Access.Form boxed (.message id data) input →
        ∀ fuel machine textId boxId locals machine₁, ∃ result read machine' machine₁',
          (v'.code.run s fuel [input]).run machine = (.ok (some result), machine') ∧
          ((Op.invoke Signature.getField).exec (.ofSchema s) fuel ⟨[.ref textId (.text f.name),
            .ref boxId (.boxed (LogicalValue.message id data).boxed)], locals⟩).run machine₁ =
              (.ok ⟨[read], locals⟩, machine₁') ∧
          (¬f.Implied data → result.SameBox read) ∧
          (f.Implied data → read = .null ∧ ∃ l, f.implicit? s = some l ∧ l.InBox result) := by
  have loaded := Schema.loaded_of_resolve resolved
  have within := (Schema.Loaded.mem_fieldsOf found).mpr mem
  obtain ⟨base, v, v', act, given, generated, box, converts, gives⟩ :=
    loaded.exists_boxed_read found within leads boxed nullable
  refine ⟨base, v, v', given, generated, box, ?_⟩
  rintro id data input rfl valid form fuel machine textId boxId locals machine₁
  obtain ⟨result, machine', run, readAs⟩ :=
    converts.run_gives (gives id data input rfl valid form) fuel machine
  obtain ⟨read, machine₁', called, namedAs⟩ :=
    Run.ofNative_gives (Access.boxedField_namedAs loaded found within valid) machine₁
  refine ⟨result, read, machine', machine₁', run, ?_, readAs.sameBox namedAs, fun implied => ?_⟩
  · rw [Access.exec_getField, Stateful.run_bind_ok called]
    rfl
  · obtain ⟨singular, noDefault, unset, notNull⟩ := Field.implied_iff.mp implied
    obtain ⟨l, seen, inBox⟩ := readAs.value singular (.inr notNull)
    rw [Field.seen?_implicit unset noDefault] at seen
    exact ⟨namedAs.absent singular unset noDefault, l, seen, inBox⟩

/-- The size of a note of size five is the same by name. -/
theorem noteSize_byName :
    ∃ base v v', TypedValue.input (.message "demo.Note") false false = .ok base ∧
      generateAccess noteSchema "demo.Note" base "size" = .ok v ∧ v.box = .ok v' ∧
      ∃ result read machine' machine₁',
        (v'.code.run noteSchema 0 [.ref 0 (.message noteData)]).run .start =
          (.ok (some result), machine') ∧
        ((Op.invoke Signature.getField).exec (.ofSchema noteSchema) 0 ⟨[.ref 1 (.text "size"),
          .ref 2 (.boxed (LogicalValue.message 0 noteData).boxed)], []⟩).run .start =
            (.ok ⟨[read], []⟩, machine₁') ∧
        result.SameBox read := by
  obtain ⟨base, v, v', given, generated, box, reads⟩ := generateAccess_byName noteSchema_resolved
    noteSchema_message (.inl (List.mem_singleton_self _)) noteSize_leadsBack false false
  obtain ⟨result, read, machine', machine₁', run, called, same, -⟩ :=
    reads 0 noteData _ rfl noteData_valid rfl 0 .start 1 2 [] .start
  have present : ¬noteSize.Implied noteData := fun implied => by cases implied.unset
  exact ⟨base, v, v', given, generated, box, result, read, machine', machine₁', run, called,
    same present⟩

/-- The size of an empty note is null by name, while the read of it gives zero. -/
theorem noteSize_unset_byName :
    ∃ base v v', TypedValue.input (.message "demo.Note") false false = .ok base ∧
      generateAccess noteSchema "demo.Note" base "size" = .ok v ∧ v.box = .ok v' ∧
      Valid noteSchema (.empty "demo.Note") ∧
      ∃ id machine' machine₁',
        (v'.code.run noteSchema 0 [.ref 0 (.message (.empty "demo.Note"))]).run .start =
          (.ok (some (.ref id (.boxed (.int 0)))), machine') ∧
        ((Op.invoke Signature.getField).exec (.ofSchema noteSchema) 0 ⟨[.ref 1 (.text "size"),
          .ref 2 (.boxed (LogicalValue.message 0 (.empty "demo.Note")).boxed)], []⟩).run .start =
            (.ok ⟨[.null], []⟩, machine₁') ∧
        ¬(Value.ref id (.boxed (.int 0))).SameBox .null := by
  have loaded := Schema.loaded_of_resolve noteSchema_resolved
  have within : noteSize ∈ noteSchema.fieldsOf "demo.Note" := List.mem_singleton_self _
  have valid : Valid noteSchema (.empty "demo.Note") := by
    refine ⟨⟨nofun, ?_⟩, nofun⟩
    intro f mem g mem' _ _ _ set
    cases set
  obtain ⟨base, v, v', act, given, generated, box, converts, gives⟩ :=
    loaded.exists_boxed_read noteSchema_message within noteSize_leadsBack false false
  obtain ⟨result, machine', run, readAs⟩ :=
    converts.run_gives (gives 0 (.empty "demo.Note") _ rfl valid rfl) 0 .start
  obtain ⟨l, seen, id, rfl⟩ := readAs.value rfl (.inr rfl)
  cases seen
  exact ⟨base, v, v', given, generated, box, valid, id, machine', _, run, rfl, nofun⟩

end MessageCode
