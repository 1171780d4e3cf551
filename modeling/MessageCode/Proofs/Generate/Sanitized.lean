import MessageCode.Proofs.Generate.Handed
import MessageCode.Proofs.Generate.Offered

/-!
Sanitized content on its way to a field of its wrapper message. A value carries such content in the box
that it is in, or as a text that its type says is of the kind. Whatever else is offered ends in a fault.
-/

namespace MessageCode

open Stateful

namespace SanitizedKind

/-- A value of the types carries content of the kind. -/
inductive Marks (kind : SanitizedKind) (content : String) : NativeType → ValueType → Value → Prop
  | boxed {t : NativeType} {type : ValueType} (id : ObjectId) :
      Marks kind content t type (.ref id (.boxed (.sanitized kind content)))
  | text (id : ObjectId) : Marks kind content .text (.sanitized kind) (.ref id (.text content))

/-- An item of a list carries content of the kind: in its box, or in that of the value it provides. -/
inductive Provides (kind : SanitizedKind) (content : String) : Value → Prop
  | boxed (id : ObjectId) : Provides kind content (.ref id (.boxed (.sanitized kind content)))
  | provider (id : ObjectId) {v : Value} :
      Provides kind content v → Provides kind content (.ref id (.provider v))

def Wraps (kind : SanitizedKind) (content : String) (a : Stored) : Prop :=
  ∃ id textId,
    a = .message id ⟨kind.messageName, [⟨1, kind.wrappedField, .single (.text textId content)⟩]⟩

variable {kind : SanitizedKind} {content : String} {v : Value}

theorem Marks.exists_boxed {boxed : BoxedKind} {type : ValueType}
    (h : kind.Marks content (.boxed boxed) type v) :
    ∃ id, v = .ref id (.boxed (.sanitized kind content)) := by
  cases h with
  | boxed id => exact ⟨id, rfl⟩

theorem Provides.of_resolved (h : kind.Provides content (Native.resolved v)) : kind.Provides content v := by
  cases v with
  | ref id object =>
      cases object with
      | provider inner => exact .provider id h
      | _ => exact h
  | _ => exact h

end SanitizedKind

namespace Filling

variable {s : Schema}

/-! Ways into a box. -/

/-- Only marking a text gives sanitized content. -/
theorem forValue_quiet (s : Schema) (kind : BoxedKind) (v : Value) :
    Quiet ((Signature.forValue kind).act (.ofSchema s) [v])
      (fun w => ∃ id b, w = .ref id (.boxed b) ∧ b.kind ≠ .sanitized) True := by
  have failed : ∀ fault, ((Signature.forValue kind).act (.ofSchema s) [v]) = Run.fault fault →
      Quiet ((Signature.forValue kind).act (.ofSchema s) [v])
        (fun w => ∃ id b, w = .ref id (.boxed b) ∧ b.kind ≠ .sanitized) True := by
    intro fault same
    rw [same]
    exact .fault trivial
  cases kind with
  | bool =>
      cases v with
      | bool b => exact fun m => .inl ⟨_, m.store.nextId + 1, rfl, _, _, rfl, nofun⟩
      | _ => exact failed _ rfl
  | int =>
      cases v with
      | long n => exact fun m => .inl ⟨_, m.store.nextId + 1, rfl, _, _, rfl, nofun⟩
      | _ => exact failed _ rfl
  | float =>
      cases v with
      | double x => exact fun m => .inl ⟨_, m.store.nextId + 1, rfl, _, _, rfl, nofun⟩
      | _ => exact failed _ rfl
  | text =>
      cases v with
      | ref id object =>
          cases object with
          | text content => exact fun m => .inl ⟨_, m.store.nextId + 1, rfl, _, _, rfl, nofun⟩
          | _ => exact failed _ rfl
      | _ => exact failed _ rfl
  | proto =>
      cases v with
      | ref id object =>
          cases object with
          | message data => exact fun m => .inl ⟨_, m.store.nextId + 1, rfl, _, _, rfl, nofun⟩
          | _ => exact failed _ rfl
      | _ => exact failed _ rfl
  | list =>
      cases v with
      | ref id object =>
          cases object with
          | list => exact fun m => .inl ⟨_, m.store.nextId + 1, rfl, _, _, rfl, nofun⟩
          | _ => exact failed _ rfl
      | _ => exact failed _ rfl
  | any => cases v <;> exact failed _ rfl
  | sanitized => cases v <;> exact failed _ rfl

theorem ordain_quiet (s : Schema) (kind : SanitizedKind) (v : Value) :
    Quiet (Signature.ordain.act (.ofSchema s) [.int kind.ordinal, v])
      (fun w => ∃ id textId content, w = .ref id (.boxed (.sanitized kind content)) ∧
        v = .ref textId (.text content)) True := by
  cases v with
  | ref textId object =>
      cases object with
      | text content =>
          cases kind <;> exact fun m => .inl ⟨_, m.store.nextId + 1, rfl, _, _, _, rfl, rfl⟩
      | _ => exact fun m => .inr ⟨trivial, _, m.store.nextId, rfl⟩
  | _ => exact fun m => .inr ⟨trivial, _, m.store.nextId, rfl⟩

/-- What is boxed is marked by its type, or carries its mark already. -/
theorem boxFrom_quiet (s : Schema) (t : NativeType) (type : ValueType) (v : Value) :
    Quiet (boxFrom (.ofSchema s) t type v)
      (fun w => ∀ kind content id, w = .ref id (.boxed (.sanitized kind content)) →
        kind.Marks content t type v) True := by
  have other : ∀ {w : Value}, (∃ id b, w = .ref id (.boxed b) ∧ b.kind ≠ .sanitized) →
      ∀ kind content id, w = .ref id (.boxed (.sanitized kind content)) → kind.Marks content t type v := by
    rintro _ ⟨_, _, rfl, unmarked⟩ kind content id ⟨⟩
    exact absurd rfl unmarked
  have kept : ∀ {w : Value}, w = v →
      ∀ kind content id, w = .ref id (.boxed (.sanitized kind content)) → kind.Marks content t type v := by
    rintro _ rfl kind content id rfl
    exact .boxed id
  have boxed := fun kind w => (forValue_quiet s kind w).imp fun _ => other
  cases t with
  | bool => exact boxed .bool v
  | int => exact (convertFrom_quiet .int .long v).bind fun w _ => boxed .int w
  | long => exact (convertFrom_quiet .long .long v).bind fun w _ => boxed .int w
  | float => exact (convertFrom_quiet .float .double v).bind fun w _ => boxed .float w
  | double => exact (convertFrom_quiet .double .double v).bind fun w _ => boxed .float w
  | ref r =>
      cases r with
      | text =>
          cases type with
          | sanitized kind =>
              refine (ordain_quiet s kind v).imp ?_
              rintro _ ⟨_, textId, content, rfl, rfl⟩ _ _ _ ⟨⟩
              exact .text textId
          | _ => exact boxed .text v
      | message name => exact boxed .proto v
      | list => exact boxed .list v
      | null => exact (castTo_quiet _ v |>.imp fun _ same => kept same.1).excuse fun _ => trivial
      | _ => exact .pure (kept rfl)

/-! The way out of the box. -/

/-- Only content of the kind gets into its wrapper message. -/
theorem toSafeProto_wraps (loaded : s.Loaded) (kind : SanitizedKind) (v : Value) :
    Quiet ((Signature.toSafeProto kind).act (.ofSchema s) [v])
      (fun w => ∃ id content a, v = .ref id (.boxed (.sanitized kind content)) ∧ kind.Wraps content a ∧
        w = a.toValue) True := by
  cases v with
  | ref id object =>
      cases object with
      | boxed b =>
          refine ((toSafeProto_quiet loaded kind id b).imp ?_).excuse fun _ => trivial
          rintro _ ⟨content, wrapperId, textId, rfl, rfl⟩
          exact ⟨id, content, _, rfl, ⟨wrapperId, textId, rfl⟩, rfl⟩
      | _ => exact fun m => .inr ⟨trivial, _, m.store.nextId, rfl⟩
  | _ => exact fun m => .inr ⟨trivial, _, m.store.nextId, rfl⟩

/-- An operand for a field of the wrapper message is one around content that the value carries. -/
theorem sanitizedOperand_quiet (loaded : s.Loaded) (kind : SanitizedKind) (type : ValueType) (t : NativeType)
    (v : Value) :
    Quiet (operandFrom (.ofSchema s) (.sanitized kind) type t v)
      (fun w => ∃ content a, kind.Marks content t type v ∧ kind.Wraps content a ∧ w = a.toValue) True := by
  have prepared : Quiet (preparedFrom (.ofSchema s) (.sanitized kind) type t v)
      (fun w => ∀ content id, w = .ref id (.boxed (.sanitized kind content)) →
        kind.Marks content t type v) True := by
    change Quiet (if t.boxedKind?.isNone then boxFrom (.ofSchema s) t type v else pure v) _ _
    split
    · exact (boxFrom_quiet s t type v).imp fun _ marks => marks kind
    · refine .pure ?_
      rintro content id rfl
      exact .boxed id
  refine prepared.bind fun w marks => ?_
  change Quiet (castFrom _ (.boxed .sanitized) w >>= fun x =>
    (Signature.toSafeProto kind).act (.ofSchema s) [x]) _ _
  refine (castFrom_keeps _ _ w).bind ?_
  rintro _ rfl
  refine (toSafeProto_wraps loaded kind _).imp ?_
  rintro x ⟨id, content, a, boxed, wraps, rfl⟩
  exact ⟨content, a, marks content id boxed, wraps, rfl⟩

theorem take_wrapper {kind : SanitizedKind} {content : String} {a a' : Stored} (wraps : kind.Wraps content a)
    {f g : Field} {c : Coercion} (taken : f.take g c a.toValue = .ok a') : a' = a := by
  obtain ⟨id, textId, rfl⟩ := wraps
  have same : ∀ call, Storage.ofValue call g (.ref id (.message ⟨kind.messageName,
      [⟨1, kind.wrappedField, .single (.text textId content)⟩]⟩)) = .ok a' → a' = .message id
        ⟨kind.messageName, [⟨1, kind.wrappedField, .single (.text textId content)⟩]⟩ := by
    intro call stored
    cases Storage.ofValue?_eq_some.mp (Storage.ofValue_eq_ok.mp stored)
    rfl
  unfold Field.take at taken
  split at taken
  · split at taken
    · exact same _ taken
    · cases taken
  · exact same _ taken

theorem storedIn_sanitized (loaded : s.Loaded) (f g : Field) (kind : SanitizedKind) (type : ValueType)
    (t : NativeType) (late : Bool) (v : Value) :
    Quiet (storedIn (.ofSchema s) f g (.sanitized kind) type t late v)
      (fun a => ∃ content, kind.Marks content t type v ∧ kind.Wraps content a) True := by
  have taken : ∀ w, (∃ content a, kind.Marks content t type v ∧ kind.Wraps content a ∧ w = a.toValue) →
      Quiet (Run.ofExcept (f.take g (.sanitized kind) w))
        (fun a => ∃ content, kind.Marks content t type v ∧ kind.Wraps content a) True := by
    rintro _ ⟨content, a, marks, wraps, rfl⟩
    refine .ofExcept (fun a' taken => ?_) fun _ _ => trivial
    rw [take_wrapper wraps taken]
    exact ⟨content, marks, wraps⟩
  refine (sanitizedOperand_quiet loaded kind type t v).bind fun w reaches => ?_
  have kept : wrapFrom ((Coercion.sanitized kind).operandType type t) w = pure w := rfl
  rw [kept]
  cases f.isExtension with
  | false => exact taken w reaches
  | true =>
      cases late with
      | false => exact taken w reaches
      | true => exact identify_quiet.bind fun _ _ => taken w reaches

/-! Items of lists. -/

theorem readElement_sanitized (loaded : s.Loaded) (f g : Field) (kind : SanitizedKind) (type : ValueType)
    (item : Value) :
    Quiet (readElement (.ofSchema s) f g (.sanitized kind) type item)
      (fun a => ∃ content, kind.Provides content item ∧ kind.Wraps content a) True := by
  have read : Quiet (element (.ofSchema s) type.boxedKind item >>=
      storedIn (.ofSchema s) f g (.sanitized kind) type (.boxed type.boxedKind) false)
      (fun a => ∃ content, kind.Provides content item ∧ kind.Wraps content a) True := by
    refine (element_resolves s type.boxedKind item).bind ?_
    rintro _ rfl
    refine (storedIn_sanitized loaded f g kind type (.boxed type.boxedKind) false _).imp ?_
    rintro a ⟨content, marks, wraps⟩
    obtain ⟨id, boxed⟩ := marks.exists_boxed
    refine ⟨content, .of_resolved ?_, wraps⟩
    rw [boxed]
    exact .boxed id
  unfold readElement
  cases f.isExtension with
  | true => exact identify_quiet.bind fun _ _ => read
  | false => exact read

/-- Only a native list is waited for. -/
theorem listArg_eq_ok {method : Method} {w : Value} {listId : ObjectId}
    (given : Call.listArg ⟨method, none, [w]⟩ 0 = .ok listId) : w = .ref listId .list := by
  cases w with
  | ref id object =>
      cases object with
      | list =>
          cases given
          rfl
      | _ => cases given
  | _ => cases given

theorem unboxBoxed_lists (s : Schema) (t : NativeType) (w : Value) (machine : Machine) :
    (∃ fault machine', (unboxBoxedFrom (.ofSchema s) t Signature.list w).run machine =
        (.error (.fault fault), machine')) ∨
      ∃ items listId machine', (unboxBoxedFrom (.ofSchema s) t Signature.list w).run machine =
          (.ok (.ref listId .list), machine') ∧ w.Lists true machine.store items ∧
        machine'.store.listItems listId = items ∧ machine'.store.builders = machine.store.builders := by
  change (∃ fault machine', (castFrom t (.boxed .list) w >>= fun x =>
      Signature.asList.act (.ofSchema s) [x]).run machine = (.error (.fault fault), machine')) ∨
    ∃ items listId machine', (castFrom t (.boxed .list) w >>= fun x =>
      Signature.asList.act (.ofSchema s) [x]).run machine = (.ok (.ref listId .list), machine') ∧ _
  rcases castFrom_keeps t (.boxed .list) w machine with ⟨x, n, cast, same⟩ | ⟨-, fault, n, cast⟩
  · obtain rfl : x = w := same
    rw [run_bind_ok cast]
    by_cases boxed : ∃ i b, x = .ref i (.boxed b)
    · obtain ⟨i, b, rfl⟩ := boxed
      cases b with
      | list items =>
          exact .inr ⟨items, n, _, rfl, ⟨i, rfl⟩, congrArg (Option.getD · []) Cells.get?_set_self, rfl⟩
      | _ => exact .inl ⟨_, _, rfl⟩
    · have other : ∀ i b, x ≠ .ref i (.boxed b) := fun i b same => boxed ⟨i, b, same⟩
      have refused : Quiet (Signature.asList.act (.ofSchema s) [x]) (fun _ => False) True :=
        unboxed_faults rfl rfl rfl other
      rcases refused (machine.numbered n) with ⟨_, _, _, never⟩ | ⟨-, fault, k, run⟩
      · exact never.elim
      · exact .inl ⟨fault, _, run⟩
  · exact .inl ⟨fault, _, run_bind_error cast _⟩

/-- The items of an argument for a repeated field are waited for, if it is a list, native or boxed. -/
theorem listed_cases (s : Schema) (t : NativeType) (w : Value) (machine : Machine) :
    (∃ fault machine', (unboxFrom (.ofSchema s) t Signature.list w >>= waitFor).run machine =
        (.error (.fault fault), machine')) ∨
      ∃ boxed items machine', (unboxFrom (.ofSchema s) t Signature.list w >>= waitFor).run machine =
          (.ok (items.map Native.resolved), machine') ∧ w.Lists boxed machine.store items ∧
        machine'.store.builders = machine.store.builders := by
  have unboxes : ∀ t n, (∃ fault machine', (unboxBoxedFrom (.ofSchema s) t Signature.list w >>= waitFor).run
      (machine.numbered n) = (.error (.fault fault), machine')) ∨
        ∃ boxed items machine', (unboxBoxedFrom (.ofSchema s) t Signature.list w >>= waitFor).run
            (machine.numbered n) = (.ok (items.map Native.resolved), machine') ∧
          w.Lists boxed machine.store items ∧ machine'.store.builders = machine.store.builders := by
    intro t n
    rcases unboxBoxed_lists s t w (machine.numbered n) with ⟨fault, machine', run⟩ |
      ⟨items, listId, machine', run, lists, content, same⟩
    · exact .inl ⟨fault, machine', run_bind_error run _⟩
    · refine .inr ⟨true, items, machine'.waited (items.map Native.resolved), (run_bind_ok run _).trans ?_,
        lists, same⟩
      rw [← content]
      exact run_wait (.ref listId .list) machine'
  have numbers : (t.isNumeric && Signature.list.isNumeric) = false := Bool.and_false _
  unfold unboxFrom
  split
  · exact unboxes t machine.store.nextId
  rw [numbers]
  split
  · -- A native list is waited for as it is.
    have waited := run_wait w machine
    cases given : Call.listArg ⟨Signature.resolveAll, none, [w]⟩ 0 with
    | error e =>
        rw [given] at waited
        exact .inl ⟨e, _, waited⟩
    | ok listId =>
        rw [given] at waited
        exact .inr ⟨false, _, _, waited, ⟨listId, listArg_eq_ok given, rfl⟩, rfl⟩
  · rw [if_neg Bool.false_ne_true, bind_assoc]
    rcases castFrom_keeps t (.boxed .any) w machine with ⟨x, n, cast, same⟩ | ⟨-, fault, n, cast⟩
    · obtain rfl : x = w := same
      rw [run_bind_ok cast]
      exact unboxes (t.cast (.boxed .any)) n
    · exact .inl ⟨fault, _, run_bind_error cast _⟩

end Filling

/-- The contents of the kind that the value of an argument brings to a field: none if it is null, the one
that a single value carries, or those of the items of a list in order. -/
inductive Field.Brings (f : Field) (kind : SanitizedKind) (v : TypedValue) (store : Store) (w : Value) :
    List String → Prop
  | none : w = .null → f.Brings kind v store w []
  | one {content : String} : f.isRepeated = false → kind.Marks content v.native v.type w →
      f.Brings kind v store w [content]
  | items {boxed : Bool} {items : List Value} {contents : List String} : f.isRepeated = true →
      w.Lists boxed store items →
      List.Forall₂ (fun item content => kind.Provides content item) (Filling.reached items) contents →
      f.Brings kind v store w contents

namespace Filling

theorem exists_provided {kind : SanitizedKind} {items : List Value} {values : List Stored}
    (all : List.Forall₂ (fun item a => ∃ content, kind.Provides content item ∧ kind.Wraps content a)
      (reached (items.map Native.resolved)) values) :
    ∃ contents, List.Forall₂ (fun item content => kind.Provides content item) (reached items) contents ∧
      List.Forall₂ kind.Wraps contents values := by
  obtain ⟨contents, provides, wraps⟩ := Paired.exists_between all fun _ _ => id
  unfold reached at provides
  rw [← List.map_take, List.forall₂_map_left_iff] at provides
  exact ⟨contents, provides.imp fun _ _ => SanitizedKind.Provides.of_resolved, wraps⟩

/-- Whatever is handed to a builder for a field of a wrapper message, either the run ends in a fault or the
builder has gained wrapper messages around the contents that the value brings. -/
theorem hand_sanitized {s : Schema} (loaded : s.Loaded) (m : Message) (f g : Field) (kind : SanitizedKind)
    (v : TypedValue) (message : String) (id : ObjectId) (w : Value) (machine : Machine) :
    (∃ fault machine', (hand (.ofSchema s) m f g (.sanitized kind) v message id w).run machine =
        (.error (.fault fault), machine')) ∨
      ∃ contents values machine', (hand (.ofSchema s) m f g (.sanitized kind) v message id w).run machine =
          (.ok (), machine') ∧
        f.Brings kind v machine.store w contents ∧ List.Forall₂ kind.Wraps contents values ∧
        machine'.store.builderData id message =
          values.foldl (fun data a => m.store g a data) (machine.store.builderData id message) ∧
        ∀ k, k ≠ id → machine'.store.builders.get? k = machine.store.builders.get? k := by
  unfold hand
  cases skipped : Construction.needsNullTest v && w.isNull with
  | true =>
      have null : w = .null := by
        cases w with
        | null => rfl
        | _ => simp [Value.isNull] at skipped
      exact .inr ⟨[], [], machine, rfl, .none null, .nil, rfl, fun _ _ => rfl⟩
  | false =>
      simp only [Bool.false_eq_true, if_false]
      cases many : f.isRepeated with
      | false =>
          simp only [Bool.false_eq_true, if_false]
          rcases quiet_deposit (storedIn_sanitized loaded f g kind v.type v.native
            (Construction.needsNullTest v) w) (m.store g) message id machine with
            ⟨a, machine', run, ⟨content, marks, wraps⟩, gained⟩ | ⟨-, fault, machine', run, -⟩
          · exact .inr ⟨[content], [a], machine', run, .one many marks, .cons wraps .nil, gained.contents,
              gained.others⟩
          · exact .inl ⟨fault, machine', run⟩
      | true =>
          simp only [if_true]
          rcases listed_cases s v.native w machine with ⟨fault, machine', run⟩ |
            ⟨boxed, items, machine', run, lists, same⟩
          · exact .inl ⟨fault, machine', run_bind_error run _⟩
          rw [run_bind_ok run]
          have read := readElement_sanitized loaded f g kind (Construction.elementType v.type)
          have ended := visits (Q := fun _ _ => True)
            (fun item (_ : item ∈ reached (items.map Native.resolved)) machine =>
              (quiet_deposit (read item) (m.store g) message id machine).imp_right
                fun ⟨_, fault, last, run, gained⟩ => ⟨fault, last, run, gained, trivial⟩) machine'
          rcases ended with ⟨values, last, run', all, gained⟩ | ⟨_, _, _, _, fault, last, -, -, -, run', -⟩
          · obtain ⟨contents, provides, wraps⟩ := exists_provided all
            refine .inr ⟨contents, values, last, run', .items many lists provides, wraps, ?_, ?_⟩
            · rw [gained.contents]
              unfold Store.builderData
              rw [same]
            · intro k other
              rw [gained.others k other, same]
          · exact .inl ⟨fault, last, run'⟩

end Filling

end MessageCode
