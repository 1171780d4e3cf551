import MessageCode.Proofs.Generate.Sanitized
import MessageCode.Proofs.Machine.Contents

/-!
Messages with sanitized content. What a finished run has put in a field of a wrapper message comes from an
argument for that field, and has the kind that the value of the argument carries.
-/

namespace MessageCode

open Stateful

theorem Message.mem_elements_of_adding {m : Message} {f : Field} {a b : Stored} {data : MessageData}
    {k : Int32} (mem : b ∈ (m.adding f a data).elements k) : b ∈ data.elements k ∨ k = f.number ∧ b = a := by
  unfold Record.elements at mem ⊢
  rw [Record.content?_eq, slot?_adding] at mem
  by_cases own : k = f.number
  · subst own
    rw [if_pos rfl, Option.map_some, Field.content_slot] at mem
    split at mem
    · rcases List.mem_append.mp mem with mem | mem
      · exact .inl (Record.mem_elements_of_listed mem)
      · exact .inr ⟨rfl, List.mem_singleton.mp mem⟩
    · exact .inr ⟨rfl, List.mem_singleton.mp mem⟩
  · rw [if_neg own] at mem
    split at mem
    · cases mem
    · exact .inl mem

theorem Message.mem_elements_of_addings {m : Message} {f : Field} {values : List Stored} {b : Stored}
    {data : MessageData} {k : Int32}
    (mem : b ∈ (values.foldl (fun data a => m.adding f a data) data).elements k) :
    b ∈ data.elements k ∨ k = f.number ∧ b ∈ values := by
  induction values generalizing data with
  | nil => exact .inl mem
  | cons a values ih =>
      rcases ih mem with mem | ⟨same, mem⟩
      · exact (mem_elements_of_adding mem).imp_right fun ⟨same, equal⟩ =>
          ⟨same, equal ▸ List.mem_cons_self⟩
      · exact .inr ⟨same, List.mem_cons_of_mem _ mem⟩

namespace Filling

variable {host : Host} {fuel : Nat} {m : Message} {f : Field} {c : Coercion} {v : TypedValue} {id : ObjectId}
  {data data' : MessageData} {machine machine' : Machine}

def Yields {α : Type} (x : Run α) (a : α) : Prop := ∃ machine machine', x.run machine = (.ok a, machine')

/-- The values that an argument supplies: those that are stored of what its code leaves. -/
inductive Supplies (host : Host) (fuel : Nat) (f : Field) (c : Coercion) (v : TypedValue) :
    List Stored → Prop
  | none : Supplies host fuel f c v []
  | one {before after : Machine} {w : Value} {a : Stored} : f.isRepeated = false →
      (v.evaluate host fuel).run before = (.ok w, after) →
      Yields (stored host f c v.type v.native (Construction.needsNullTest v) w) a →
      Supplies host fuel f c v [a]
  | items {before after waited : Machine} {w : Value} {items : List Value} {values : List Stored} :
      f.isRepeated = true → (v.evaluate host fuel).run before = (.ok w, after) →
      (unboxFrom host v.native Signature.list w >>= waitFor).run after = (.ok items, waited) →
      List.Forall₂ (fun item a => Yields (readElement host f f c (Construction.elementType v.type) item) a)
        (reached items) values →
      Supplies host fuel f c v values

theorem addElement_eq (host : Host) (m : Message) (f : Field) (c : Coercion) (type : ValueType)
    (id : ObjectId) (data : MessageData) (item : Value) :
    addElement host m f c type id data item =
      readElement host f f c type item >>= fun a => keep id (m.adding f a data) := by
  unfold addElement readElement
  rw [stored_eq]
  cases f.isExtension <;> simp only [bind_assoc, Bool.false_eq_true, if_false, if_true]

/-- The elements of a list are stored one after the other. -/
theorem addElements_eq_ok {type : ValueType} {items : List Value}
    (run : (items.foldlM (addElement host m f c type id) data).run machine = (.ok data', machine')) :
    ∃ values, List.Forall₂ (fun item a => Yields (readElement host f f c type item) a) items values ∧
      data' = values.foldl (fun data a => m.adding f a data) data := by
  induction items generalizing data machine with
  | nil =>
      cases run
      exact ⟨[], .nil, rfl⟩
  | cons item items ih =>
      rw [List.foldlM_cons, addElement_eq] at run
      obtain ⟨next, middle, first, rest⟩ := bind_eq_ok.mp run
      obtain ⟨a, _, read, kept⟩ := bind_eq_ok.mp first
      cases kept
      obtain ⟨values, all, rfl⟩ := ih rest
      exact ⟨a :: values, .cons ⟨_, _, read⟩ all, rfl⟩

/-- An argument that has been gone through has stored the values that it supplies. -/
theorem fill_eq_ok (run : (fill host fuel m f c v id data).run machine = (.ok data', machine')) :
    ∃ values, Supplies host fuel f c v values ∧
      data' = values.foldl (fun data a => m.adding f a data) data := by
  by_cases null : v.type = .null
  · rw [fill_null null] at run
    cases run
    exact ⟨[], .none, rfl⟩
  cases many : f.isRepeated with
  | true =>
      rw [fill_repeated null many] at run
      split at run
      · cases run
        exact ⟨[], .none, rfl⟩
      unfold unlessNull at run
      obtain ⟨w, after, evaluated, rest⟩ := bind_eq_ok.mp run
      split at rest
      · cases rest
        exact ⟨[], .none, rfl⟩
      · unfold addList at rest
        rw [← bind_assoc] at rest
        obtain ⟨items, waited, listed, added⟩ := bind_eq_ok.mp rest
        obtain ⟨values, all, rfl⟩ := addElements_eq_ok added
        exact ⟨values, .items many evaluated listed all, rfl⟩
  | false =>
      rw [fill_singular null many] at run
      obtain ⟨⟨⟩, ready, -, run⟩ := bind_eq_ok.mp run
      unfold unlessNull at run
      obtain ⟨w, after, evaluated, rest⟩ := bind_eq_ok.mp run
      split at rest
      · cases rest
        exact ⟨[], .none, rfl⟩
      · obtain ⟨a, _, read, kept⟩ := bind_eq_ok.mp rest
        cases kept
        exact ⟨[a], .one many evaluated ⟨_, _, read⟩, rfl⟩

/-- What the contents of a field have become by the arguments: an element that is not new is supplied by an
argument for a field of that number. -/
theorem arguments_eq_ok {s : Schema} {arguments : List (String × TypedValue)}
    (run : (arguments.foldlM (argument s fuel m id) data).run machine = (.ok data', machine')) {k : Int32}
    {a : Stored} (mem : a ∈ data'.elements k) :
    a ∈ data.elements k ∨ ∃ name v f c values, (name, v) ∈ arguments ∧ s.field? m.fullName name = some f ∧
      Coercion.of s f = .ok c ∧ k = f.number ∧ Supplies (.ofSchema s) fuel f c v values ∧ a ∈ values := by
  induction arguments generalizing data machine with
  | nil =>
      cases run
      exact .inl mem
  | cons first arguments ih =>
      obtain ⟨name, v⟩ := first
      rw [List.foldlM_cons] at run
      obtain ⟨next, middle, done, rest⟩ := bind_eq_ok.mp run
      rcases ih rest with mem | ⟨name', v', f, c, values, within, known⟩
      · unfold argument at done
        dsimp only at done
        cases named : s.field? m.fullName name with
        | none =>
            rw [named] at done
            cases done
            exact .inl mem
        | some f =>
            rw [named] at done
            dsimp only at done
            cases coercion : Coercion.of s f with
            | error e =>
                rw [coercion] at done
                cases done
                exact .inl mem
            | ok c =>
                rw [coercion] at done
                obtain ⟨values, supplies, rfl⟩ := fill_eq_ok done
                refine (Message.mem_elements_of_addings mem).imp_right fun ⟨number, within⟩ => ?_
                exact ⟨name, v, f, c, values, List.mem_cons_self, named, coercion, number, supplies, within⟩
      · exact .inr ⟨name', v', f, c, values, List.mem_cons_of_mem _ within, known⟩

/-- What a message with arguments is built from. -/
theorem elements_supplied {s : Schema} {arguments : List (String × TypedValue)} {messageId : ObjectId}
    (run : (message s fuel m arguments).run machine = (.ok (.ref messageId (.message data)), machine'))
    {k : Int32} {a : Stored} (mem : a ∈ data.elements k) :
    ∃ name v f c values, (name, v) ∈ arguments ∧ s.field? m.fullName name = some f ∧
      Coercion.of s f = .ok c ∧ k = f.number ∧ Supplies (.ofSchema s) fuel f c v values ∧ a ∈ values := by
  have unset : ∀ typeName, a ∉ (Record.empty typeName : MessageData).elements k := by
    intro typeName within
    cases within
  cases some : arguments.isEmpty with
  | true =>
      unfold message at run
      rw [some, if_pos rfl] at run
      cases given : (Native.defaultInstance s m.fullName).run machine with
      | mk result last =>
          rw [Run.run_ofNative, given] at run
          cases result with
          | error fault => cases run
          | ok w =>
              cases run
              unfold Native.defaultInstance at given
              obtain ⟨id, middle, -, made⟩ := bind_eq_ok.mp given
              cases made
              exact absurd mem (unset m.fullName)
  | false =>
      rw [run_message some] at run
      obtain ⟨built, middle, filled, made⟩ := bind_eq_ok.mp run
      cases made
      exact (arguments_eq_ok filled mem).resolve_left (unset m.fullName)

/-- The values that an argument supplies to a field of a wrapper message are wrapped around the contents that
its value brings. -/
theorem Supplies.exists_brings {s : Schema} (loaded : s.Loaded) {kind : SanitizedKind} {values : List Stored}
    (supplies : Supplies (.ofSchema s) fuel f (.sanitized kind) v values) {a : Stored} (mem : a ∈ values) :
    ∃ before w after contents content, (v.evaluate (.ofSchema s) fuel).run before = (.ok w, after) ∧
      f.Brings kind v after.store w contents ∧ content ∈ contents ∧ kind.Wraps content a := by
  cases supplies with
  | none => cases mem
  | one singular evaluated read =>
      obtain rfl := List.mem_singleton.mp mem
      obtain ⟨machine, machine', run⟩ := read
      rw [stored_eq] at run
      obtain ⟨content, marks, wraps⟩ :=
        (storedIn_sanitized loaded f f kind v.type v.native (Construction.needsNullTest v) _).of_ok run
      exact ⟨_, _, _, [content], content, evaluated, .one singular marks, List.mem_cons_self, wraps⟩
  | items repeated evaluated listed all =>
      rcases listed_cases s v.native _ _ with ⟨fault, _, failed⟩ | ⟨boxed, items, _, run, lists, -⟩
      · cases listed.symm.trans failed
      · cases listed.symm.trans run
        have provided : ∀ item a, Yields (readElement (.ofSchema s) f f (.sanitized kind)
            (Construction.elementType v.type) item) a →
              ∃ content, kind.Provides content item ∧ kind.Wraps content a := by
          rintro item a ⟨machine, machine', run⟩
          exact (readElement_sanitized loaded f f kind (Construction.elementType v.type) item).of_ok run
        obtain ⟨contents, provides, wraps⟩ := exists_provided (all.imp provided)
        obtain ⟨content, within, wraps⟩ := Paired.left_of_mem wraps mem
        exact ⟨_, _, _, contents, content, evaluated, .items repeated lists provides, within, wraps⟩

end Filling

/-- How a run ends that takes the value of an argument for a field of a wrapper message: with a fault, or with
the builder alone on the stack and wrapper messages in it around the contents that the value brings. -/
inductive Filling.Receives (f : Field) (kind : SanitizedKind) (v : TypedValue)
    (change : Stored → MessageData → MessageData) (message : String) (id : ObjectId) (w : Value)
    (m : Machine) :
    Except Stop Frame × Machine → Prop
  | fault {fault : Fault} {m' : Machine} : Receives f kind v change message id w m (.error (.fault fault), m')
  | wrapped {contents : List String} {values : List Stored} {locals : List Value} {m' : Machine} :
      f.Brings kind v m.store w contents → List.Forall₂ kind.Wraps contents values →
      m'.store.builderData id message =
        values.foldl (fun data a => change a data) (m.store.builderData id message) →
      (∀ other, other ≠ id → m'.store.builders.get? other = m.store.builders.get? other) →
      Receives f kind v change message id w m (.ok ⟨[.ref id (.builder message)], locals⟩, m')

theorem Coercion.of_wrapper {s : Schema} {f : Field} {kind : SanitizedKind}
    (wraps : f.kind = .message kind.messageName) {c : Coercion} (coercion : Coercion.of s f = .ok c) :
    c = .sanitized kind := by
  cases Coercion.covers_of_eq_ok coercion with
  | message kindOf other =>
      cases kindOf.symm.trans wraps
      rw [kind.ofMessage?_messageName] at other
      cases other
  | @sanitized kind' kindOf =>
      have same := kindOf.symm.trans wraps
      injection same with same
      have known := kind'.ofMessage?_messageName
      rw [same, kind.ofMessage?_messageName] at known
      cases known
      rfl
  | bool kindOf | int32 kindOf | int64 kindOf | int64AsText kindOf | float kindOf | double kindOf
  | text kindOf | bytes kindOf | legacyEnum kindOf | modernEnum kindOf =>
      cases kindOf.symm.trans wraps

/-- Sanitized content keeps its kind. In the code for a message, behind the code of an argument for a field of
a wrapper message stands code that takes whatever value was left, and ends in a fault or with wrapper messages
around the contents that the value brings: those of boxed content of the kind, or of a native text that is
known to be of the kind. What a finished run has put in the field is such a wrapper message, around content
that the value of an argument for the field brought. -/
theorem generateConstruction_sanitized {files : List FileDescription} {s : Schema}
    (resolved : Schema.resolve files = .ok s) {message : String} {m : Message}
    (found : s.message? message = some m) {f : Field} (mem : f ∈ s.fieldsOf message) {kind : SanitizedKind}
    (wraps : f.kind = .message kind.messageName) {arguments : List (String × TypedValue)} {k : TypedValue}
    (generated : generateConstruction s .immediate message arguments = .ok k) {fuel : Nat}
    (enough : Int32.maxValue.toInt.toNat < fuel) :
    (∀ v, (f.name, v) ∈ arguments → Filling.Skips f v ∨
      ∃ opening front base back closing g,
        k.code.ops = opening ++ (front ++ Op.relocateAll base v.code.ops ++ back) ++ closing ∧
        f.Addresses s m g ∧
        ∀ id before start, ∃ stack started,
          (Op.execAll (.ofSchema s) fuel front ⟨[.ref id (.builder message)], before⟩).run start =
            (.ok ⟨stack, before⟩, started) ∧
          ∀ w locals machine, k.code.maxLocals ≤ locals.length →
            Filling.Receives f kind v (m.store g) message id w machine
              ((Op.execAll (.ofSchema s) fuel back ⟨w :: stack, locals⟩).run machine)) ∧
    ∀ machine id data built, machine.Tidy → (∀ a ∈ arguments, Filling.Admissible s fuel m a) →
      (k.code.run s fuel []).run machine = (.ok (some (.ref id (.message data))), built) →
      ∀ a ∈ data.elements f.number, ∃ v before w after contents content, (f.name, v) ∈ arguments ∧
        (v.evaluate (.ofSchema s) fuel).run before = (.ok w, after) ∧
        f.Brings kind v after.store w contents ∧ content ∈ contents ∧ kind.Wraps content a := by
  have loaded := Schema.loaded_of_resolve resolved
  constructor
  · intro v within
    obtain ⟨f', g, c, named, coercion, addressed, written⟩ :=
      Filling.generated_hands enough loaded found generated within
    cases (loaded.field?_eq found mem).symm.trans named
    obtain rfl := Coercion.of_wrapper wraps coercion
    refine written.imp_right ?_
    rintro ⟨opening, front, base, back, closing, ops, delivers⟩
    refine ⟨opening, front, base, back, closing, g, ops, addressed.addresses, fun id before start => ?_⟩
    obtain ⟨stack, started, prepared, exec⟩ := delivers id before start
    refine ⟨stack, started, prepared, fun w locals machine room => ?_⟩
    obtain ⟨after, handed⟩ := exec w locals machine room
    rw [handed]
    rcases Filling.hand_sanitized loaded m f g kind v message id w machine with ⟨fault, last, run⟩ |
      ⟨contents, values, last, run, brings, wrapped, contents', others⟩
    · rw [run_bind_error run]
      exact .fault
    · rw [run_bind_ok run]
      exact .wrapped brings wrapped contents' others
  · intro machine id data built tidy given run a stored
    rw [Filling.run_generated loaded found generated enough given tidy, run_map] at run
    rcases result : (Filling.message s fuel m arguments).run machine with ⟨e | w, last⟩
    · rw [result] at run
      cases run
    · rw [result] at run
      cases run
      obtain ⟨name, v, f', c, values, within, named, coercion, number, supplies, within'⟩ :=
        Filling.elements_supplied result stored
      rw [Schema.Loaded.fullName_eq found] at named
      have mem' := Schema.Loaded.mem_of_field? found named
      obtain rfl := (loaded.apart_fieldsOf found).eq_of_number mem mem' number
      obtain rfl := Schema.Loaded.name_of_field? named
      obtain rfl := Coercion.of_wrapper wraps coercion
      obtain ⟨before, w, after, contents, content, brought⟩ := supplies.exists_brings loaded within'
      exact ⟨v, before, w, after, contents, content, within, brought⟩

def pageFile : FileDescription where
  package := "demo"
  revision := .modern
  holder := "Demo"
  messages := [⟨"Page", false,
    [⟨"body", 1, .message, some "webutil.html.types.SafeHtmlProto", .singular, none, none, false⟩]⟩]
  enums := []
  extensions := []

def pageBody : Field :=
  ⟨"body", 1, .message "webutil.html.types.SafeHtmlProto", .singular, .modern, "demo.Page", none, none, false,
    none⟩

def pageMessage : Message := ⟨"demo.Page", .modern, false, [pageBody], []⟩

def pageSchema : Schema := ⟨SanitizedKind.wrappers ++ [pageMessage], [], []⟩

theorem pageFile_resolved : Schema.resolve [pageFile] = .ok pageSchema := by
  rfl

theorem pageSchema_message : pageSchema.message? "demo.Page" = some pageMessage := by
  rfl

theorem pageSchema_fieldsOf : pageSchema.fieldsOf "demo.Page" = [pageBody] := by
  rfl

def pageMarkup : TypedValue := .ofConstant (.text "<b>") (.sanitized .html)

theorem pageMarkup_admissible :
    Filling.Admissible pageSchema 2147483648 pageMessage ("body", pageMarkup) := by
  refine ⟨Sequence.constant_isProper _, TypedValue.ofConstant_truthful _ _ _ _, ?_⟩
  intro f named
  have mem := Schema.Loaded.mem_of_field? pageSchema_message named
  rw [pageSchema_fieldsOf] at mem
  obtain rfl := List.mem_singleton.mp mem
  rfl

theorem pageMarkup_fills (fuel : Nat) :
    ∃ id data built, (Filling.message pageSchema fuel pageMessage [("body", pageMarkup)]).run Machine.start =
        (.ok (.ref id (.message data)), built) ∧ (data.elements 1).length = 1 := by
  have taken : ∀ id data, Filling.argument pageSchema fuel pageMessage id data ("body", pageMarkup) =
      (monadLift (Constant.load (.text "<b>")) : Run Value) >>= fun w => if w.isNull then pure data else
        Filling.setValue (.ofSchema pageSchema) pageMessage pageBody (.sanitized .html) pageMarkup id data
          w := by
    intro id data
    rw [← TypedValue.evaluate_ofConstant _ (.sanitized .html) (.ofSchema pageSchema) fuel]
    exact Filling.fill_singular (f := pageBody) (c := .sanitized .html) (by decide) rfl id data
  rw [Filling.run_message rfl]
  simp only [List.foldlM_cons, List.foldlM_nil, taken]
  exact ⟨_, _, _, rfl, rfl⟩

theorem pageBody_sanitized :
    ∃ k id data built, generateConstruction pageSchema .immediate "demo.Page" [("body", pageMarkup)] = .ok k ∧
      (k.code.run pageSchema 2147483648 []).run Machine.start =
        (.ok (some (.ref id (.message data))), built) ∧
      (data.elements 1).length = 1 ∧ ∀ a ∈ data.elements 1, SanitizedKind.html.Wraps "<b>" a := by
  have generated : ∃ k, generateConstruction pageSchema .immediate "demo.Page" [("body", pageMarkup)] =
      .ok k := ⟨_, rfl⟩
  obtain ⟨k, generated⟩ := generated
  have given : ∀ a ∈ [("body", pageMarkup)], Filling.Admissible pageSchema 2147483648 pageMessage a := by
    intro a mem
    obtain rfl := List.mem_singleton.mp mem
    exact pageMarkup_admissible
  obtain ⟨id, data, built, filled, one⟩ := pageMarkup_fills 2147483648
  have run : (k.code.run pageSchema 2147483648 []).run Machine.start =
      (.ok (some (.ref id (.message data))), built) := by
    rw [Filling.run_generated (Schema.loaded_of_resolve pageFile_resolved) pageSchema_message generated
      (by decide) given Machine.start_tidy, run_map, filled]
    rfl
  have wraps : pageBody.kind = .message SanitizedKind.html.messageName := rfl
  have sanitized := (generateConstruction_sanitized pageFile_resolved pageSchema_message
    (pageSchema_fieldsOf ▸ List.mem_singleton_self pageBody) wraps generated (by decide)).2
    Machine.start id data built Machine.start_tidy given run
  refine ⟨k, id, data, built, generated, run, one, fun a mem => ?_⟩
  obtain ⟨v, before, w, after, contents, content, within, evaluated, brings, mem, wraps⟩ := sanitized a mem
  cases List.mem_singleton.mp within
  rw [pageMarkup, TypedValue.evaluate_ofConstant] at evaluated
  cases evaluated
  cases brings with
  | none null => cases null
  | items repeated => cases repeated
  | one _ marks =>
      obtain rfl := List.mem_singleton.mp mem
      cases marks
      exact wraps

end MessageCode
