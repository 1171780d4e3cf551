import MessageCode.Machine.Storage
import MessageCode.Proofs.Schema.Loaded

/-!
Logical values: what the expression language sees of the fields of messages. A field and a stored
value determine one, which travels boxed or in native form. Messages are valid when their slots hold
values of their own fields, at any depth.
-/

namespace MessageCode

inductive LogicalValue where
  | bool (b : Bool)
  | int (n : Int64)
  | float (x : Numeric.Double)
  | text (s : String)
  | message (id : ObjectId) (data : MessageData)
  | sanitized (kind : SanitizedKind) (content : String)

namespace LogicalValue

def boxed : LogicalValue → Boxed
  | .bool b => .bool b
  | .int n => .int n
  | .float x => .float x
  | .text s => .text s
  | .message id data => .proto (.ref id (.message data))
  | .sanitized kind content => .sanitized kind content

def InBox (l : LogicalValue) (v : Value) : Prop := ∃ id, v = .ref id (.boxed l.boxed)

/-- The value is the native form; sanitized content is plain text in it. -/
def Native (l : LogicalValue) (v : Value) : Prop :=
  match l with
  | .bool b => v = .bool b
  | .int n => v = .long n
  | .float x => v = .double x
  | .text s => ∃ id, v = .ref id (.text s)
  | .message id data => v = .ref id (.message data)
  | .sanitized _ content => ∃ id, v = .ref id (.text content)

end LogicalValue

/-- What is seen of a stored value of the field: numbers at their full width, and bytes and marked
integers as texts. -/
def Field.logical (f : Field) : Stored → LogicalValue
  | .bool b => .bool b
  | .int n => .int n.toInt64
  | .long n => if f.numericAsText then .text (toString n.toInt) else .int n
  | .float x => .float x.widen
  | .double x => .float x
  | .text _ s => .text s
  | .bytes _ b => .text (Text.Base64.encode b)
  | .message id data =>
      match f.sanitizedKind? with
      | some kind => .sanitized kind (Storage.wrappedText data)
      | none => .message id data

def DefaultValue.logical (f : Field) : DefaultValue → LogicalValue
  | .bool b => .bool b
  | .int n => if f.numericAsText then .text (toString n.toInt) else .int n
  | .float x => .float (if f.kind = .float then (Numeric.Double.narrow x).widen else x)
  | .text s => .text (if f.kind = .bytes then Text.Base64.encode s.toUTF8.toList else s)
  | .enum n => .int n.toInt64

/-- What is seen of an unset field that has no default of its own. Fields of messages are null then. -/
def Field.implicit? (s : Schema) (f : Field) : Option LogicalValue :=
  match f.kind with
  | .bool => some (.bool false)
  | .int32 => some (.int 0)
  | .int64 => some (if f.numericAsText then .text "0" else .int 0)
  | .float | .double => some (.float (.zero .double false))
  | .text | .bytes => some (.text "")
  | .enum name =>
      some (.int (if f.isModernEnum then 0
        else ((s.enum? name).map fun e => e.defaultNumber.toInt64).getD 0))
  | .message _ => none

def Field.unset? (s : Schema) (f : Field) : Option LogicalValue :=
  match f.default with
  | some d => some (d.logical f)
  | none => f.implicit? s

/-- What is seen of a singular field of a message: the stored value or else the default. -/
def Field.seen? (s : Schema) (f : Field) (data : MessageData) : Option LogicalValue :=
  match data.content? f.number with
  | some (.single a) => some (f.logical a)
  | some (.repeated _) => none
  | none => f.unset? s

namespace Content

variable {α : Type}

def items : Content α → List α
  | .single a => [a]
  | .repeated items => items

def label : Content α → Label
  | .single _ => .singular
  | .repeated _ => .repeated

end Content

def Record.elements {α : Type} (r : Record α) (number : Int32) : List α :=
  ((r.content? number).map Content.items).getD []

namespace Schema

def fieldsOf (s : Schema) (message : String) : List Field :=
  ((s.message? message).map (·.fields)).getD [] ++ s.extensionsOf message

end Schema

/-- Every slot belongs to a field of its label, and no two members of a oneof are set. -/
structure Shaped (s : Schema) (data : MessageData) : Prop where
  slot : ∀ slot ∈ data.slots, ∃ f ∈ s.fieldsOf data.typeName,
    f.number = slot.number ∧ f.label = slot.content.label
  oneof : ∀ f ∈ s.fieldsOf data.typeName, ∀ g ∈ s.fieldsOf data.typeName, ∀ oneof,
    f.oneof = some oneof → g.oneof = some oneof → data.isSet f.number = true →
      data.isSet g.number = true → f = g

/-- The stored value is one of the field's, with messages that are valid in turn. -/
inductive Stored.Fits (s : Schema) : Field → Stored → Prop
  | bool {f b} : f.kind = .bool → Fits s f (.bool b)
  | int {f n} : f.kind = .int32 → Fits s f (.int n)
  | enum {f n name} : f.kind = .enum name → Fits s f (.int n)
  | long {f n} : f.kind = .int64 → Fits s f (.long n)
  | float {f x} : f.kind = .float → Fits s f (.float x)
  | double {f x} : f.kind = .double → Fits s f (.double x)
  | text {f id t} : f.kind = .text → Fits s f (.text id t)
  | bytes {f id b} : f.kind = .bytes → Fits s f (.bytes id b)
  | message {f id} {data : MessageData} : f.kind = .message data.typeName → Shaped s data →
      (∀ slot ∈ data.slots, ∀ g ∈ s.fieldsOf data.typeName, g.number = slot.number →
        ∀ a ∈ slot.content.items, Fits s g a) → Fits s f (.message id data)

/-- The slots of the message hold values of their own fields. -/
structure Valid (s : Schema) (data : MessageData) : Prop where
  shaped : Shaped s data
  fits : ∀ slot ∈ data.slots, ∀ f ∈ s.fieldsOf data.typeName, f.number = slot.number →
    ∀ a ∈ slot.content.items, a.Fits s f

namespace Schema.Loaded

variable {s : Schema} {m : Message} {name : String} {f g : Field}

theorem fieldsOf_eq (found : s.message? name = some m) :
    s.fieldsOf name = m.fields ++ s.extensionsOf name := by
  rw [fieldsOf, found]
  rfl

theorem fullName_eq (found : s.message? name = some m) : m.fullName = name := by
  simpa using List.find?_some found

theorem mem_messages (found : s.message? name = some m) : m ∈ s.messages :=
  List.mem_of_find?_eq_some found

/-- A field of a message is declared in it or one of its extensions. -/
theorem mem_fieldsOf (found : s.message? name = some m) :
    f ∈ s.fieldsOf name ↔ f ∈ m.fields ∨ f ∈ s.extensions ∧ f.container = name := by
  rw [fieldsOf_eq found, List.mem_append, extensionsOf, List.mem_filter, decide_eq_true_eq]

theorem mem_of_field? {fieldName : String} (found : s.message? name = some m)
    (named : s.field? name fieldName = some f) : f ∈ s.fieldsOf name := by
  rw [Schema.field?, found, Option.bind_some] at named
  rw [mem_fieldsOf found]
  rcases declared : m.field? fieldName with _ | g
  · rw [declared] at named
    have given := List.find?_some named
    simp only [Bool.and_eq_true, decide_eq_true_eq] at given
    exact .inr ⟨List.mem_of_find?_eq_some named, given.1⟩
  · rw [declared] at named
    cases named
    exact .inl (List.mem_of_find?_eq_some declared)

theorem name_of_field? {fieldName : String} (named : s.field? name fieldName = some f) :
    f.name = fieldName := by
  rw [Schema.field?] at named
  rcases declared : (s.message? name).bind (·.field? fieldName) with _ | g
  · rw [declared] at named
    have given := List.find?_some named
    simp only [Bool.and_eq_true, decide_eq_true_eq] at given
    exact given.2
  · rw [declared] at named
    cases named
    obtain ⟨m, -, own⟩ := Option.bind_eq_some_iff.mp declared
    simpa using List.find?_some own

variable (h : s.Loaded)

include h

theorem apart_fieldsOf (found : s.message? name = some m) : Apart (s.fieldsOf name) := by
  rw [fieldsOf_eq found]
  exact h.apart name m found

theorem field (found : s.message? name = some m) (mem : f ∈ s.fieldsOf name) :
    f.Loaded (fun name => (s.enum? name).isSome) (fun name => (s.message? name).isSome) := by
  rcases (mem_fieldsOf found).mp mem with mem | ⟨mem, -⟩
  · exact (h.message m (mem_messages found)).field f mem
  · exact h.extension f mem

theorem container (found : s.message? name = some m) (mem : f ∈ s.fieldsOf name) :
    f.container = name := by
  rcases (mem_fieldsOf found).mp mem with mem | ⟨-, container⟩
  · rw [(h.message m (mem_messages found)).container f mem, fullName_eq found]
  · exact container

theorem mem_fields (found : s.message? name = some m) (mem : f ∈ s.fieldsOf name)
    (declared : f.extensionScope = none) : f ∈ m.fields := by
  rcases (mem_fieldsOf found).mp mem with mem | ⟨mem, -⟩
  · exact mem
  · have scope := h.scope f mem
    rw [declared] at scope
    cases scope

theorem field?_eq (found : s.message? name = some m) (mem : f ∈ s.fieldsOf name) :
    s.field? name f.name = some f := by
  have apart := h.apart_fieldsOf found
  rw [Schema.field?, found, Option.bind_some]
  rcases declared : m.field? f.name with _ | g
  · rcases (mem_fieldsOf found).mp mem with mem | ⟨mem', container⟩
    · have absent := List.find?_eq_none.mp declared f mem
      simp at absent
    · rcases extension : s.extensions.find? fun g => g.container = name && g.name = f.name with _ | g
      · have absent := List.find?_eq_none.mp extension f mem'
        simp [container] at absent
      · have same := List.find?_some extension
        simp only [Bool.and_eq_true, decide_eq_true_eq] at same
        have mem'' := (mem_fieldsOf found).mpr
          (.inr ⟨List.mem_of_find?_eq_some extension, same.1⟩)
        exact extension.trans (congrArg some (apart.eq_of_name mem'' mem same.2))
  · have same : g.name = f.name := by simpa using List.find?_some declared
    have mem' := (mem_fieldsOf found).mpr (.inl (List.mem_of_find?_eq_some declared))
    exact congrArg some (apart.eq_of_name mem' mem same)

end Schema.Loaded

/-- A slot of a valid message has the label of its field and holds values of it. -/
theorem Valid.content {s : Schema} {data : MessageData} {m : Message} {f : Field} (h : Valid s data)
    (loaded : s.Loaded) (found : s.message? data.typeName = some m)
    (mem : f ∈ s.fieldsOf data.typeName) {content : Content Stored}
    (set : data.content? f.number = some content) :
    f.label = content.label ∧ ∀ a ∈ content.items, a.Fits s f := by
  obtain ⟨slot, stored, rfl⟩ := Option.map_eq_some_iff.mp set
  have of := List.mem_of_find?_eq_some stored
  have number : slot.number = f.number := by simpa using List.find?_some stored
  obtain ⟨g, mem', same, label⟩ := h.shaped.slot slot of
  cases (loaded.apart_fieldsOf found).eq_of_number mem mem' (number.symm.trans same.symm)
  exact ⟨label, h.fits slot of f mem number.symm⟩

end MessageCode
