import Mathlib.Data.List.Nodup
import MessageCode.Proofs.Fallible
import MessageCode.Schema.Resolve

/-!
What resolution guarantees of a schema. Types that fields name exist, defaults fit the kinds of their
fields, and within a message no name and no number belongs to two fields, extensions included.
-/

namespace MessageCode

def DefaultValue.Fits (kind : FieldKind) : DefaultValue → Prop
  | .bool _ => kind = .bool
  | .int n => kind = .int64 ∨ kind = .int32 ∧ n.toInt32.toInt64 = n
  | .float _ => kind = .float ∨ kind = .double
  | .text _ => kind = .text ∨ kind = .bytes
  | .enum _ => ∃ name, kind = .enum name

def FieldKind.Known (enums : String → Prop) (messages : String → Prop) : FieldKind → Prop
  | .enum name => enums name
  | .message name => messages name
  | _ => True

/-- What resolution guarantees of a field on its own. -/
structure Field.Loaded (enums messages : String → Prop) (f : Field) : Prop where
  positive : 0 < f.number
  kind : f.kind.Known enums messages
  asText : f.numericAsText = true → f.kind = .int64
  default : ∀ d, f.default = some d → f.label = .singular ∧ d.Fits f.kind

structure Apart (fields : List Field) : Prop where
  names : (fields.map (·.name)).Nodup
  numbers : (fields.map (·.number)).Nodup

structure Message.Loaded (enums messages : String → Prop) (m : Message) : Prop where
  field : ∀ f ∈ m.fields, f.Loaded enums messages
  container : ∀ f ∈ m.fields, f.container = m.fullName
  declared : ∀ f ∈ m.fields, f.extensionScope = none
  oneof : ∀ f ∈ m.fields, ∀ oneof, f.oneof = some oneof → f.label = .singular ∧ oneof ∈ m.oneofs

namespace Apart

variable {fields : List Field}

theorem left {more : List Field} (h : Apart (fields ++ more)) : Apart fields := by
  obtain ⟨names, numbers⟩ := h
  rw [List.map_append] at names numbers
  exact ⟨names.of_append_left, numbers.of_append_left⟩

theorem eq_of_name (h : Apart fields) {f g : Field} (mem : f ∈ fields) (mem' : g ∈ fields)
    (same : f.name = g.name) : f = g :=
  List.inj_on_of_nodup_map h.names mem mem' same

theorem eq_of_number (h : Apart fields) {f g : Field} (mem : f ∈ fields) (mem' : g ∈ fields)
    (same : f.number = g.number) : f = g :=
  List.inj_on_of_nodup_map h.numbers mem mem' same

end Apart

theorem Field.refuseClash_eq_ok {fullName : String} {earlier : List Field} {f : Field} :
    f.refuseClash fullName earlier = .ok () ↔
      (∀ g ∈ earlier, g.name ≠ f.name) ∧ ∀ g ∈ earlier, g.number ≠ f.number := by
  unfold refuseClash
  dsimp only
  rw [Fallible.refuse_eq_ok, Fallible.refuse_last_eq_ok, Fallible.pure_eq_ok]
  simp

namespace TypeTable

theorem declare_eq_ok {types types' : TypeTable} {entry : String × TypeSort} :
    types.declare entry = .ok types' ↔
      (∀ known ∈ types, known.1 ≠ entry.1) ∧ types' = types ++ [entry] := by
  unfold declare
  split
  · rename_i known
    simp only [List.any_eq_true, decide_eq_true_eq] at known
    obtain ⟨other, mem, same⟩ := known
    constructor
    · intro h
      cases h
    · rintro ⟨fresh, -⟩
      exact absurd same (fresh other mem)
  · rename_i fresh
    simp only [List.any_eq_true, decide_eq_true_eq, not_exists, not_and] at fresh
    constructor
    · rintro ⟨⟩
      exact ⟨fresh, rfl⟩
    · rintro ⟨-, rfl⟩
      rfl

end TypeTable

theorem toInt64_toInt32_of_fits {n : Int64} (h : (Numeric.int32? n.toInt).isSome = true) :
    n.toInt32.toInt64 = n := by
  unfold Numeric.int32? at h
  split at h
  · rename_i bounds
    have low : (Int32.minValue.toInt : Int) = -2147483648 := rfl
    have high : (Int32.maxValue.toInt : Int) = 2147483647 := rfl
    rw [low, high] at bounds
    apply Int64.toInt.inj
    rw [Int32.toInt_toInt64, Int64.toInt_toInt32, Int.bmod_eq_of_le]
    · omega
    · omega
  · cases h

theorem mem_distinct_iff {names : List String} {name : String} : name ∈ distinct names ↔ name ∈ names := by
  have kept : ∀ names seen : List String,
      name ∈ names.foldl (fun seen name => if name ∈ seen then seen else seen ++ [name]) seen ↔
        name ∈ names ∨ name ∈ seen := by
    intro names
    induction names with
    | nil => simp
    | cons first names ih =>
        intro seen
        rw [List.foldl_cons, ih]
        by_cases known : first ∈ seen
        · rw [if_pos known]
          grind
        · rw [if_neg known]
          grind
  exact (kept names []).trans (or_iff_left List.not_mem_nil)

theorem SanitizedKind.wrapper_loaded (enums messages : String → Prop) (kind : SanitizedKind) :
    (SanitizedKind.wrapper kind).Loaded enums messages ∧ Apart (SanitizedKind.wrapper kind).fields := by
  refine ⟨⟨?_, ?_, ?_, ?_⟩, ?_⟩
  · intro f mem
    cases List.mem_singleton.mp mem
    have positive : (0 : Int32) < 1 := by decide
    exact ⟨positive, trivial, nofun, nofun⟩
  · intro f mem
    cases List.mem_singleton.mp mem
    rfl
  · intro f mem
    cases List.mem_singleton.mp mem
    rfl
  · intro f mem oneof given
    cases List.mem_singleton.mp mem
    cases given
  · exact ⟨List.nodup_singleton _, List.nodup_singleton _⟩

/-- No extension shares its name or its number with another field of the message that it extends. -/
def ApartFrom (messages : List Message) (extensions : List Field) : Prop :=
  ∀ name m, messages.find? (fun m => m.fullName = name) = some m →
    Apart (m.fields ++ extensions.filter fun f => f.container = name)

/-- What resolution guarantees of a schema. -/
structure Schema.Loaded (s : Schema) : Prop where
  wrapper : ∀ kind, s.message? kind.messageName = some (SanitizedKind.wrapper kind)
  message : ∀ m ∈ s.messages,
    m.Loaded (fun name => (s.enum? name).isSome) (fun name => (s.message? name).isSome)
  extension : ∀ f ∈ s.extensions,
    f.Loaded (fun name => (s.enum? name).isSome) (fun name => (s.message? name).isSome)
  scope : ∀ f ∈ s.extensions, f.extensionScope.isSome = true
  alone : ∀ f ∈ s.extensions, f.oneof = none
  apart : ApartFrom s.messages s.extensions

theorem FieldKind.Known.imp {enums enums' messages messages' : String → Prop} {kind : FieldKind}
    (h : kind.Known enums messages) (enum : ∀ name, enums name → enums' name)
    (message : ∀ name, messages name → messages' name) : kind.Known enums' messages' := by
  cases kind with
  | enum name => exact enum name h
  | message name => exact message name h
  | _ => trivial

theorem Field.Loaded.imp {enums enums' messages messages' : String → Prop} {f : Field}
    (h : f.Loaded enums messages) (enum : ∀ name, enums name → enums' name)
    (message : ∀ name, messages name → messages' name) : f.Loaded enums' messages' :=
  ⟨h.positive, h.kind.imp enum message, h.asText, h.default⟩

theorem Message.Loaded.imp {enums enums' messages messages' : String → Prop} {m : Message}
    (h : m.Loaded enums messages) (enum : ∀ name, enums name → enums' name)
    (message : ∀ name, messages name → messages' name) : m.Loaded enums' messages' :=
  ⟨fun f mem => (h.field f mem).imp enum message, h.container, h.declared, h.oneof⟩

end MessageCode
