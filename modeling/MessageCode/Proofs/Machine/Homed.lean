import MessageCode.Proofs.Machine.Placed
import MessageCode.Proofs.Machine.Policy.Law
import MessageCode.Proofs.Schema.Resolved

/-!
Slots and their fields. Every slot of a message or of a builder is one of a field of its type, and holds
values of the kind of that field. Operations keep this, and what repeated fields hold stays when more is
stored.
-/

namespace MessageCode

inductive Stored.IsKind : FieldKind → Stored → Prop
  | bool (b) : IsKind .bool (.bool b)
  | int (n) : IsKind .int32 (.int n)
  | long (n) : IsKind .int64 (.long n)
  | float (x) : IsKind .float (.float x)
  | double (x) : IsKind .double (.double x)
  | text (id t) : IsKind .text (.text id t)
  | bytes (id b) : IsKind .bytes (.bytes id b)
  | enum (name n) : IsKind (.enum name) (.int n)
  | message (id data) : IsKind (.message data.typeName) (.message id data)

/-- The slot is one of the field: it has its number and holds values of its kind. Where labels count, it
holds a single value for a singular field and a list for a repeated one. -/
structure Slot.BelongsTo (labelled : Field → Prop) (slot : Slot Stored) (f : Field) : Prop where
  number : slot.number = f.number
  label : labelled f → slot.content.label = f.label
  kind : ∀ a ∈ slot.content.items, a.IsKind f.kind

def Homed (s : Schema) (labelled : Field → Prop) (data : MessageData) : Prop :=
  ∀ slot ∈ data.slots, ∃ f ∈ s.fieldsOf data.typeName, slot.BelongsTo labelled f

/-- Of the repeated fields whose labels count, the elements stay, with others after them. -/
def Retains (s : Schema) (labelled : Field → Prop) (data data' : MessageData) : Prop :=
  data'.typeName = data.typeName ∧ ∀ f ∈ s.fieldsOf data.typeName, labelled f → f.isRepeated = true →
    data.elements f.number <+: data'.elements f.number

theorem Storage.isKind_of_ofValue? {f : Field} {v : Value} {a : Stored}
    (taken : ofValue? f v = some a) : a.IsKind f.kind := by
  cases ofValue?_eq_some.mp taken with
  | modernEnum kind modern =>
      rw [kind]
      constructor
  | bool kind | int kind | long kind | float kind | double kind | enumConst kind | text kind
  | bytes kind | message kind =>
      rw [kind]
      constructor

/-- An extension is a field of the message that it extends. -/
theorem Schema.extension_mem {s : Schema} {f : Field} {name : String} (mem : f ∈ s.extensions)
    (container : f.container = name) : f ∈ s.fieldsOf name := by
  rw [fieldsOf, List.mem_append, extensionsOf, List.mem_filter, decide_eq_true_eq]
  exact .inr ⟨mem, container⟩

namespace Schema.WellFormed

variable {s : Schema} {name : String} {f g : Field}

theorem exists_message (wf : s.WellFormed) (mem : f ∈ s.fieldsOf name) :
    ∃ m, s.message? name = some m := by
  unfold fieldsOf at mem
  rcases List.mem_append.mp mem with mem | mem
  · cases found : s.message? name with
    | none =>
        rw [found] at mem
        cases mem
    | some m => exact ⟨m, rfl⟩
  · rw [extensionsOf, List.mem_filter, decide_eq_true_eq] at mem
    obtain ⟨mem, container⟩ := mem
    obtain ⟨m, mem', named, -⟩ := wf.container f mem
    refine Option.isSome_iff_exists.mp (List.find?_isSome.mpr ⟨m, mem', ?_⟩)
    simpa using named.trans container

theorem apart_fieldsOf (wf : s.WellFormed) (mem : f ∈ s.fieldsOf name) : Apart (s.fieldsOf name) := by
  obtain ⟨m, found⟩ := wf.exists_message mem
  exact wf.loaded.apart_fieldsOf found

theorem eq_of_number (wf : s.WellFormed) (mem : f ∈ s.fieldsOf name) (mem' : g ∈ s.fieldsOf name)
    (number : f.number = g.number) : f = g := (wf.apart_fieldsOf mem).eq_of_number mem mem' number

end Schema.WellFormed

section

variable {s : Schema} {labelled : Field → Prop} {data data' : MessageData} {f g : Field} {m : Message}
  {a : Stored} {name : String} {held : Content Stored}

theorem homed_iff :
    Homed s labelled data ↔ Placed s labelled (fun f a => a.IsKind f.kind) data := by
  constructor
  · intro h slot within
    obtain ⟨f, mem, number, label, kind⟩ := h slot within
    exact ⟨f, mem, number, label, kind⟩
  · intro h slot within
    obtain ⟨f, mem, number, label, kind⟩ := h slot within
    exact ⟨f, mem, number, label, kind⟩

namespace Homed

theorem empty (typeName : String) : Homed s labelled (.empty typeName) := nofun

theorem set (h : Homed s labelled data) (mem : f ∈ s.fieldsOf data.typeName)
    (allowed : f.MayHold labelled (fun f a => a.IsKind f.kind) held) :
    Homed s labelled (data.set f.number name held) :=
  homed_iff.mpr ((homed_iff.mp h).set mem allowed)

theorem listed_eq (apart : Apart (s.fieldsOf data.typeName)) (h : Homed s labelled data)
    (mem : f ∈ s.fieldsOf data.typeName) (counts : labelled f) (repeated : f.isRepeated = true) :
    data.listed f.number = data.elements f.number := by
  unfold Record.listed Record.elements
  cases set : data.content? f.number with
  | none => rfl
  | some held =>
      obtain ⟨label, -⟩ := (homed_iff.mp h).content apart mem set
      cases held with
      | single a =>
          have label := label counts
          rw [Field.isRepeated, ← label] at repeated
          cases repeated
      | repeated items => rfl

theorem push (wf : s.WellFormed) (h : Homed s labelled data) (mem : f ∈ s.fieldsOf data.typeName)
    (repeated : labelled f → f.isRepeated = true) (kind : a.IsKind f.kind) :
    Homed s labelled (data.push f.number name a) :=
  homed_iff.mpr ((homed_iff.mp h).push (wf.apart_fieldsOf mem) mem repeated kind)

theorem setField (h : Homed s labelled data) (mem : f ∈ s.fieldsOf data.typeName)
    (singular : f.label = .singular) (kind : a.IsKind f.kind) :
    Homed s labelled (Native.setField m f a data) :=
  homed_iff.mpr ((homed_iff.mp h).setField mem singular kind)

end Homed

namespace Retains

theorem refl (data : MessageData) : Retains s labelled data data :=
  ⟨rfl, fun _ _ _ _ => List.prefix_rfl⟩

theorem trans {data'' : MessageData} (h : Retains s labelled data data')
    (h' : Retains s labelled data' data'') : Retains s labelled data data'' := by
  refine ⟨h'.1.trans h.1, fun f mem counts repeated => ?_⟩
  exact (h.2 f mem counts repeated).trans (h'.2 f (by rwa [h.1]) counts repeated)

theorem of_content (typeName : data'.typeName = data.typeName)
    (same : ∀ g ∈ s.fieldsOf data.typeName, labelled g → g.isRepeated = true →
      data'.content? g.number = data.content? g.number) : Retains s labelled data data' := by
  refine ⟨typeName, fun g mem counts repeated => ?_⟩
  have kept : data.elements g.number = data'.elements g.number := by
    rw [Record.elements, Record.elements, same g mem counts repeated]
  exact kept ▸ List.prefix_rfl

theorem set (wf : s.WellFormed) (mem : f ∈ s.fieldsOf data.typeName)
    (singular : labelled f → f.label = .singular) :
    Retains s labelled data (data.set f.number name held) := by
  refine .of_content rfl fun g mem' counts repeated => Record.content?_set_ne fun number => ?_
  cases wf.eq_of_number mem' mem number
  rw [Field.isRepeated, singular counts] at repeated
  cases repeated

theorem push (wf : s.WellFormed) (h : Homed s labelled data) (mem : f ∈ s.fieldsOf data.typeName) :
    Retains s labelled data (data.push f.number name a) := by
  obtain ⟨name', eq⟩ := data.push_eq f.number name a
  rw [eq]
  refine ⟨rfl, fun g mem' counts repeated => ?_⟩
  by_cases number : g.number = f.number
  · cases wf.eq_of_number mem' mem number
    rw [← h.listed_eq (wf.apart_fieldsOf mem) mem counts repeated, Record.elements, Record.content?_set_self]
    exact List.prefix_append _ _
  · have kept : data.elements g.number =
        (data.set f.number name' (.repeated (data.listed f.number ++ [a]))).elements g.number := by
      rw [Record.elements, Record.elements, Record.content?_set_ne number]
    exact kept ▸ List.prefix_rfl

theorem setField (wf : s.WellFormed) (found : s.message? data.typeName = some m) (mem : f ∈ m.fields)
    (singular : f.label = .singular) : Retains s labelled data (Native.setField m f a data) := by
  have within {g : Field} (mem : g ∈ m.fields) : g ∈ s.fieldsOf data.typeName :=
    (Schema.Loaded.mem_fieldsOf found).mpr (.inl mem)
  have other {g k : Field} (mem' : g ∈ s.fieldsOf data.typeName) (repeated : g.isRepeated = true)
      (mem : k ∈ m.fields) (singular : k.label = .singular) : g.number ≠ k.number := by
    intro number
    cases wf.eq_of_number mem' (within mem) number
    rw [Field.isRepeated, singular] at repeated
    cases repeated
  unfold Native.setField
  cases f.oneof with
  | none => exact .of_content rfl fun g mem' _ repeated =>
      Record.content?_set_ne (other mem' repeated mem singular)
  | some oneof =>
      refine .of_content Record.typeName_clearAll fun g mem' _ repeated => ?_
      rw [Record.content?_set_ne (other mem' repeated mem singular)]
      refine Record.content?_clearAll fun cleared => ?_
      obtain ⟨k, member, number⟩ := List.mem_map.mp cleared
      obtain ⟨mem, of⟩ := Message.mem_members.mp member
      have loaded := wf.loaded.message m (Schema.Loaded.mem_messages found)
      exact other mem' repeated mem (loaded.oneof k mem oneof of).1 number.symm

end Retains

end

namespace Schema

variable {s : Schema}

/-- The law that slots are at home, under which repeated fields lose nothing. -/
def homing (s : Schema) (labelled : Field → Prop) : LastingLaw :=
  ⟨Homed s labelled, Retains s labelled, Homed.empty, Retains.refl, Retains.trans⟩

/-- Operations keep slots at home where those on extensions go by the labels that count. -/
theorem WellFormed.keeps_homed (wf : s.WellFormed) {labelled : Field → Prop} {c : Call}
    (placed : ∀ f receiver, c.method.owner = .extendableBuilder →
      Native.extensionArg s c receiver = .ok f → labelled f →
        (c.name = "set_extension" → f.isRepeated = false) ∧
          (c.name = "add_extension" → f.isRepeated = true)) : s.KeepsAt (s.homing labelled) c where
  wrapper kind id content := by
    have mem := (Loaded.mem_fieldsOf (wf.loaded.wrapper kind)).mpr (.inl (List.mem_singleton_self _))
    exact (Homed.empty kind.messageName).set mem (.single (fun _ => rfl) (.text id content))
  set {m f v a data} found mem singular taken homed := by
    have within := (Loaded.mem_fieldsOf found).mpr (.inl mem)
    exact ⟨homed.setField within (Field.label_singular singular) (Storage.isKind_of_ofValue? taken),
      .setField wf found mem (Field.label_singular singular)⟩
  add {m f v a data} found mem repeated taken homed := by
    have within := (Loaded.mem_fieldsOf found).mpr (.inl mem)
    exact ⟨homed.push wf within (fun _ => repeated) (Storage.isKind_of_ofValue? taken),
      .push wf homed within⟩
  setExtension {f v a data receiver} owner sets identified container taken homed := by
    have within := extension_mem (Native.extensionArg_mem identified).1 container
    have singular := fun counts => Field.label_singular ((placed f receiver owner identified counts).1 sets)
    exact ⟨homed.set within (.single singular (Storage.isKind_of_ofValue? taken)), .set wf within singular⟩
  addExtension {f v a data receiver} owner adds identified container taken homed := by
    have within := extension_mem (Native.extensionArg_mem identified).1 container
    exact ⟨homed.push wf within (fun counts => (placed f receiver owner identified counts).2 adds)
      (Storage.isKind_of_ofValue? taken), .push wf homed within⟩

end Schema

end MessageCode
