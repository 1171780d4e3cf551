import MessageCode.Proofs.Machine.Exclusive

/-!
Contents whose slots are in their places: every slot is one of a field of the type, and what it holds is
as it has to be for this field. The changes that operations make keep this. Messages are valid when slots
hold values of their fields, and stay so when more is stored.
-/

namespace MessageCode

theorem Field.label_singular {f : Field} (singular : f.isRepeated = false) : f.label = .singular := by
  cases label : f.label with
  | singular => rfl
  | repeated =>
      rw [isRepeated, label] at singular
      cases singular

/-- A slot of the field may hold the content: values of the field, and where its label counts, a single
value or a list as the label says. -/
def Field.MayHold (labelled : Field → Prop) (own : Field → Stored → Prop) (f : Field)
    (held : Content Stored) : Prop :=
  (labelled f → held.label = f.label) ∧ ∀ a ∈ held.items, own f a

def Placed (s : Schema) (labelled : Field → Prop) (own : Field → Stored → Prop) (data : MessageData) :
    Prop :=
  ∀ slot ∈ data.slots, ∃ f ∈ s.fieldsOf data.typeName,
    slot.number = f.number ∧ f.MayHold labelled own slot.content

section

variable {s : Schema} {labelled : Field → Prop} {own : Field → Stored → Prop} {data : MessageData}
  {f : Field} {m : Message} {a : Stored} {name : String} {held : Content Stored}

theorem Field.MayHold.single (singular : labelled f → f.label = .singular) (belongs : own f a) :
    f.MayHold labelled own (.single a) := by
  refine ⟨fun counts => (singular counts).symm, fun b within => ?_⟩
  cases List.mem_singleton.mp within
  exact belongs

namespace Placed

theorem set (h : Placed s labelled own data) (mem : f ∈ s.fieldsOf data.typeName)
    (allowed : f.MayHold labelled own held) : Placed s labelled own (data.set f.number name held) := by
  intro slot within
  rcases Slot.mem_of_mem_insert within with rfl | within
  · exact ⟨f, mem, rfl, allowed⟩
  · exact h slot within

theorem content (apart : Apart (s.fieldsOf data.typeName)) (h : Placed s labelled own data)
    (mem : f ∈ s.fieldsOf data.typeName) (set : data.content? f.number = some held) :
    f.MayHold labelled own held := by
  obtain ⟨slot, found, rfl⟩ := Option.map_eq_some_iff.mp set
  obtain ⟨g, mem', number, allowed⟩ := h slot (List.mem_of_find?_eq_some found)
  have same : slot.number = f.number := by simpa using List.find?_some found
  cases apart.eq_of_number mem mem' (same.symm.trans number)
  exact allowed

theorem push (apart : Apart (s.fieldsOf data.typeName)) (h : Placed s labelled own data)
    (mem : f ∈ s.fieldsOf data.typeName) (repeated : labelled f → f.isRepeated = true)
    (belongs : own f a) : Placed s labelled own (data.push f.number name a) := by
  obtain ⟨name', eq⟩ := data.push_eq f.number name a
  rw [eq]
  refine h.set mem ⟨fun counts => (of_decide_eq_true (repeated counts)).symm, fun b within => ?_⟩
  rcases List.mem_append.mp within with old | new
  · unfold Record.listed at old
    split at old
    · rename_i items set
      exact (h.content apart mem set).2 b old
    · cases old
  · cases List.mem_singleton.mp new
    exact belongs

theorem setField (h : Placed s labelled own data) (mem : f ∈ s.fieldsOf data.typeName)
    (singular : f.label = .singular) (belongs : own f a) :
    Placed s labelled own (Native.setField m f a data) := by
  have allowed : f.MayHold labelled own (.single a) := .single (fun _ => singular) belongs
  unfold Native.setField
  cases f.oneof with
  | none => exact h.set mem allowed
  | some oneof =>
      have cleared : Placed s labelled own (data.clearAll ((m.members oneof).map Field.number)) := by
        intro slot within
        rw [Record.typeName_clearAll]
        exact h slot (Record.mem_of_clearAll within)
      refine cleared.set ?_ allowed
      rwa [Record.typeName_clearAll]

/-- The slots stay in their places when a value of one of the fields is stored. -/
theorem store (apart : Apart (s.fieldsOf data.typeName)) (h : Placed s labelled own data)
    (mem : f ∈ s.fieldsOf data.typeName) (belongs : own f a) : Placed s labelled own (m.store f a data) := by
  cases many : f.isRepeated with
  | true =>
      rw [m.store_repeated many]
      exact h.push apart mem (fun _ => many) belongs
  | false =>
      rw [m.store_singular many]
      exact h.setField mem (Field.label_singular many) belongs

end Placed

end

section

variable {s : Schema} {data : MessageData} {m : Message} {f : Field} {a : Stored}

theorem Schema.Loaded.mem_members (loaded : s.Loaded) {name oneof : String}
    (found : s.message? name = some m) (mem : f ∈ s.fieldsOf name) (member : f.oneof = some oneof) :
    f ∈ m.members oneof := by
  rw [Message.mem_members]
  rcases (mem_fieldsOf found).mp mem with mem | ⟨mem, -⟩
  · exact ⟨mem, member⟩
  · rw [loaded.alone f mem] at member
    cases member

theorem Schema.Loaded.oneof_eq_none (loaded : s.Loaded) {name : String} (found : s.message? name = some m)
    (mem : f ∈ s.fieldsOf name) (many : f.isRepeated = true) : f.oneof = none := by
  cases member : f.oneof with
  | none => rfl
  | some oneof =>
      obtain ⟨declared, -⟩ := Message.mem_members.mp (loaded.mem_members found mem member)
      have singular := ((loaded.message m (mem_messages found)).oneof f declared oneof member).1
      rw [Field.isRepeated, singular] at many
      cases many

/-- The members of oneofs stay exclusive when a value of one of the fields is stored. -/
theorem Exclusive.store (loaded : s.Loaded) (found : s.message? data.typeName = some m)
    (h : Exclusive s data) (mem : f ∈ s.fieldsOf data.typeName) : Exclusive s (m.store f a data) := by
  cases many : f.isRepeated with
  | true =>
      rw [m.store_repeated many]
      exact h.push_outside loaded (fun _ _ => mem) (loaded.oneof_eq_none found mem many)
  | false =>
      rw [m.store_singular many]
      rcases (Schema.Loaded.mem_fieldsOf found).mp mem with own | ⟨shared, -⟩
      · exact h.setField loaded found own
      · have outside := loaded.alone f shared
        unfold Native.setField
        rw [outside]
        exact h.set_outside loaded (fun _ _ => mem) outside

/-- Messages are valid when every slot has its place, all labels counting, and oneofs are exclusive. -/
theorem valid_iff (loaded : s.Loaded) (found : s.message? data.typeName = some m) :
    Valid s data ↔
      Placed s (fun _ => True) (fun f a => a.Fits s f) data ∧ Exclusive s data := by
  constructor
  · intro valid
    refine ⟨fun slot within => ?_, valid.shaped.exclusive⟩
    obtain ⟨f, mem, number, label⟩ := valid.shaped.slot slot within
    exact ⟨f, mem, number.symm, fun _ => label.symm, valid.fits slot within f mem number⟩
  · rintro ⟨placed, exclusive⟩
    refine ⟨⟨fun slot within => ?_, fun f mem g mem' oneof member member' => ?_⟩, ?_⟩
    · obtain ⟨f, mem, number, label, -⟩ := placed slot within
      exact ⟨f, mem, number.symm, (label trivial).symm⟩
    · exact exclusive m found oneof f (loaded.mem_members found mem member) g
        (loaded.mem_members found mem' member')
    · intro slot within f mem number
      obtain ⟨g, mem', number', -, fits⟩ := placed slot within
      cases (loaded.apart_fieldsOf found).eq_of_number mem mem' (number.trans number')
      exact fits

theorem Valid.empty (s : Schema) (message : String) : Valid s (.empty message) := by
  refine ⟨⟨?_, ?_⟩, ?_⟩
  · intro slot mem
    cases mem
  · intro f _ g _ oneof _ _ set _
    cases set
  · intro slot mem
    cases mem

/-- A valid message stays valid when a value of one of its fields is stored. -/
theorem Valid.store (loaded : s.Loaded) (found : s.message? data.typeName = some m) (valid : Valid s data)
    (mem : f ∈ s.fieldsOf data.typeName) (fits : a.Fits s f) : Valid s (m.store f a data) := by
  obtain ⟨placed, exclusive⟩ := (valid_iff loaded found).mp valid
  exact (valid_iff loaded (m := m) (by rwa [Message.typeName_store])).mpr
    ⟨placed.store (loaded.apart_fieldsOf found) mem fits, exclusive.store loaded found mem⟩

end

end MessageCode
