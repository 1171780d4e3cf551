import MessageCode.Machine.Native.Message
import MessageCode.Proofs.Machine.Logical

/-!
Contents under the changes that operations make: which fields are set, and which items are held,
whatever the order of the slots.
-/

namespace MessageCode

def Record.slot? {α : Type} (r : Record α) (number : Int32) : Option (Slot α) :=
  r.slots.find? fun slot => slot.number = number

def Record.Holds {α : Type} (r : Record α) (a : α) : Prop := ∃ slot ∈ r.slots, a ∈ slot.content.items

namespace Slot

variable {α : Type} {slot other : Slot α} {slots : List (Slot α)}

theorem mem_of_mem_insert (mem : other ∈ slot.insert slots) : other = slot ∨ other ∈ slots := by
  induction slots with
  | nil => exact .inl (List.mem_singleton.mp mem)
  | cons first rest ih =>
      unfold insert at mem
      split at mem
      · exact List.mem_cons.mp mem
      · split at mem
        · exact (List.mem_cons.mp mem).imp_right (List.mem_cons_of_mem _)
        · rcases List.mem_cons.mp mem with rfl | mem
          · exact .inr List.mem_cons_self
          · exact (ih mem).imp_right (List.mem_cons_of_mem _)

theorem find?_insert_self :
    (slot.insert slots).find? (fun other => other.number = slot.number) = some slot := by
  induction slots with
  | nil => simp [insert]
  | cons first rest ih =>
      unfold insert
      split
      · simp
      · split
        · simp
        · rename_i apart
          rw [List.find?_cons_of_neg (by simpa using fun same => apart same.symm)]
          exact ih

theorem find?_insert_ne {number : Int32} (apart : number ≠ slot.number) :
    (slot.insert slots).find? (fun other => other.number = number) =
      slots.find? fun other => other.number = number := by
  have other : ¬slot.number = number := fun same => apart same.symm
  induction slots with
  | nil => simp [insert, other]
  | cons first rest ih =>
      unfold insert
      split
      · simp [other]
      · split
        · rename_i same
          simp [other, ← same]
        · rw [List.find?_cons, List.find?_cons, ih]

theorem find?_filter {p : Int32 → Bool} {number : Int32} :
    (slots.filter fun other => p other.number).find? (fun other => other.number = number) =
      if p number then slots.find? fun other => other.number = number else none := by
  rw [List.find?_filter]
  split
  · rename_i passes
    refine congrArg (List.find? · slots) (funext fun other => ?_)
    by_cases found : other.number = number
    · simp [found, passes]
    · simp [found]
  · rename_i fails
    rw [List.find?_eq_none]
    intro other _ found
    simp only [Bool.decide_and, Bool.decide_eq_true, Bool.and_eq_true, decide_eq_true_eq] at found
    exact fails (found.2 ▸ found.1)

end Slot

namespace Record

variable {α : Type} {r : Record α} {number k : Int32} {name : String} {a item : α} {content : Content α}

@[simp] theorem typeName_set : (r.set number name content).typeName = r.typeName := rfl

@[simp] theorem typeName_clear : (r.clear number).typeName = r.typeName := rfl

@[simp] theorem typeName_clearAll {numbers : List Int32} : (r.clearAll numbers).typeName = r.typeName := by
  induction numbers generalizing r with
  | nil => rfl
  | cons n numbers ih => exact ih.trans typeName_clear

@[simp] theorem isSet_empty {typeName : String} : (empty typeName : Record α).isSet k = false := rfl

theorem slot?_set : (r.set number name content).slot? k =
    if k = number then some ⟨number, name, content⟩ else r.slot? k := by
  split
  · rename_i same
    subst same
    exact @Slot.find?_insert_self _ ⟨k, name, content⟩ _
  · rename_i apart
    exact @Slot.find?_insert_ne _ ⟨number, name, content⟩ _ _ apart

theorem slot?_clear : (r.clear number).slot? k = if k = number then none else r.slot? k := by
  have found := @Slot.find?_filter _ r.slots (fun n => n ≠ number) k
  unfold slot? clear
  rw [found]
  by_cases same : k = number <;> simp [same]

theorem slot?_clearAll {numbers : List Int32} :
    (r.clearAll numbers).slot? k = if k ∈ numbers then none else r.slot? k := by
  induction numbers generalizing r with
  | nil => simp [clearAll]
  | cons n numbers ih =>
      have rest : (r.clearAll (n :: numbers)).slot? k =
          if k ∈ numbers then none else (r.clear n).slot? k := ih
      rw [rest, slot?_clear]
      by_cases first : k = n
      · simp [first]
      · simp [first]

theorem content?_eq : r.content? k = (r.slot? k).map (·.content) := rfl

theorem isSet_eq : r.isSet k = (r.slot? k).isSome := by
  simp [isSet, content?_eq]

theorem isSet_set : (r.set number name content).isSet k = true ↔ number = k ∨ r.isSet k = true := by
  rw [isSet_eq, isSet_eq, slot?_set]
  by_cases own : k = number
  · simp [own]
  · have other : ¬number = k := fun same => own same.symm
    simp [own, other]

theorem isSet_clearAll {numbers : List Int32} :
    (r.clearAll numbers).isSet k = true ↔ k ∉ numbers ∧ r.isSet k = true := by
  rw [isSet_eq, isSet_eq, slot?_clearAll]
  by_cases cleared : k ∈ numbers <;> simp [cleared]

theorem content?_set_self : (r.set number name content).content? number = some content := by
  rw [content?_eq, slot?_set, if_pos rfl]
  rfl

theorem content?_set_ne (apart : k ≠ number) : (r.set number name content).content? k = r.content? k := by
  rw [content?_eq, slot?_set, if_neg apart]
  rfl

theorem content?_clearAll {numbers : List Int32} (apart : k ∉ numbers) :
    (r.clearAll numbers).content? k = r.content? k := by
  rw [content?_eq, slot?_clearAll, if_neg apart]
  rfl

theorem mem_of_clearAll {numbers : List Int32} {slot : Slot α} (mem : slot ∈ (r.clearAll numbers).slots) :
    slot ∈ r.slots := by
  induction numbers generalizing r with
  | nil => exact mem
  | cons n numbers ih => exact List.mem_of_mem_filter (ih mem)

/-- The items of a slot to which more can be added. -/
def listed (r : Record α) (number : Int32) : List α :=
  match r.content? number with
  | some (.repeated items) => items
  | _ => []

/-- Adding an item sets the slot, with the item after those that it has. -/
theorem push_eq (r : Record α) (number : Int32) (name : String) (item : α) :
    ∃ name', r.push number name item = r.set number name' (.repeated (r.listed number ++ [item])) := by
  unfold push listed content?
  generalize List.find? _ r.slots = found
  rcases found with _ | ⟨_, _, _ | _⟩
  · exact ⟨_, rfl⟩
  · exact ⟨_, rfl⟩
  · exact ⟨_, rfl⟩

theorem mem_elements_of_listed (mem : a ∈ r.listed number) : a ∈ r.elements number := by
  unfold listed at mem
  unfold elements
  split at mem
  · rename_i set
    rwa [set]
  · cases mem

theorem exists_slot_of_elements (mem : a ∈ r.elements number) :
    ∃ slot ∈ r.slots, slot.number = number ∧ a ∈ slot.content.items := by
  unfold elements content? at mem
  rcases found : r.slots.find? fun slot => slot.number = number with _ | slot
  · rw [found] at mem
    cases mem
  · rw [found] at mem
    exact ⟨slot, List.mem_of_find?_eq_some found, by simpa using List.find?_some found, mem⟩

@[simp] theorem typeName_push : (r.push number name item).typeName = r.typeName := by
  obtain ⟨name', eq⟩ := r.push_eq number name item
  rw [eq, typeName_set]

theorem holds_of_set (holds : (r.set number name content).Holds a) : r.Holds a ∨ a ∈ content.items := by
  obtain ⟨slot, mem, within⟩ := holds
  rcases Slot.mem_of_mem_insert mem with rfl | mem
  · exact .inr within
  · exact .inl ⟨slot, mem, within⟩

theorem holds_of_clearAll {numbers : List Int32} (holds : (r.clearAll numbers).Holds a) : r.Holds a := by
  obtain ⟨slot, mem, within⟩ := holds
  exact ⟨slot, mem_of_clearAll mem, within⟩

theorem holds_of_push (holds : (r.push number name item).Holds a) : r.Holds a ∨ a = item := by
  obtain ⟨name', eq⟩ := r.push_eq number name item
  rw [eq] at holds
  rcases holds_of_set holds with holds | mem
  · exact .inl holds
  · rcases List.mem_append.mp mem with mem | mem
    · obtain ⟨slot, within, -, mem⟩ := exists_slot_of_elements (mem_elements_of_listed mem)
      exact .inl ⟨slot, within, mem⟩
    · exact .inr (List.mem_singleton.mp mem)

theorem not_holds_empty {typeName : String} : ¬(empty typeName : Record α).Holds a := by
  rintro ⟨slot, mem, -⟩
  cases mem

end Record

/-- What operations make of the contents to store a value of the field. -/
def Message.store (m : Message) (f : Field) (a : Stored) (data : MessageData) : MessageData :=
  if f.isRepeated then data.push f.number f.name a else Native.setField m f a data

namespace Native

variable {m : Message} {f : Field} {a b : Stored} {data : MessageData} {k : Int32}

@[simp] theorem typeName_setField : (setField m f a data).typeName = data.typeName := by
  unfold setField
  cases f.oneof <;> simp

/-- After a field is set, the other members of its oneof are not. -/
theorem isSet_setField : (setField m f a data).isSet k = true ↔ f.number = k ∨
    (∀ oneof, f.oneof = some oneof → k ∉ (m.members oneof).map Field.number) ∧ data.isSet k = true := by
  unfold setField
  cases f.oneof with
  | none => simp [Record.isSet_set]
  | some oneof => simp [Record.isSet_set, Record.isSet_clearAll]

theorem holds_of_setField (holds : (setField m f a data).Holds b) : data.Holds b ∨ b = a := by
  unfold setField at holds
  rcases Record.holds_of_set holds with holds | mem
  · refine .inl ?_
    cases member : f.oneof with
    | none => rwa [member] at holds
    | some oneof =>
        rw [member] at holds
        exact Record.holds_of_clearAll holds
  · exact .inr (List.mem_singleton.mp mem)

end Native

namespace Message

variable {f : Field} {a : Stored} {data : MessageData}

theorem store_singular (m : Message) (singular : f.isRepeated = false) : m.store f = Native.setField m f := by
  funext a data
  rw [store, singular, if_neg Bool.false_ne_true]

theorem store_repeated (m : Message) (many : f.isRepeated = true) :
    m.store f = fun a data => data.push f.number f.name a := by
  funext a data
  rw [store, many, if_pos rfl]

@[simp] theorem typeName_store {m : Message} : (m.store f a data).typeName = data.typeName := by
  unfold store
  split
  · exact Record.typeName_push
  · exact Native.typeName_setField

/-- The numbers of the slots that go when a value of the field comes: those of the members of its oneof. -/
def cleared (m : Message) (f : Field) : List Int32 :=
  if f.isRepeated then []
  else match f.oneof with
    | some oneof => (m.fields.filter fun g => g.oneof = some oneof).map Field.number
    | none => []

end Message

namespace Field

/-- The slot of a repeated field after some more values, which follow the elements that it has. -/
def lengthened (f : Field) (values : List Stored) : Option (Slot Stored) → Slot Stored
  | some ⟨_, name, .repeated items⟩ => ⟨f.number, name, .repeated (items ++ values)⟩
  | _ => ⟨f.number, f.name, .repeated values⟩

def slot (f : Field) (a : Stored) (old : Option (Slot Stored)) : Slot Stored :=
  if f.isRepeated then f.lengthened [a] old else ⟨f.number, f.name, .single a⟩

variable {f : Field} {a : Stored} {values more : List Stored} {old : Option (Slot Stored)} {data : MessageData}

theorem number_lengthened : (f.lengthened values old).number = f.number := by
  unfold lengthened
  split <;> rfl

theorem number_slot : (f.slot a old).number = f.number := by
  unfold slot
  split
  · exact number_lengthened
  · rfl

theorem slot_repeated (many : f.isRepeated = true) : f.slot a old = f.lengthened [a] old := if_pos many

theorem slot_singular (singular : f.isRepeated = false) : f.slot a old = ⟨f.number, f.name, .single a⟩ :=
  if_neg (ne_true_of_eq_false singular)

theorem lengthened_append :
    f.lengthened (values ++ more) old = f.lengthened more (some (f.lengthened values old)) := by
  rcases old with _ | ⟨_, _, _ | _⟩ <;> simp [lengthened]

theorem content_slot : (f.slot a (data.slot? f.number)).content =
    if f.isRepeated then .repeated (data.listed f.number ++ [a]) else .single a := by
  unfold slot lengthened Record.listed
  rw [Record.content?_eq]
  cases f.isRepeated with
  | false => rfl
  | true => rcases data.slot? f.number with _ | ⟨_, _, _ | _⟩ <;> rfl

end Field

namespace Message

variable {m : Message} {f : Field} {a : Stored} {data : MessageData} {k : Int32}

/-- The contents with one more value of the field, written down slot by slot, apart from how operations
store: its slot has the value, those of the other members of its oneof are gone, and no other has changed. -/
def adding (m : Message) (f : Field) (a : Stored) (data : MessageData) : MessageData :=
  let others := data.slots.filter fun slot => slot.number ∉ m.cleared f
  ⟨data.typeName, others.filter (·.number < f.number) ++
    f.slot a (data.slot? f.number) :: others.filter (f.number < ·.number)⟩

@[simp] theorem typeName_adding : (m.adding f a data).typeName = data.typeName := rfl

theorem slot?_adding : (m.adding f a data).slot? k =
    if k = f.number then some (f.slot a (data.slot? f.number))
    else if k ∈ m.cleared f then none else data.slot? k := by
  have below := @Slot.find?_filter _ (data.slots.filter fun slot => slot.number ∉ m.cleared f)
    (fun n => n < f.number) k
  have above := @Slot.find?_filter _ (data.slots.filter fun slot => slot.number ∉ m.cleared f)
    (fun n => f.number < n) k
  have others := @Slot.find?_filter _ data.slots (fun n => n ∉ m.cleared f) k
  unfold adding Record.slot?
  dsimp only
  rw [List.find?_append, List.find?_cons, Field.number_slot, below, above, others]
  by_cases own : k = f.number
  · subst own
    simp [Int32.lt_irrefl]
  · have other : ¬f.number = k := fun same => own same.symm
    simp only [own, other, decide_false, if_false, decide_eq_true_eq]
    by_cases less : k < f.number
    · simp only [less, Int32.lt_asymm less, if_true, if_false, Option.or_none]
      by_cases gone : k ∈ m.cleared f <;> simp [gone]
    · have more : f.number < k := Int32.lt_of_le_of_ne (Int32.not_lt.mp less) other
      simp only [less, more, if_true, if_false, Option.none_or]
      by_cases gone : k ∈ m.cleared f <;> simp [gone]

theorem slot?_store : (m.store f a data).slot? k =
    if k = f.number then some (f.slot a (data.slot? f.number))
    else if k ∈ m.cleared f then none else data.slot? k := by
  unfold cleared Field.slot
  cases many : f.isRepeated with
  | true =>
      have pushed : (data.push f.number f.name a).slot? k =
          if k = f.number then some (f.lengthened [a] (data.slot? f.number)) else data.slot? k := by
        have found : data.slots.find? (fun slot => slot.number = f.number) = data.slot? f.number := rfl
        unfold Record.push
        rw [found]
        rcases data.slot? f.number with _ | ⟨_, _, _ | _⟩ <;> exact Record.slot?_set
      rw [m.store_repeated many]
      simpa using pushed
  | false =>
      rw [m.store_singular many]
      unfold Native.setField
      cases f.oneof with
      | none => simpa using Record.slot?_set
      | some oneof => simp [Record.slot?_set, Record.slot?_clearAll, members]

theorem typeName_stores (values : List Stored) :
    (values.foldl (fun data a => m.store f a data) data).typeName = data.typeName := by
  induction values generalizing data with
  | nil => rfl
  | cons a values ih => exact ih.trans typeName_store

/-- Operations store the values of a repeated field in order after its elements, and change no other slot. -/
theorem slot?_stores (many : f.isRepeated = true) (values : List Stored) :
    (values.foldl (fun data a => m.store f a data) data).slot? k =
      if k = f.number ∧ values ≠ [] then some (f.lengthened values (data.slot? f.number)) else data.slot? k := by
  have kept : m.cleared f = [] := if_pos many
  induction values generalizing data with
  | nil => simp
  | cons a values ih =>
      have first : ∀ n, (m.store f a data).slot? n =
          if n = f.number then some (f.lengthened [a] (data.slot? f.number)) else data.slot? n := by
        intro n
        simp [slot?_store, kept, Field.slot_repeated many]
      rw [List.foldl_cons, ih, first, first, if_pos rfl, ← Field.lengthened_append]
      by_cases own : k = f.number
      · cases values <;> simp [own]
      · simp [own]

end Message

end MessageCode
