import Mathlib.Data.List.Sort
import MessageCode.Proofs.Machine.Reachable

/-!
Ascending slots. Contents hold their slots in the order of the numbers, one slot for each, whatever the
order of the operations that made them. So they are told by what is found under each number.
-/

namespace MessageCode

namespace Record

variable {α : Type}

/-- The slots are in the order of their numbers, none of which comes twice. -/
def Ascending (r : Record α) : Prop := r.slots.Pairwise fun a b => a.number < b.number

end Record

theorem Slot.insert_pairwise {α : Type} {slot : Slot α} {slots : List (Slot α)}
    (h : slots.Pairwise fun a b => a.number < b.number) :
    (slot.insert slots).Pairwise fun a b => a.number < b.number := by
  induction slots with
  | nil => exact List.pairwise_singleton ..
  | cons first rest ih =>
      obtain ⟨before, rest⟩ := List.pairwise_cons.mp h
      unfold insert
      split
      · rename_i less
        refine List.pairwise_cons.mpr ⟨fun other mem => ?_, h⟩
        rcases List.mem_cons.mp mem with rfl | mem
        · exact less
        · exact Int32.lt_trans less (before other mem)
      · split
        · rename_i same
          exact List.pairwise_cons.mpr ⟨fun other mem => same ▸ before other mem, rest⟩
        · rename_i notLess apart
          refine List.pairwise_cons.mpr ⟨fun other mem => ?_, ih rest⟩
          rcases Slot.mem_of_mem_insert mem with rfl | mem
          · exact Int32.lt_of_le_of_ne (Int32.not_lt.mp notLess) fun same => apart same.symm
          · exact before other mem

namespace Record

variable {α : Type} {r r' : Record α} {number k : Int32} {name : String} {a : α} {content : Content α}

namespace Ascending

theorem empty (typeName : String) : (Record.empty typeName : Record α).Ascending := .nil

theorem set (h : r.Ascending) : (r.set number name content).Ascending := Slot.insert_pairwise h

theorem clearAll (h : r.Ascending) (numbers : List Int32) : (r.clearAll numbers).Ascending := by
  induction numbers generalizing r with
  | nil => exact h
  | cons n numbers ih => exact ih (h.filter _)

theorem push (h : r.Ascending) : (r.push number name a).Ascending := by
  obtain ⟨name', eq⟩ := r.push_eq number name a
  rw [eq]
  exact h.set

theorem mem_iff (h : r.Ascending) {slot : Slot α} : slot ∈ r.slots ↔ r.slot? slot.number = some slot := by
  refine ⟨fun mem => ?_, List.mem_of_find?_eq_some⟩
  unfold Ascending at h
  unfold slot?
  generalize r.slots = slots at h mem
  induction slots with
  | nil => cases mem
  | cons first rest ih =>
      obtain ⟨before, rest⟩ := List.pairwise_cons.mp h
      rcases List.mem_cons.mp mem with rfl | mem
      · exact List.find?_cons_of_pos (decide_eq_true rfl)
      · have other : first.number ≠ slot.number := Int32.ne_of_lt (before slot mem)
        rw [List.find?_cons_of_neg (by simpa using other)]
        exact ih rest mem

theorem nodup (h : r.Ascending) : r.slots.Nodup := by
  refine h.imp fun less same => ?_
  rw [same] at less
  exact Int32.lt_irrefl less

/-- Ascending contents are equal when the same is found under every number. -/
theorem ext (h : r.Ascending) (h' : r'.Ascending) (typeName : r.typeName = r'.typeName)
    (same : ∀ k, r.slot? k = r'.slot? k) : r = r' := by
  have perm : r.slots.Perm r'.slots := by
    rw [List.perm_ext_iff_of_nodup h.nodup h'.nodup]
    intro slot
    rw [h.mem_iff, h'.mem_iff, same]
  have slots : r.slots = r'.slots :=
    perm.eq_of_pairwise (fun a b _ _ less less' => absurd less' (Int32.lt_asymm less)) h h'
  cases r
  cases r'
  cases typeName
  cases slots
  rfl

end Ascending

end Record

theorem Native.setField_ascending {m : Message} {f : Field} {a : Stored} {data : MessageData}
    (h : data.Ascending) : (setField m f a data).Ascending := by
  unfold setField
  cases f.oneof with
  | none => exact h.set
  | some oneof => exact (h.clearAll _).set

theorem Message.store_ascending {m : Message} {f : Field} {a : Stored} {data : MessageData}
    (h : data.Ascending) : (m.store f a data).Ascending := by
  unfold store
  split
  · exact h.push
  · exact Native.setField_ascending h

namespace Message

variable {m : Message} {f : Field} {a : Stored} {data : MessageData}

theorem stores_ascending (values : List Stored) (h : data.Ascending) :
    (values.foldl (fun data a => m.store f a data) data).Ascending := by
  induction values generalizing data with
  | nil => exact h
  | cons a values ih => exact ih (store_ascending h)

theorem adding_ascending (h : data.Ascending) : (m.adding f a data).Ascending := by
  have others : (data.slots.filter fun slot => slot.number ∉ m.cleared f).Pairwise
      fun a b => a.number < b.number := h.filter _
  refine List.pairwise_append.mpr ⟨others.filter _, List.pairwise_cons.mpr ⟨?_, others.filter _⟩, ?_⟩
  · intro slot mem
    rw [Field.number_slot]
    simpa using (List.mem_filter.mp mem).2
  · intro slot mem slot' mem'
    have below : slot.number < f.number := by simpa using (List.mem_filter.mp mem).2
    rcases List.mem_cons.mp mem' with rfl | mem'
    · rw [Field.number_slot]
      exact below
    · have above : f.number < slot'.number := by simpa using (List.mem_filter.mp mem').2
      exact Int32.lt_trans below above

/-- Operations store a value where the slots are in order as it is written down slot by slot. -/
theorem store_eq_adding (h : data.Ascending) : m.store f a data = m.adding f a data :=
  (store_ascending h).ext (adding_ascending h) (by simp) fun _ => slot?_store.trans slot?_adding.symm

end Message

theorem Schema.keeps_ascending (s : Schema) : s.Keeps Record.Ascending where
  empty := .empty
  wrapper kind _ _ := (Record.Ascending.empty kind.messageName).set
  set _ _ _ _ := Native.setField_ascending
  add _ _ _ _ := .push
  setExtension _ _ _ := .set
  addExtension _ _ _ := .push

/-- The builders that runs lead to have ascending contents. -/
theorem Reachable.builder_ascending {s : Schema} {m : Machine} {held : List Value} {id : ObjectId}
    {typeName : String} (h : Reachable s m held) (has : m.Has held id (.builder typeName)) :
    (m.store.builderData id typeName).Ascending :=
  (h.builder s.keeps_ascending has).2.here

end MessageCode
