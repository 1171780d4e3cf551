import MessageCode.Proofs.Machine.Policy.Law

/-!
Exclusive members. At most one member of a oneof is set in what operations make of contents, so that the
discriminant tells which one it is.
-/

namespace MessageCode

/-- At most one member of each oneof is set. -/
def Exclusive (s : Schema) (data : MessageData) : Prop :=
  ∀ m, s.message? data.typeName = some m → ∀ oneof, ∀ f ∈ m.members oneof, ∀ g ∈ m.members oneof,
    data.isSet f.number = true → data.isSet g.number = true → f = g

theorem Message.mem_members {m : Message} {oneof : String} {f : Field} :
    f ∈ m.members oneof ↔ f ∈ m.fields ∧ f.oneof = some oneof := by
  rw [members, List.mem_filter, decide_eq_true_eq]

section

variable {s : Schema} {m : Message} {f g : Field} {oneof : String} {data data' : MessageData} {a : Stored}

theorem Shaped.exclusive (h : Shaped s data) : Exclusive s data := by
  intro m found oneof f mem g mem'
  obtain ⟨declared, member⟩ := Message.mem_members.mp mem
  obtain ⟨declared', member'⟩ := Message.mem_members.mp mem'
  exact h.oneof f ((Schema.Loaded.mem_fieldsOf found).mpr (.inl declared)) g
    ((Schema.Loaded.mem_fieldsOf found).mpr (.inl declared')) oneof member member'

theorem Schema.Loaded.member_ne_zero (loaded : s.Loaded) (found : s.message? data.typeName = some m)
    (mem : f ∈ m.members oneof) : f.number ≠ 0 := by
  have within := (mem_fieldsOf found).mpr (.inl (Message.mem_members.mp mem).1)
  have positive := (loaded.field found within).positive
  intro zero
  rw [zero] at positive
  exact absurd positive (by decide)

namespace Native

/-- The discriminant has the number of a member exactly when that member is set. -/
theorem caseNumber_eq_iff (loaded : s.Loaded) (found : s.message? data.typeName = some m)
    (exclusive : Exclusive s data) (mem : f ∈ m.members oneof) :
    caseNumber m oneof data = f.number ↔ data.isSet f.number = true := by
  unfold caseNumber
  cases first : (m.members oneof).find? fun f => data.isSet f.number with
  | none =>
      have unset := List.find?_eq_none.mp first f mem
      constructor
      · intro zero
        exact absurd zero.symm (loaded.member_ne_zero found mem)
      · intro set
        exact absurd set unset
  | some g =>
      have set := List.find?_some first
      constructor
      · intro same
        change g.number = f.number at same
        rwa [same] at set
      · intro set'
        rw [exclusive m found oneof g (List.mem_of_find?_eq_some first) f mem set set']

theorem caseNumber_eq_zero_iff (loaded : s.Loaded) (found : s.message? data.typeName = some m) :
    caseNumber m oneof data = 0 ↔ ∀ f ∈ m.members oneof, data.isSet f.number = false := by
  unfold caseNumber
  cases first : (m.members oneof).find? fun f => data.isSet f.number with
  | none => simpa using List.find?_eq_none.mp first
  | some g =>
      have mem := List.mem_of_find?_eq_some first
      have set := List.find?_some first
      constructor
      · intro zero
        exact absurd zero (loaded.member_ne_zero found mem)
      · intro unset
        rw [unset g mem] at set
        cases set

end Native

namespace Exclusive

theorem empty (typeName : String) : Exclusive s (.empty typeName) := by
  intro m found oneof f _ g _ set
  cases set

theorem of_isSet (h : Exclusive s data) (typeName : data'.typeName = data.typeName)
    (old : ∀ m, s.message? data.typeName = some m → ∀ oneof, ∀ f ∈ m.members oneof,
      data'.isSet f.number = true → data.isSet f.number = true) : Exclusive s data' := by
  intro m found oneof f mem g mem' set set'
  rw [typeName] at found
  exact h m found oneof f mem g mem' (old m found oneof f mem set) (old m found oneof g mem' set')

theorem setField (loaded : s.Loaded) (h : Exclusive s data) (found : s.message? data.typeName = some m)
    (mem : f ∈ m.fields) : Exclusive s (Native.setField m f a data) := by
  intro m' found' oneof g mem' k mem'' set set'
  rw [Native.typeName_setField, found] at found'
  cases found'
  have apart := (loaded.apart _ m found).left
  -- A member that is set beside the field is not a member of its oneof.
  have alone {g k : Field} (mem : g ∈ m.members oneof) (mem' : k ∈ m.members oneof)
      (same : f = g) (others : ∀ oneof, f.oneof = some oneof →
        k.number ∉ (m.members oneof).map Field.number) : g = k := by
    subst same
    exact absurd (List.mem_map_of_mem mem') (others oneof (Message.mem_members.mp mem).2)
  have equal {g : Field} (mem' : g ∈ m.members oneof) (number : f.number = g.number) : f = g :=
    apart.eq_of_number mem (Message.mem_members.mp mem').1 number
  rcases Native.isSet_setField.mp set with number | ⟨others, old⟩
  · rcases Native.isSet_setField.mp set' with number' | ⟨others', -⟩
    · exact (equal mem' number).symm.trans (equal mem'' number')
    · exact alone mem' mem'' (equal mem' number) others'
  · rcases Native.isSet_setField.mp set' with number' | ⟨-, old'⟩
    · exact (alone mem'' mem' (equal mem'' number') others).symm
    · exact h m found oneof g mem' k mem'' old old'

end Exclusive

theorem Schema.Loaded.number_ne (loaded : s.Loaded) (found : s.message? data.typeName = some m)
    (mem : f ∈ s.fieldsOf data.typeName) (outside : f.oneof = none) (mem' : g ∈ m.members oneof) :
    f.number ≠ g.number := by
  intro number
  obtain ⟨declared, member⟩ := Message.mem_members.mp mem'
  have within := (mem_fieldsOf found).mpr (.inl declared)
  rw [(loaded.apart_fieldsOf found).eq_of_number mem within number, member] at outside
  cases outside

namespace Exclusive

theorem set_outside (loaded : s.Loaded) (h : Exclusive s data) {name : String}
    {content : Content Stored}
    (within : ∀ m, s.message? data.typeName = some m → f ∈ s.fieldsOf data.typeName)
    (outside : f.oneof = none) : Exclusive s (data.set f.number name content) :=
  h.of_isSet rfl fun m found _ _ mem set =>
    (Record.isSet_set.mp set).resolve_left (loaded.number_ne found (within m found) outside mem)

theorem push_outside (loaded : s.Loaded) (h : Exclusive s data) {name : String}
    (within : ∀ m, s.message? data.typeName = some m → f ∈ s.fieldsOf data.typeName)
    (outside : f.oneof = none) : Exclusive s (data.push f.number name a) := by
  obtain ⟨name', eq⟩ := data.push_eq f.number name a
  rw [eq]
  exact h.set_outside loaded within outside

end Exclusive

end

/-- Operations keep contents exclusive. -/
theorem Schema.Loaded.keeps_exclusive {s : Schema} (loaded : s.Loaded) : s.Keeps (Exclusive s) where
  empty := .empty
  wrapper kind id content := by
    intro m found oneof f mem
    cases found.symm.trans (loaded.wrapper kind)
    obtain ⟨declared, member⟩ := Message.mem_members.mp mem
    cases List.mem_singleton.mp declared
    cases member
  set found mem _ _ exclusive := exclusive.setField loaded found mem
  add {m f v a data} found mem many _ exclusive := by
    refine exclusive.push_outside loaded (fun m' found' => ?_) ?_
    · exact (Schema.Loaded.mem_fieldsOf found').mpr (.inl (by cases found.symm.trans found'; exact mem))
    · cases member : f.oneof with
      | none => rfl
      | some oneof =>
          have single := ((loaded.message m (Schema.Loaded.mem_messages found)).oneof f mem oneof member).1
          rw [Field.isRepeated, single] at many
          cases many
  setExtension mem container _ exclusive := exclusive.set_outside loaded
    (fun _ found => (Schema.Loaded.mem_fieldsOf found).mpr (.inr ⟨mem, container⟩)) (loaded.alone _ mem)
  addExtension mem container _ exclusive := exclusive.push_outside loaded
    (fun _ found => (Schema.Loaded.mem_fieldsOf found).mpr (.inr ⟨mem, container⟩)) (loaded.alone _ mem)

end MessageCode
