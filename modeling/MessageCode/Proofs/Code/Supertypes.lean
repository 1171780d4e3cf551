import MessageCode.Proofs.Code.Assembled

/-!
Common supertypes. That one type can stand where another is expected is a partial order. The type that two
slots merge to is above both of them, whichever comes first. It is the least such type, except for
siblings: of two types under one supertype other than `Object`, neither of which can stand for the other,
nothing but `Object` is left.
-/

namespace MessageCode

namespace RefType

variable {a b c : RefType}

theorem assignableTo_object (a : RefType) : a.assignableTo .object = true :=
  assignableTo_iff.mpr (.inr (.inl rfl))

theorem null_assignableTo (a : RefType) : RefType.null.assignableTo a = true :=
  assignableTo_iff.mpr (.inr (.inr (.inl rfl)))

theorem object_assignableTo_iff : RefType.object.assignableTo a = true ↔ a = .object := by
  cases a <;> simp [assignableTo]

theorem assignableTo_null_iff : a.assignableTo .null = true ↔ a = .null := by
  cases a <;> simp [assignableTo]

theorem assignableTo_antisymm (h : a.assignableTo b = true) (h' : b.assignableTo a = true) : a = b := by
  rcases assignableTo_iff.mp h with rfl | rfl | rfl | ⟨⟨kind, rfl⟩, rfl⟩ | ⟨⟨name, rfl⟩, rfl⟩ |
    ⟨⟨name, rfl⟩, rfl⟩ | ⟨⟨content, rfl, -⟩, rfl⟩
  · rfl
  · exact object_assignableTo_iff.mp h'
  · exact (assignableTo_null_iff.mp h').symm
  · cases kind with
    | any => rfl
    | _ => cases h'
  all_goals cases h'

/-- Two types under a common supertype other than `Object`, and neither of them under the other. -/
inductive Siblings : RefType → RefType → RefType → Prop
  | kinds {k l : BoxedKind} : k ≠ .any → l ≠ .any → k ≠ l →
      Siblings (.boxed k) (.boxed l) (.boxed .any)
  | wrappers {s t : NativeType} : s.isNumeric = true → t.isNumeric = true → s ≠ t →
      Siblings (.wrapper s) (.wrapper t) .number
  | messages {m n : String} : m ≠ n → Siblings (.message m) (.message n) .extendableMessage
  | builders {m n : String} : m ≠ n → Siblings (.builder m) (.builder n) .extendableBuilder

theorem siblings_iff : Siblings a b c ↔ a.assignableTo c = true ∧ b.assignableTo c = true ∧
    a.assignableTo b ≠ true ∧ b.assignableTo a ≠ true ∧ c ≠ .object := by
  constructor
  · intro h
    cases h with
    | kinds left right apart => simp [assignableTo_iff, left, right, apart, apart.symm]
    | wrappers left right apart => simp [assignableTo_iff, left, right, apart, apart.symm]
    | messages apart => simp [assignableTo_iff, apart, apart.symm]
    | builders apart => simp [assignableTo_iff, apart, apart.symm]
  · rintro ⟨left, right, apart, apart', proper⟩
    have same : a ≠ b := fun same => apart (same ▸ a.assignableTo_refl)
    -- What is below `c` is `c` itself, null, or one of its special cases, as for `a` so for `b`.
    rcases assignableTo_iff.mp left with rfl | top | rfl | ⟨⟨k, rfl⟩, rfl⟩ | ⟨⟨m, rfl⟩, rfl⟩ |
      ⟨⟨m, rfl⟩, rfl⟩ | ⟨⟨s, rfl, numeric⟩, rfl⟩
    · exact absurd right apart'
    · exact absurd top proper
    · exact absurd b.null_assignableTo apart
    all_goals
      rcases assignableTo_iff.mp right with rfl | top | rfl | special
      · exact absurd left apart
      · exact absurd top proper
      · exact absurd (null_assignableTo _) apart'
    · obtain ⟨l, rfl⟩ : ∃ l, b = .boxed l := by simpa using special
      refine .kinds ?_ ?_ (by simpa using same)
      · rintro rfl
        exact apart' right
      · rintro rfl
        exact apart left
    · obtain ⟨n, rfl⟩ : ∃ n, b = .message n := by simpa using special
      exact .messages (by simpa using same)
    · obtain ⟨n, rfl⟩ : ∃ n, b = .builder n := by simpa using special
      exact .builders (by simpa using same)
    · obtain ⟨t, rfl, numeric'⟩ : ∃ t : NativeType, b = .wrapper t ∧ t.isNumeric = true := by
        simpa using special
      exact .wrappers numeric numeric' (by simpa using same)

/-- The wider of two related types, and `Object` for two that are not related. -/
def join (a b : RefType) : RefType :=
  if a.assignableTo b then b else if b.assignableTo a then a else .object

theorem join_of_le (h : a.assignableTo b = true) : a.join b = b := if_pos h

theorem join_of_ge (h : b.assignableTo a = true) : a.join b = a := by
  unfold join
  split
  · exact assignableTo_antisymm h ‹_›
  · rfl

theorem join_of_unrelated (h : a.assignableTo b ≠ true) (h' : b.assignableTo a ≠ true) :
    a.join b = .object := by
  rw [join, if_neg h, if_neg h']

theorem join_comm (a b : RefType) : a.join b = b.join a := by
  by_cases h : a.assignableTo b = true
  · rw [join_of_le h, join_of_ge h]
  · by_cases h' : b.assignableTo a = true
    · rw [join_of_ge h', join_of_le h']
    · rw [join_of_unrelated h h', join_of_unrelated h' h]

theorem join_object (a : RefType) : a.join .object = .object := join_of_le a.assignableTo_object

theorem le_join_left (a b : RefType) : a.assignableTo (a.join b) = true := by
  by_cases h : a.assignableTo b = true
  · rwa [join_of_le h]
  · by_cases h' : b.assignableTo a = true
    · rw [join_of_ge h']
      exact a.assignableTo_refl
    · rw [join_of_unrelated h h']
      exact a.assignableTo_object

/-- What is above two types is above their join, unless they are siblings under it. -/
theorem join_le_iff (h : a.assignableTo c = true) (h' : b.assignableTo c = true) :
    (a.join b).assignableTo c = true ↔ ¬Siblings a b c := by
  rw [siblings_iff]
  by_cases le : a.assignableTo b = true
  · simp [join_of_le le, h', le]
  · by_cases ge : b.assignableTo a = true
    · simp [join_of_ge ge, h, ge]
    · rw [join_of_unrelated le ge, object_assignableTo_iff]
      simp [h, h', le, ge]

theorem Siblings.symm (h : Siblings a b c) : Siblings b a c := by
  obtain ⟨left, right, apart, apart', proper⟩ := siblings_iff.mp h
  exact siblings_iff.mpr ⟨right, left, apart', apart, proper⟩

theorem Siblings.unrelated (h : Siblings a b c) : ¬(a.assignableTo b = true ∨ b.assignableTo a = true) := by
  obtain ⟨-, -, apart, apart', -⟩ := siblings_iff.mp h
  exact fun related => related.elim apart apart'

theorem join_assoc_of_le (h : a.assignableTo b = true) : (a.join b).join c = a.join (b.join c) := by
  rw [join_of_le h, join_of_le (assignableTo_trans h (le_join_left b c))]

theorem join_assoc_reverse :
    (a.join b).join c = a.join (b.join c) ↔ (c.join b).join a = c.join (b.join a) := by
  rw [join_comm (a.join b), join_comm a b, join_comm a (b.join c), join_comm b c, eq_comm]

theorem join_assoc_of_related (h : a.assignableTo b = true ∨ b.assignableTo a = true)
    (h' : b.assignableTo c = true ∨ c.assignableTo b = true) :
    (a.join b).join c = a.join (b.join c) := by
  rcases h with le | ge
  · exact join_assoc_of_le le
  · rcases h' with le' | ge'
    · rw [join_of_ge ge, join_of_le le']
    · exact join_assoc_reverse.mpr (join_assoc_of_le ge')

theorem join_assoc_iff_of_unrelated (h : ¬(b.assignableTo c = true ∨ c.assignableTo b = true)) :
    (a.join b).join c = a.join (b.join c) ↔ ¬Siblings b c a := by
  obtain ⟨apart, apart'⟩ := not_or.mp h
  rw [join_of_unrelated apart apart', join_object, siblings_iff]
  by_cases above : b.assignableTo a = true
  · rw [join_of_ge above]
    by_cases above' : c.assignableTo a = true
    · simp [join_of_ge above', above, above', apart, apart']
    · have beside : a.assignableTo c ≠ true := fun le => apart (assignableTo_trans above le)
      simp [join_of_unrelated beside above', above']
  · by_cases below : a.assignableTo b = true
    · simp [join_of_le below, join_of_unrelated apart apart', above]
    · rw [join_of_unrelated below above, join_comm, join_object]
      simp [above]

theorem join_assoc_iff :
    (a.join b).join c = a.join (b.join c) ↔ ¬Siblings a b c ∧ ¬Siblings b c a := by
  by_cases right : b.assignableTo c = true ∨ c.assignableTo b = true
  · have apart : ¬Siblings b c a := fun siblings => siblings.unrelated right
    by_cases left : a.assignableTo b = true ∨ b.assignableTo a = true
    · have apart' : ¬Siblings a b c := fun siblings => siblings.unrelated left
      simp only [join_assoc_of_related left right, apart, apart', not_false_eq_true, and_self]
    · rw [join_assoc_reverse, join_assoc_iff_of_unrelated (fun related => left related.symm)]
      exact ⟨fun h => ⟨fun siblings => h siblings.symm, apart⟩,
        fun h siblings => h.1 siblings.symm⟩
  · rw [join_assoc_iff_of_unrelated right]
    refine ⟨fun h => ⟨fun siblings => ?_, h⟩, And.right⟩
    exact right (.inl (siblings_iff.mp siblings).2.1)

end RefType

namespace NativeType

variable {a b c : NativeType}

theorem assignableTo_antisymm (h : a.assignableTo b = true) (h' : b.assignableTo a = true) : a = b := by
  cases a with
  | ref r =>
      cases b with
      | ref s => rw [RefType.assignableTo_antisymm h h']
      | _ => simp [assignableTo] at h
  | _ => cases b <;> simp_all [assignableTo]

def Siblings : NativeType → NativeType → NativeType → Prop
  | .ref a, .ref b, .ref c => RefType.Siblings a b c
  | _, _, _ => False

theorem merge_ref (r s : RefType) : (ref r).merge (ref s) = some (.ref (r.join s)) := by
  unfold merge RefType.join
  by_cases same : r = s
  · subst same
    simp [r.assignableTo_refl]
  · simp only [ref.injEq, same, if_false]
    split
    · rfl
    · split <;> rfl

theorem eq_of_assignableTo_primitive (primitive : b.isPrimitive = true) (h : a.assignableTo b = true) :
    a = b := by
  cases b with
  | ref r => cases primitive
  | _ => cases a <;> simp_all [assignableTo]

theorem merge_comm (a b : NativeType) : a.merge b = b.merge a := by
  cases a with
  | ref r =>
      cases b with
      | ref s => rw [merge_ref, merge_ref, RefType.join_comm]
      | _ => rfl
  | _ => cases b <;> rfl

/-- Types with a common supertype merge, and below it unless they are siblings under it. -/
theorem exists_merge (h : a.assignableTo c = true) (h' : b.assignableTo c = true) :
    ∃ m, a.merge b = some m ∧ (m.assignableTo c = true ↔ ¬Siblings a b c) := by
  cases c with
  | ref t =>
      cases a with
      | ref r =>
          cases b with
          | ref s => exact ⟨_, merge_ref r s, RefType.join_le_iff h h'⟩
          | _ => simp [assignableTo] at h'
      | _ => simp [assignableTo] at h
  | _ =>
      obtain rfl := eq_of_assignableTo_primitive rfl h
      obtain rfl := eq_of_assignableTo_primitive rfl h'
      exact ⟨_, rfl, by simp [assignableTo_refl, Siblings]⟩

/-- Merges are grouped at will, unless two neighbours are siblings under the third type. -/
theorem merge_assoc_iff : (a.merge b).bind (·.merge c) = (b.merge c).bind a.merge ↔
    ¬Siblings a b c ∧ ¬Siblings b c a := by
  cases a with
  | ref r =>
      cases b with
      | ref s =>
          cases c with
          | ref t => simp [merge_ref, Siblings, RefType.join_assoc_iff]
          | _ =>
              rw [merge_ref]
              simp [merge, Siblings]
      | _ => cases c <;> simp [merge, Siblings]
  | _ =>
      cases b with
      | ref s =>
          cases c with
          | ref t =>
              rw [merge_ref]
              simp [merge, Siblings]
          | _ => simp [merge, Siblings]
      | _ => cases c <;> simp [merge, Siblings]

/-- Assignability is a partial order, and a merge is an upper bound in it, the least one if the two types are
not siblings under a lesser one. The order of merges does not matter, and neither does their grouping but
for siblings under a third type. -/
theorem merge_least (a b c : NativeType) :
    (a.assignableTo a = true ∧
      (a.assignableTo b = true → b.assignableTo c = true → a.assignableTo c = true) ∧
      (a.assignableTo b = true → b.assignableTo a = true → a = b)) ∧
    (∀ m, a.merge b = some m → a.assignableTo m = true ∧ b.assignableTo m = true) ∧
    (a.assignableTo c = true → b.assignableTo c = true →
      ∃ m, a.merge b = some m ∧ (m.assignableTo c = true ↔ ¬Siblings a b c)) ∧
    a.merge b = b.merge a ∧
    ((a.merge b).bind (·.merge c) = (b.merge c).bind a.merge ↔
      ¬Siblings a b c ∧ ¬Siblings b c a) :=
  ⟨⟨assignableTo_refl a, assignableTo_trans, assignableTo_antisymm⟩, fun _ => merge_eq_some, exists_merge,
    merge_comm a b, merge_assoc_iff⟩

/-- Null and a boxed integer merge to a type above both, which is below that of all boxed values. -/
theorem null_merge_least :
    null.assignableTo (boxed .any) = true ∧ ∃ m, null.merge (boxed .int) = some m ∧
      null.assignableTo m = true ∧ (boxed .int).assignableTo m = true ∧
      m.assignableTo (boxed .any) = true := by
  obtain ⟨⟨-, trans, -⟩, bound, least, -⟩ := merge_least null (boxed .int) (boxed .any)
  have siblings : ¬Siblings null (boxed .int) (boxed .any) := nofun
  obtain ⟨m, merged, below_iff⟩ := least rfl rfl
  obtain ⟨left, right⟩ := bound m merged
  exact ⟨trans rfl rfl, m, merged, left, right, below_iff.mpr siblings⟩

/-- Two kinds of boxed values merge to `Object`, which cannot stand where any boxed value is expected. -/
theorem kinds_merge_above :
    ¬∀ a b c : NativeType, a.assignableTo c = true → b.assignableTo c = true →
      ∃ m, a.merge b = some m ∧ m.assignableTo c = true := by
  intro least
  obtain ⟨m, merged, below⟩ := least (boxed .int) (boxed .text) (boxed .any) rfl rfl
  cases merged
  cases below

end NativeType

end MessageCode
