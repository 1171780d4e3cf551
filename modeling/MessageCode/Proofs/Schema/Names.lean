import MessageCode.Proofs.Schema.Loaded
import MessageCode.Schema.Naming

/-!
What the names of message operations resolve to. Tests for presence and discriminants of oneofs are
always found under their names; a getter or a setter is found unless another operation has its name
first.
-/

namespace MessageCode

namespace Naming

theorem getter_ne_hasser (f g : Field) : getter f ≠ hasser g := by
  intro same
  have chars := congrArg String.toList same
  simp [getter, hasser] at chars

theorem caseGetter_ne_hasser (oneof : String) (f : Field) : caseGetter oneof ≠ hasser f := by
  intro same
  have chars := congrArg String.toList same
  simp [caseGetter, hasser] at chars

theorem hasser_inj {f g : Field} (same : hasser f = hasser g) : f.name = g.name :=
  (String.append_right_inj "has_").mp same

def stem (f : Field) : String := f.name ++ valueEnding f

theorem getter_eq (f : Field) : getter f = "get_" ++ stem f := String.append_assoc ..

theorem setter_eq (f : Field) :
    setter f = (if f.isRepeated then "add" else "set") ++ "_" ++ stem f := String.append_assoc ..

theorem getter_eq_iff {f g : Field} : getter g = getter f ↔ stem g = stem f := by
  rw [getter_eq, getter_eq, String.append_right_inj]

theorem caseGetter_eq_getter_iff {oneof : String} {f : Field} :
    caseGetter oneof = getter f ↔ oneof ++ "_case" = stem f := by
  rw [getter_eq, caseGetter, String.append_assoc, String.append_right_inj]

/-- Setters are told apart by the label too. -/
theorem setter_eq_iff {f g : Field} :
    setter g = setter f ↔ g.isRepeated = f.isRepeated ∧ stem g = stem f := by
  have differ (a b : String) : "add" ++ "_" ++ a ≠ "set" ++ "_" ++ b := by
    intro same
    have chars := congrArg String.toList same
    simp at chars
  rw [setter_eq, setter_eq]
  cases g.isRepeated <;> cases f.isRepeated
  · simp
  · simpa using (differ (stem f) (stem g)).symm
  · simpa using differ (stem g) (stem f)
  · simp

theorem setter_ne_build (f : Field) : setter f ≠ build := by
  intro same
  have chars := congrArg String.toList same
  unfold setter build at chars
  split at chars <;> simp at chars

theorem caseGetter_inj {oneof oneof' : String} (same : caseGetter oneof = caseGetter oneof') :
    oneof = oneof' :=
  (String.append_right_inj "get_").mp ((String.append_left_inj "_case").mp same)

end Naming

namespace Message

variable {m : Message}

theorem method?_hasser {f : Field} (apart : Apart m.fields) (mem : f ∈ m.fields) :
    m.method? (Naming.hasser f) = some (.has f) := by
  have noCase : m.oneofs.find? (fun oneof => Naming.caseGetter oneof = Naming.hasser f) = none := by
    rw [List.find?_eq_none]
    intro oneof _ same
    exact Naming.caseGetter_ne_hasser oneof f (by simpa using same)
  have first : ∀ fields : List Field, f ∈ fields → (∀ g ∈ fields, g ∈ m.fields) →
      fields.findSome? (fun g =>
        if Naming.getter g = Naming.hasser f then some (MessageMethod.get g)
        else if Naming.hasser g = Naming.hasser f then some (.has g)
        else none) = some (.has f) := by
    intro fields mem' within
    induction fields with
    | nil => cases mem'
    | cons g fields ih =>
        rw [List.findSome?_cons, if_neg (Naming.getter_ne_hasser g f)]
        by_cases same : Naming.hasser g = Naming.hasser f
        · have equal := apart.eq_of_name (within g List.mem_cons_self) mem (Naming.hasser_inj same)
          rw [if_pos same, equal]
        · rw [if_neg same]
          have later : f ∈ fields := by
            rcases List.mem_cons.mp mem' with rfl | later
            · exact absurd rfl same
            · exact later
          exact ih later fun h mem => within h (List.mem_cons_of_mem _ mem)
  unfold method?
  rw [noCase]
  exact first m.fields mem fun _ => id

theorem method?_caseGetter {oneof : String} (mem : oneof ∈ m.oneofs) :
    m.method? (Naming.caseGetter oneof) = some (.case oneof) := by
  unfold method?
  split
  · rename_i found same
    have equal := List.find?_some same
    rw [decide_eq_true_eq] at equal
    rw [Naming.caseGetter_inj equal]
  · rename_i absent
    have other := List.find?_eq_none.mp absent oneof mem
    simp at other

/-- A getter leads back to its field unless a discriminant or an earlier field has its name. -/
theorem method?_getter_iff {f : Field} :
    m.method? (Naming.getter f) = some (.get f) ↔
      (∀ oneof ∈ m.oneofs, oneof ++ "_case" ≠ Naming.stem f) ∧
        ∃ before after, m.fields = before ++ f :: after ∧
          ∀ g ∈ before, Naming.stem g ≠ Naming.stem f := by
  have getters : ∀ fields : List Field, fields.findSome? (fun g =>
      if Naming.getter g = Naming.getter f then some (MessageMethod.get g)
      else if Naming.hasser g = Naming.getter f then some (.has g)
      else none) = (fields.find? fun g => Naming.getter g = Naming.getter f).map .get := by
    intro fields
    induction fields with
    | nil => rfl
    | cons g fields ih =>
        rw [List.findSome?_cons, if_neg (Naming.getter_ne_hasser f g).symm, List.find?_cons]
        by_cases same : Naming.getter g = Naming.getter f
        · simp [same]
        · simpa [same] using ih
  unfold method?
  split
  · rename_i oneof found
    have mem := List.mem_of_find?_eq_some found
    have clash : Naming.caseGetter oneof = Naming.getter f := by simpa using List.find?_some found
    constructor
    · nofun
    · rintro ⟨free, -⟩
      exact absurd (Naming.caseGetter_eq_getter_iff.mp clash) (free oneof mem)
  · rename_i absent
    have free : ∀ oneof ∈ m.oneofs, oneof ++ "_case" ≠ Naming.stem f := by
      intro oneof mem same
      simpa [Naming.caseGetter_eq_getter_iff.mpr same] using List.find?_eq_none.mp absent oneof mem
    rw [getters, and_iff_right free]
    simp only [Option.map_eq_some_iff, MessageMethod.get.injEq, exists_eq_right,
      List.find?_eq_some_iff_append, decide_true, true_and, Bool.not_eq_true', decide_eq_false_iff_not,
      Naming.getter_eq_iff]

theorem mem_of_builderMethod?_set {name : String} {f : Field} (h : m.builderMethod? name = some (.set f)) :
    f ∈ m.fields ∧ f.isRepeated = false := by
  unfold builderMethod? at h
  split at h
  · cases h
  · obtain ⟨g, found, same⟩ := Option.map_eq_some_iff.mp h
    split at same <;> cases same
    rename_i singular
    exact ⟨List.mem_of_find?_eq_some found, by simpa using singular⟩

theorem mem_of_builderMethod?_add {name : String} {f : Field} (h : m.builderMethod? name = some (.add f)) :
    f ∈ m.fields ∧ f.isRepeated = true := by
  unfold builderMethod? at h
  split at h
  · cases h
  · obtain ⟨g, found, same⟩ := Option.map_eq_some_iff.mp h
    split at same <;> cases same
    exact ⟨List.mem_of_find?_eq_some found, ‹_›⟩

/-- A setter leads back to its field unless an earlier field of the same label has its name. -/
theorem builderMethod?_setter_iff {f : Field} :
    m.builderMethod? (Naming.setter f) = some (if f.isRepeated then .add f else .set f) ↔
      ∃ before after, m.fields = before ++ f :: after ∧
        ∀ g ∈ before, g.isRepeated = f.isRepeated → Naming.stem g ≠ Naming.stem f := by
  have same (g : Field) : (if g.isRepeated then BuilderMethod.add g else .set g) =
      (if f.isRepeated then .add f else .set f) ↔ g = f := by
    constructor
    · intro equal
      split at equal <;> split at equal <;> cases equal <;> rfl
    · rintro rfl
      rfl
  unfold builderMethod?
  rw [if_neg (Naming.setter_ne_build f)]
  simp only [Option.map_eq_some_iff, same, exists_eq_right, List.find?_eq_some_iff_append, decide_true,
    true_and, Bool.not_eq_true', decide_eq_false_iff_not, Naming.setter_eq_iff, not_and, ne_eq]

end Message

end MessageCode
