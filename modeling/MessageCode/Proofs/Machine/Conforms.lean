import MessageCode.Machine.Run
import Mathlib.Data.List.Forall2
import MessageCode.Proofs.Code.Recorded
import MessageCode.Proofs.Machine.Exec

/-!
Values of a type: primitives of that very type, and null or instances of a reference type. Where one
type can stand for another, so can its values, and the operations on primitives keep to their types.
-/

namespace MessageCode

/-- The value can be in a slot of the type. -/
def Value.Conforms (v : Value) : NativeType → Prop
  | .ref r => v.isInstance r = true
  | type => v.primitiveType? = some type

abbrev Conform (values : List Value) (types : List NativeType) : Prop :=
  List.Forall₂ Value.Conforms values types

theorem Object.isInstance_of_assignable {object : Object} {a b : RefType}
    (h : object.isInstance a = true) (fits : a.assignableTo b = true) :
    object.isInstance b = true := by
  rcases RefType.assignableTo_iff.mp fits with rfl | rfl | rfl | ⟨⟨kind, rfl⟩, rfl⟩ |
    ⟨⟨name, rfl⟩, rfl⟩ | ⟨⟨name, rfl⟩, rfl⟩ | ⟨⟨content, rfl, numeric⟩, rfl⟩
  · exact h
  · cases object <;> rfl
  · cases object <;> cases h
  · cases object with
    | boxed b => rfl
    | _ => cases kind <;> cases h
  · cases object with
    | message data => rfl
    | _ => cases h
  · cases object with
    | builder name => rfl
    | _ => cases h
  · cases object with
    | wrapper v =>
        simp only [isInstance, decide_eq_true_eq] at h
        simp [isInstance, h, numeric]
    | _ => cases h

namespace Value.Conforms

theorem of_assignable {v : Value} {a b : NativeType} (h : v.Conforms a)
    (fits : a.assignableTo b = true) : v.Conforms b := by
  cases a with
  | ref r =>
      cases b with
      | ref s =>
          cases v with
          | null => rfl
          | ref id object => exact Object.isInstance_of_assignable h fits
          | _ => cases h
      | _ => simp [NativeType.assignableTo] at fits
  | _ =>
      cases b with
      | ref s => simp [NativeType.assignableTo] at fits
      | _ =>
          first
            | exact h
            | simp [NativeType.assignableTo] at fits

theorem primitive {v : Value} {t : NativeType} (h : v.Conforms t) (primitive : t.isPrimitive = true) :
    v.primitiveType? = some t := by
  cases t with
  | ref r => cases primitive
  | _ => exact h

theorem bool {v : Value} (h : v.Conforms .bool) : ∃ b, v = .bool b := by
  cases v with
  | bool b => exact ⟨b, rfl⟩
  | _ => cases h

theorem int {v : Value} (h : v.Conforms .int) : ∃ n, v = .int n := by
  cases v with
  | int n => exact ⟨n, rfl⟩
  | _ => cases h

end Value.Conforms

theorem Conform.widen {values : List Value} {a b : List NativeType} (h : Conform values a)
    (fits : Fits a b) : Conform values b := by
  induction h generalizing b with
  | nil =>
      cases fits
      exact .nil
  | cons conforms _ ih =>
      cases fits with
      | cons fit fits => exact .cons (conforms.of_assignable fit) (ih fits)

theorem Conform.exists_append {values : List Value} {a b : List NativeType}
    (h : Conform values (a ++ b)) :
    ∃ taken rest, values = taken ++ rest ∧ Conform taken a ∧ Conform rest b :=
  ⟨_, _, (values.take_append_drop a.length).symm, List.forall₂_take_append _ _ _ h,
    List.forall₂_drop_append _ _ _ h⟩

theorem Conform.reverse {values : List Value} {types : List NativeType}
    (h : Conform values types.reverse) : Conform values.reverse types := by
  have reversed := List.rel_reverse h
  rwa [List.reverse_reverse] at reversed

theorem Constant.load_conforms (c : Constant) (m : Machine) : (c.load.run m).1.Conforms c.type := by
  cases c <;> rfl

theorem Value.convert_conforms {v : Value} {source target : NativeType} (h : v.Conforms source)
    (from_numeric : source.isNumeric = true) (to_numeric : target.isNumeric = true) :
    ∃ w, v.convert target = .ok w ∧ w.Conforms target := by
  cases target with
  | ref r => cases to_numeric
  | bool => cases to_numeric
  | _ =>
      cases source with
      | ref r => cases from_numeric
      | bool => cases from_numeric
      | _ => cases v <;> first | exact ⟨_, rfl, rfl⟩ | cases h

theorem Test.holds_of_conform {test : Test} {operands : List Value}
    (h : Conform operands test.operands.reverse) : ∃ b, test.holds operands = .ok b := by
  cases test with
  | isNull =>
      obtain ⟨v, rfl⟩ := List.length_eq_one_iff.mp h.length_eq
      exact ⟨_, rfl⟩
  | nonNull =>
      obtain ⟨v, rfl⟩ := List.length_eq_one_iff.mp h.length_eq
      exact ⟨_, rfl⟩
  | isTrue =>
      obtain _ | ⟨conforms, ⟨⟩⟩ := h
      obtain ⟨b, rfl⟩ := conforms.bool
      exact ⟨_, rfl⟩
  | isZero =>
      obtain _ | ⟨conforms, ⟨⟩⟩ := h
      obtain ⟨n, rfl⟩ := conforms.int
      exact ⟨_, rfl⟩
  | intEq =>
      obtain _ | ⟨conforms, _ | ⟨conforms', ⟨⟩⟩⟩ := h
      obtain ⟨n, rfl⟩ := conforms.int
      obtain ⟨k, rfl⟩ := conforms'.int
      exact ⟨_, rfl⟩
  | intLt =>
      obtain _ | ⟨conforms, _ | ⟨conforms', ⟨⟩⟩⟩ := h
      obtain ⟨n, rfl⟩ := conforms.int
      obtain ⟨k, rfl⟩ := conforms'.int
      exact ⟨_, rfl⟩

end MessageCode
