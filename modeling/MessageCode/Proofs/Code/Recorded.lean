import MessageCode.Proofs.Code.Effect

/-!
Code together with the stack that was tracked when each instruction was written, and when such a
record is consistent: stacks agree where instructions and regions meet, up to slots whose type is
more special than the one expected.
-/

namespace MessageCode

/-! Code that is shifted by no locals stays as it is. -/

namespace Op

mutual

theorem relocate_zero (op : Op) : op.relocate 0 = op := by
  cases op with
  | branch test thenOps elseOps => simp only [relocate, relocateAll_zero thenOps, relocateAll_zero elseOps]
  | loop condition test body => simp only [relocate, relocateAll_zero condition, relocateAll_zero body]
  | scope locals body =>
      have same : Declaration.relocate 0 = id := rfl
      simp only [relocate, relocateAll_zero body, same, List.map_id]
  | _ => rfl

theorem relocateAll_zero (code : List Op) : relocateAll 0 code = code := by
  cases code with
  | nil => rfl
  | cons op rest => simp only [relocateAll, relocate_zero op, relocateAll_zero rest]

end

end Op

/-- What was written, with the stack tracked before it, topmost first. -/
inductive Recorded where
  | plain (before : List NativeType) (op : Op)
  /-- The declaration of a local, for which no instruction is written. -/
  | declare (l : Local)
  | branch (before : List NativeType) (test : Test) (thenCode elseCode : List Recorded)
  | loop (before : List NativeType) (condition : List Recorded) (test : Test)
      (body : List Recorded)
  | scope (before : List NativeType) (locals : List Declaration) (body : List Recorded)

namespace Recorded

mutual

def op? : Recorded → Option Op
  | .plain _ op => some op
  | .declare _ => none
  | .branch _ test thenCode elseCode => some (.branch test (ops thenCode) (ops elseCode))
  | .loop _ condition test body => some (.loop (ops condition) test (ops body))
  | .scope _ locals body => some (.scope locals (ops body))

def ops : List Recorded → List Op
  | [] => []
  | r :: rest => r.op?.toList ++ ops rest

end

def before? : Recorded → Option (List NativeType)
  | .plain before _ => some before
  | .declare _ => none
  | .branch before .. => some before
  | .loop before .. => some before
  | .scope before .. => some before

mutual

/-- The record after the code was spliced on top of more slots with its locals renumbered. -/
def splice (offset : Nat) (below : List NativeType) : Recorded → Recorded
  | .plain before op => .plain (before ++ below) (op.relocate offset)
  | .declare l => .declare (l.relocate offset)
  | .branch before test thenCode elseCode =>
      .branch (before ++ below) test (spliceAll offset below thenCode)
        (spliceAll offset below elseCode)
  | .loop before condition test body =>
      .loop (before ++ below) (spliceAll offset below condition) test
        (spliceAll offset below body)
  | .scope before locals body =>
      .scope (before ++ below) (locals.map (Declaration.relocate offset))
        (spliceAll offset below body)

def spliceAll (offset : Nat) (below : List NativeType) : List Recorded → List Recorded
  | [] => []
  | r :: rest => r.splice offset below :: spliceAll offset below rest

end

@[simp] theorem ops_append (code more : List Recorded) : ops (code ++ more) = ops code ++ ops more := by
  induction code with
  | nil => rfl
  | cons r code ih => simp [ops, ih]

theorem relocateAll_append (offset : Nat) (code more : List Op) :
    Op.relocateAll offset (code ++ more) =
      Op.relocateAll offset code ++ Op.relocateAll offset more := by
  induction code with
  | nil => rfl
  | cons o code ih => simp [Op.relocateAll, ih]

mutual

theorem op?_splice (offset : Nat) (below : List NativeType) (r : Recorded) :
    (r.splice offset below).op? = r.op?.map (Op.relocate offset) := by
  cases r with
  | plain before o => rfl
  | declare l => rfl
  | branch before test thenCode elseCode =>
      simp only [splice, op?, Option.map_some, Op.relocate, ops_spliceAll offset below thenCode,
        ops_spliceAll offset below elseCode]
  | loop before condition test body =>
      simp only [splice, op?, Option.map_some, Op.relocate, ops_spliceAll offset below condition,
        ops_spliceAll offset below body]
  | scope before locals body =>
      simp only [splice, op?, Option.map_some, Op.relocate, ops_spliceAll offset below body]

theorem ops_spliceAll (offset : Nat) (below : List NativeType) (code : List Recorded) :
    ops (spliceAll offset below code) = Op.relocateAll offset (ops code) := by
  cases code with
  | nil => rfl
  | cons r rest =>
      rw [spliceAll, ops, ops, op?_splice offset below r, ops_spliceAll offset below rest,
        relocateAll_append]
      cases r.op? <;> rfl

end

end Recorded

/-- A consistent record of code between two stacks. -/
inductive Checked : List NativeType → List Recorded → List NativeType → Prop
  | done {stack after} : Fits stack after → Checked stack [] after
  | plain {stack before next after op code} : Fits stack before → op.Effect before next →
      Checked next code after → Checked stack (.plain before op :: code) after
  | declare {stack after l code} : Checked stack code after →
      Checked stack (.declare l :: code) after
  | branch {stack found rest next after test thenCode elseCode code} :
      Fits stack (found ++ rest) → Fits found test.operands.reverse →
      Checked rest thenCode next → Checked rest elseCode next → Checked next code after →
      Checked stack (.branch (found ++ rest) test thenCode elseCode :: code) after
  | loop {stack before found after condition test body code} : Fits stack before →
      Checked before condition (found ++ before) → Fits found test.operands.reverse →
      Checked before body before → Checked before code after →
      Checked stack (.loop before condition test body :: code) after
  | scope {stack before next after locals body code} : Fits stack before →
      Checked before body next → Checked next code after →
      Checked stack (.scope before locals body :: code) after

theorem RefType.assignableTo_iff {a b : RefType} : a.assignableTo b = true ↔
    a = b ∨ b = .object ∨ a = .null ∨ (∃ kind, a = .boxed kind) ∧ b = .boxed .any ∨
      (∃ name, a = .message name) ∧ b = .extendableMessage ∨
      (∃ name, a = .builder name) ∧ b = .extendableBuilder ∨
      (∃ content : NativeType, a = .wrapper content ∧ content.isNumeric = true) ∧ b = .number := by
  simp only [RefType.assignableTo, Bool.or_eq_true, decide_eq_true_eq]
  refine or_congr_right ?_
  constructor
  · intro h
    split at h <;> simp_all
  · rintro (rfl | rfl | ⟨⟨_, rfl⟩, rfl⟩ | ⟨⟨_, rfl⟩, rfl⟩ | ⟨⟨_, rfl⟩, rfl⟩ | ⟨⟨_, rfl, h⟩, rfl⟩)
    · cases a <;> rfl
    · cases b <;> rfl
    · rfl
    · rfl
    · rfl
    · exact h

theorem RefType.assignableTo_trans {a b c : RefType} (h : a.assignableTo b = true)
    (h' : b.assignableTo c = true) : a.assignableTo c = true := by
  rw [assignableTo_iff] at h h' ⊢
  rcases h with rfl | rfl | rfl | ⟨special, rfl⟩ | ⟨special, rfl⟩ | ⟨special, rfl⟩ | ⟨special, rfl⟩
  · exact h'
  · rcases h' with rfl | rfl | h'
    · exact .inr (.inl rfl)
    · exact .inr (.inl rfl)
    · simp at h'
  · exact .inr (.inr (.inl rfl))
  all_goals
    rcases h' with rfl | rfl | h'
    · simp [special]
    · simp
    · simp at h'
      try simp [special, h']

theorem NativeType.assignableTo_trans {a b c : NativeType} (h : a.assignableTo b = true)
    (h' : b.assignableTo c = true) : a.assignableTo c = true := by
  cases a <;> cases b <;> simp [NativeType.assignableTo] at h <;>
    cases c <;> simp [NativeType.assignableTo] at h' ⊢
  exact RefType.assignableTo_trans h h'

theorem Fits.trans {a b c : List NativeType} (h : Fits a b) (h' : Fits b c) : Fits a c := by
  induction h generalizing c with
  | nil => exact h'
  | cons fit _ ih =>
      cases h' with
      | cons fit' rest => exact .cons (NativeType.assignableTo_trans fit fit') (ih rest)

theorem Fits.append {a b c d : List NativeType} (h : Fits a b) (h' : Fits c d) :
    Fits (a ++ c) (b ++ d) := List.rel_append h h'

namespace Checked

/-- Code accepts every stack that fits the one it was written for. -/
theorem widen {stack stack' after : List NativeType} {code : List Recorded}
    (h : Checked stack' code after) (fits : Fits stack stack') : Checked stack code after := by
  induction h with
  | done fits' => exact .done (fits.trans fits')
  | plain fits' effect rest => exact .plain (fits.trans fits') effect rest
  | declare _ ih => exact .declare (ih fits)
  | branch fits' operands thenArm elseArm rest =>
      exact .branch (fits.trans fits') operands thenArm elseArm rest
  | loop fits' condition operands body rest =>
      exact .loop (fits.trans fits') condition operands body rest
  | scope fits' body rest => exact .scope (fits.trans fits') body rest

theorem append {stack next after : List NativeType} {code more : List Recorded}
    (h : Checked stack code next) (h' : Checked next more after) :
    Checked stack (code ++ more) after := by
  induction h with
  | done fits => exact h'.widen fits
  | plain fits effect _ ih => exact .plain fits effect (ih h')
  | declare _ ih => exact .declare (ih h')
  | branch fits operands thenArm elseArm _ _ _ ih =>
      exact .branch fits operands thenArm elseArm (ih h')
  | loop fits condition operands body _ _ _ ih => exact .loop fits condition operands body (ih h')
  | scope fits body _ _ ih => exact .scope fits body (ih h')

theorem weaken {stack after after' : List NativeType} {code : List Recorded}
    (h : Checked stack code after) (fits : Fits after after') : Checked stack code after' := by
  simpa using h.append (.done fits)

theorem uncons {stack after : List NativeType} {r : Recorded} {rest : List Recorded}
    (h : Checked stack (r :: rest) after) :
    ∃ next, Checked stack [r] next ∧ Checked next rest after := by
  cases h with
  | plain fits effect more => exact ⟨_, .plain fits effect (.done (.refl _)), more⟩
  | declare more => exact ⟨stack, .declare (.done (.refl _)), more⟩
  | branch fits operands thenArm elseArm more =>
      exact ⟨_, .branch fits operands thenArm elseArm (.done (.refl _)), more⟩
  | loop fits condition operands body more =>
      exact ⟨_, .loop fits condition operands body (.done (.refl _)), more⟩
  | scope fits body more => exact ⟨_, .scope fits body (.done (.refl _)), more⟩

theorem before?_fits {stack after : List NativeType} {r : Recorded} {rest : List Recorded}
    (h : Checked stack (r :: rest) after) {before : List NativeType}
    (recorded : r.before? = some before) : Fits stack before := by
  cases h with
  | declare _ => cases recorded
  | plain fits _ _ =>
      cases recorded
      exact fits
  | branch fits _ _ _ _ =>
      cases recorded
      exact fits
  | loop fits _ _ _ _ =>
      cases recorded
      exact fits
  | scope fits _ _ =>
      cases recorded
      exact fits

/-- Spliced code leaves the slots below it alone. -/
theorem splice {stack after : List NativeType} {code : List Recorded}
    (h : Checked stack code after) (offset : Nat) (below : List NativeType) :
    Checked (stack ++ below) (Recorded.spliceAll offset below code) (after ++ below) := by
  induction h with
  | done fits => exact .done (fits.append (.refl below))
  | plain fits effect _ ih =>
      exact .plain (fits.append (.refl below)) (effect.splice offset below) ih
  | declare _ ih => exact .declare ih
  | @branch _ found rest _ _ _ _ _ _ fits operands _ _ _ thenArm elseArm more =>
      rw [Recorded.spliceAll, Recorded.splice, List.append_assoc]
      refine .branch ?_ operands thenArm elseArm more
      rw [← List.append_assoc]
      exact fits.append (.refl below)
  | loop fits _ operands _ _ condition body more =>
      rw [List.append_assoc] at condition
      exact .loop (fits.append (.refl below)) condition operands body more
  | scope fits _ _ body more => exact .scope (fits.append (.refl below)) body more

end Checked

end MessageCode
