import MessageCode.Proofs.Code.Recorded

/-!
Paths through code: what happens to locals when every test comes out one way or the other and every
loop goes round some number of times. A local is assigned on a path when it was stored since it was
declared last; it is held when its slot still has what was stored.
-/

namespace MessageCode

/-- The events of a path through code. -/
inductive Path : List Recorded → List LocalEvent → Prop
  | done : Path [] []
  | plain {before op rest trace} : Path rest trace →
      Path (.plain before op :: rest) (op.event?.toList ++ trace)
  | declare {l rest trace} : Path rest trace → Path (.declare l :: rest) (.declare l :: trace)
  | thenArm {before test thenCode elseCode rest arm trace} : Path thenCode arm → Path rest trace →
      Path (.branch before test thenCode elseCode :: rest) (arm ++ trace)
  | elseArm {before test thenCode elseCode rest arm trace} : Path elseCode arm → Path rest trace →
      Path (.branch before test thenCode elseCode :: rest) (arm ++ trace)
  | exit {before condition test body rest first trace} : Path condition first → Path rest trace →
      Path (.loop before condition test body :: rest) (first ++ trace)
  | round {before condition test body rest first second trace} : Path condition first →
      Path body second → Path (.loop before condition test body :: rest) trace →
      Path (.loop before condition test body :: rest) (first ++ (second ++ trace))
  | scope {before locals body rest inner trace} : Path body inner → Path rest trace →
      Path (.scope before locals body :: rest)
        (inner ++ (locals.map (fun d => .release d.slot) ++ trace))

theorem Op.event?_relocate (op : Op) (offset : Nat) :
    (op.relocate offset).event? = op.event?.map (LocalEvent.relocate offset) := by
  cases op <;> rfl

namespace Path

theorem append {code more : List Recorded} {trace trace' : List LocalEvent} (h : Path code trace)
    (h' : Path more trace') : Path (code ++ more) (trace ++ trace') := by
  induction h with
  | done => exact h'
  | plain _ ih =>
      rw [List.append_assoc]
      exact .plain ih
  | declare _ ih => exact .declare ih
  | thenArm arm _ _ ih =>
      rw [List.append_assoc]
      exact .thenArm arm ih
  | elseArm arm _ _ ih =>
      rw [List.append_assoc]
      exact .elseArm arm ih
  | exit condition _ _ ih =>
      rw [List.append_assoc]
      exact .exit condition ih
  | round condition body _ _ _ ih =>
      rw [List.append_assoc, List.append_assoc]
      exact .round condition body ih
  | scope body _ _ ih =>
      rw [List.append_assoc, List.append_assoc]
      exact .scope body ih

/-- A path through code is a path through its first part and then one through the rest. -/
theorem of_cons {r : Recorded} {rest : List Recorded} {trace : List LocalEvent}
    (h : Path (r :: rest) trace) :
    ∃ first second, trace = first ++ second ∧ Path [r] first ∧ Path rest second := by
  generalize whole : r :: rest = code at h
  induction h with
  | done => cases whole
  | plain path _ =>
      cases whole
      refine ⟨_, _, rfl, ?_, path⟩
      rw [← List.append_nil (Option.toList _)]
      exact .plain .done
  | declare path _ =>
      cases whole
      exact ⟨[_], _, rfl, .declare .done, path⟩
  | @thenArm _ _ _ _ _ first _ arm path _ _ =>
      cases whole
      refine ⟨first, _, rfl, ?_, path⟩
      rw [← List.append_nil first]
      exact .thenArm arm .done
  | @elseArm _ _ _ _ _ first _ arm path _ _ =>
      cases whole
      refine ⟨first, _, rfl, ?_, path⟩
      rw [← List.append_nil first]
      exact .elseArm arm .done
  | @exit _ _ _ _ _ first _ condition path _ _ =>
      cases whole
      refine ⟨first, _, rfl, ?_, path⟩
      rw [← List.append_nil first]
      exact .exit condition .done
  | round condition body _ _ _ ih =>
      obtain ⟨first, second, rfl, path, path'⟩ := ih whole
      cases whole
      refine ⟨_, second, ?_, .round condition body path, path'⟩
      simp only [List.append_assoc]
  | @scope _ locals _ _ _ _ body path _ _ =>
      cases whole
      refine ⟨_, _, (List.append_assoc ..).symm, ?_, path⟩
      rw [← List.append_nil (locals.map _)]
      exact .scope body .done

theorem nil_iff {trace : List LocalEvent} : Path [] trace ↔ trace = [] := by
  constructor
  · rintro ⟨⟩
    rfl
  · rintro rfl
    exact .done

theorem plain_iff {before : List NativeType} {op : Op} {trace : List LocalEvent} :
    Path [.plain before op] trace ↔ trace = op.event?.toList := by
  constructor
  · rintro (_ | ⟨⟨⟩⟩)
    exact List.append_nil _
  · rintro rfl
    rw [← List.append_nil (Option.toList _)]
    exact .plain .done

theorem declare_iff {l : Local} {trace : List LocalEvent} :
    Path [.declare l] trace ↔ trace = [.declare l] := by
  constructor
  · rintro (_ | _ | ⟨⟨⟩⟩)
    rfl
  · rintro rfl
    exact .declare .done

theorem branch_iff {before : List NativeType} {test : Test} {thenCode elseCode : List Recorded}
    {trace : List LocalEvent} :
    Path [.branch before test thenCode elseCode] trace ↔
      Path thenCode trace ∨ Path elseCode trace := by
  constructor
  · rintro (_ | _ | _ | ⟨arm, ⟨⟩⟩ | ⟨arm, ⟨⟩⟩)
    · rw [List.append_nil]
      exact .inl arm
    · rw [List.append_nil]
      exact .inr arm
  · rw [← List.append_nil trace]
    rintro (arm | arm)
    · exact .thenArm (by rwa [List.append_nil] at arm) .done
    · exact .elseArm (by rwa [List.append_nil] at arm) .done

theorem scope_iff {before : List NativeType} {locals : List Declaration} {body : List Recorded}
    {trace : List LocalEvent} :
    Path [.scope before locals body] trace ↔
      ∃ inner, Path body inner ∧ trace = inner ++ locals.map fun d => .release d.slot := by
  constructor
  · rintro (_ | _ | _ | _ | _ | _ | _ | ⟨path, ⟨⟩⟩)
    exact ⟨_, path, by rw [List.append_nil]⟩
  · rintro ⟨inner, path, rfl⟩
    rw [← List.append_nil (locals.map _)]
    exact .scope path .done

theorem loop_iff {before : List NativeType} {condition : List Recorded} {test : Test}
    {body : List Recorded} {trace : List LocalEvent} :
    Path [.loop before condition test body] trace ↔ Path condition trace ∨
      ∃ first second rest, trace = first ++ (second ++ rest) ∧ Path condition first ∧
        Path body second ∧ Path [.loop before condition test body] rest := by
  constructor
  · rintro (_ | _ | _ | _ | _ | ⟨path, ⟨⟩⟩ | ⟨path, path', rest⟩)
    · rw [List.append_nil]
      exact .inl path
    · exact .inr ⟨_, _, _, rfl, path, path', rest⟩
  · rintro (path | ⟨first, second, rest, rfl, path, path', rest'⟩)
    · rw [← List.append_nil trace]
      exact .exit path .done
    · exact .round path path' rest'

/-- A loop goes through its condition, and either through its body and on through the loop, or stops. -/
theorem of_round {before : List NativeType} {condition : List Recorded} {test : Test}
    {body : List Recorded} {trace : List LocalEvent}
    (h : ∃ first next, trace = first ++ next ∧ Path condition first ∧
      ((∃ second rest, next = second ++ rest ∧ Path body second ∧
        Path [.loop before condition test body] rest) ∨ next = [])) :
    Path [.loop before condition test body] trace := by
  obtain ⟨first, next, rfl, path, ⟨second, rest, rfl, path', loop⟩ | rfl⟩ := h
  · exact loop_iff.mpr (.inr ⟨first, second, rest, rfl, path, path', loop⟩)
  · rw [List.append_nil]
    exact loop_iff.mpr (.inl path)

/-- A path through a loop is one through its condition, after any number of rounds. -/
theorem loop_induction {before : List NativeType} {condition : List Recorded} {test : Test}
    {body : List Recorded} {motive : List LocalEvent → Prop}
    (exit : ∀ first, Path condition first → motive first)
    (round : ∀ first second rest, Path condition first → Path body second → motive rest →
      motive (first ++ (second ++ rest)))
    {trace : List LocalEvent} (h : Path [.loop before condition test body] trace) :
    motive trace := by
  generalize whole : [Recorded.loop before condition test body] = code at h
  induction h with
  | exit first rest _ _ =>
      cases whole
      rw [nil_iff.mp rest, List.append_nil]
      exact exit _ first
  | round first second _ _ _ ih =>
      have rest := ih whole
      cases whole
      exact round _ _ _ first second rest
  | _ => cases whole

theorem of_append {code more : List Recorded} {trace : List LocalEvent}
    (h : Path (code ++ more) trace) :
    ∃ first second, trace = first ++ second ∧ Path code first ∧ Path more second := by
  induction code generalizing trace with
  | nil => exact ⟨[], trace, rfl, .done, h⟩
  | cons r code ih =>
      obtain ⟨first, rest, rfl, node, path⟩ := of_cons h
      obtain ⟨second, third, rfl, path, path'⟩ := ih path
      exact ⟨first ++ second, third, (List.append_assoc ..).symm, node.append path, path'⟩

mutual

theorem exists_of_node (r : Recorded) : ∃ trace, Path [r] trace := by
  cases r with
  | plain before op => exact ⟨_, .plain .done⟩
  | declare l => exact ⟨_, .declare .done⟩
  | branch before test thenCode elseCode =>
      obtain ⟨arm, path⟩ := exists_of_code thenCode
      exact ⟨_, .thenArm path .done⟩
  | loop before condition test body =>
      obtain ⟨first, path⟩ := exists_of_code condition
      exact ⟨_, .exit path .done⟩
  | scope before locals body =>
      obtain ⟨inner, path⟩ := exists_of_code body
      exact ⟨_, .scope path .done⟩

theorem exists_of_code (code : List Recorded) : ∃ trace, Path code trace := by
  cases code with
  | nil => exact ⟨_, .done⟩
  | cons r rest =>
      obtain ⟨first, path⟩ := exists_of_node r
      obtain ⟨second, path'⟩ := exists_of_code rest
      exact ⟨_, path.append path'⟩

end

mutual

theorem of_splice_node {offset : Nat} {below : List NativeType} {r : Recorded} {trace : List LocalEvent}
    (h : Path [r.splice offset below] trace) :
    ∃ inner, Path [r] inner ∧ trace = inner.map (LocalEvent.relocate offset) := by
  cases r with
  | plain before op =>
      refine ⟨op.event?.toList, plain_iff.mpr rfl, ?_⟩
      rw [plain_iff.mp h, op.event?_relocate, Option.toList_map]
  | declare l => exact ⟨[.declare l], declare_iff.mpr rfl, declare_iff.mp h⟩
  | branch before test thenCode elseCode =>
      rcases branch_iff.mp h with arm | arm
      · obtain ⟨inner, path, rfl⟩ := of_splice arm
        exact ⟨inner, branch_iff.mpr (.inl path), rfl⟩
      · obtain ⟨inner, path, rfl⟩ := of_splice arm
        exact ⟨inner, branch_iff.mpr (.inr path), rfl⟩
  | loop before condition test body =>
      refine loop_induction (motive := fun trace => ∃ inner, Path [.loop before condition test body] inner ∧
        trace = inner.map (LocalEvent.relocate offset)) ?_ ?_ h
      · intro _ part
        obtain ⟨inner, path, rfl⟩ := of_splice part
        exact ⟨inner, loop_iff.mpr (.inl path), rfl⟩
      · rintro _ _ _ part part' ⟨rest, path'', rfl⟩
        obtain ⟨first, path, rfl⟩ := of_splice part
        obtain ⟨second, path', rfl⟩ := of_splice part'
        refine ⟨_, loop_iff.mpr (.inr ⟨first, second, rest, rfl, path, path', path''⟩), ?_⟩
        simp only [List.map_append]
  | scope before locals body =>
      obtain ⟨_, region, rfl⟩ := scope_iff.mp h
      obtain ⟨inner, path, rfl⟩ := of_splice region
      refine ⟨_, scope_iff.mpr ⟨inner, path, rfl⟩, ?_⟩
      simp only [List.map_append, List.map_map]
      rfl

/-- The paths through spliced code are those through the code, with its locals renumbered. -/
theorem of_splice {offset : Nat} {below : List NativeType} {code : List Recorded}
    {trace : List LocalEvent} (h : Path (Recorded.spliceAll offset below code) trace) :
    ∃ inner, Path code inner ∧ trace = inner.map (LocalEvent.relocate offset) := by
  cases code with
  | nil => exact ⟨[], .done, nil_iff.mp h⟩
  | cons r rest =>
      obtain ⟨_, _, rfl, node, more⟩ := of_cons h
      obtain ⟨first, path, rfl⟩ := of_splice_node node
      obtain ⟨second, path', rfl⟩ := of_splice more
      exact ⟨first ++ second, path.append path', List.map_append.symm⟩

end

end Path

end MessageCode
