import MessageCode.Proofs.Code.Assembled
import MessageCode.Proofs.Machine.Confined
import MessageCode.Proofs.Machine.Points

/-!
Stack discipline. Finished code works on top of the stack that it was written for: it has the tracked
height at every point, and it neither reads nor changes what lies below.
-/

namespace MessageCode

/-- Code whose record is consistent works on top of the stack that it was written for. -/
theorem Checked.confined {stack after : List NativeType} {code : List Recorded}
    (h : Checked stack code after) (host : Host) (fuel : Nat) :
    Confined host stack.length after.length (Recorded.execAll host fuel code) := by
  induction h with
  | done fits =>
      rw [fits.length_eq]
      exact .pure
  | plain fits effect _ ih =>
      rw [Recorded.execAll_cons, Recorded.exec_plain, fits.length_eq]
      exact effect.confined.bind ih
  | declare _ ih => exact ih
  | branch fits operands _ _ _ thenIh elseIh ih =>
      rw [Recorded.execAll_cons, Recorded.exec_branch, fits.length_eq, List.length_append,
        operands.length_eq, List.length_reverse]
      exact (Confined.choose _ thenIh elseIh).bind ih
  | loop fits _ operands _ _ conditionIh bodyIh ih =>
      rw [List.length_append, operands.length_eq, List.length_reverse] at conditionIh
      rw [Recorded.execAll_cons, Recorded.exec_loop, fits.length_eq]
      exact (Confined.rounds _ conditionIh bodyIh _).bind ih
  | scope fits _ _ bodyIh ih =>
      rw [Recorded.execAll_cons, Recorded.exec_scope, fits.length_eq]
      exact (bodyIh.bind (.release _)).bind ih

section

variable {host : Host} {fuel : Nat} {below : List Value} {found before : List NativeType} {test : Test}
  {frame frame' : Frame} {b : Bool}

theorem Test.eval_tracked (operands : Fits found test.operands.reverse)
    (height : frame.stack.length = (found ++ before).length)
    (h : test.eval (frame.over below) = .ok (b, frame')) :
    ∃ left : Frame, frame' = left.over below ∧ left.stack.length = before.length := by
  rw [List.length_append, operands.length_eq, List.length_reverse] at height
  exact eval_over height h

/-- The condition of a loop leaves, with its test, the height that the loop started with. -/
theorem Checked.condition_tracked {condition : List Recorded} {tested : Frame} {m m' : Machine}
    (checked : Checked before condition (found ++ before)) (operands : Fits found test.operands.reverse)
    (height : frame.stack.length = before.length)
    (run : (Recorded.execAll host fuel condition (frame.over below)).run m = (.ok tested, m'))
    (holds : test.eval tested = .ok (b, frame')) :
    ∃ left : Frame, frame' = left.over below ∧ left.stack.length = before.length := by
  obtain ⟨left, rfl, height, -⟩ := (checked.confined host fuel).run_over height run
  exact Test.eval_tracked operands height holds

end

/-- Every point that consistent code comes to has consistent code before it, on a stack of the
height that it was written for. -/
theorem Reaches.checked {host : Host} {fuel : Nat} {below : List Value} {code : List Recorded}
    {start : Frame} {m : Machine} {p : Point} (h : Reaches host fuel code start m p)
    {stack after : List NativeType} (checked : Checked stack code after) {frame : Frame}
    (on : start = frame.over below) (height : frame.stack.length = stack.length) :
    ∃ top stack' after', p.frame = Frame.over below top ∧
      top.stack.length = List.length stack' ∧ Checked stack' p.code after' := by
  induction h generalizing stack after frame with
  | here code start m => exact ⟨frame, stack, after, on, height, checked⟩
  | next run _ ih =>
      subst on
      obtain ⟨next, head, rest⟩ := checked.uncons
      have confined := head.confined host fuel
      rw [Recorded.execAll_singleton] at confined
      obtain ⟨left, rfl, height', -⟩ := confined.run_over height run
      exact ih rest rfl height'
  | thenArm holds _ ih =>
      subst on
      cases checked with
      | branch fits operands thenCode elseCode rest =>
          obtain ⟨left, rfl, height'⟩ := Test.eval_tracked operands (height.trans fits.length_eq) holds
          exact ih thenCode rfl height'
  | elseArm holds _ ih =>
      subst on
      cases checked with
      | branch fits operands thenCode elseCode rest =>
          obtain ⟨left, rfl, height'⟩ := Test.eval_tracked operands (height.trans fits.length_eq) holds
          exact ih elseCode rfl height'
  | condition _ ih =>
      cases checked with
      | loop fits condition operands body rest =>
          exact ih condition on (height.trans fits.length_eq)
  | body run holds _ ih =>
      subst on
      cases checked with
      | loop fits condition operands body rest =>
          obtain ⟨left, rfl, height'⟩ :=
            condition.condition_tracked operands (height.trans fits.length_eq) run holds
          exact ih body rfl height'
  | round run holds run' _ ih =>
      subst on
      cases checked with
      | loop fits condition operands body rest =>
          obtain ⟨left, rfl, height'⟩ :=
            condition.condition_tracked operands (height.trans fits.length_eq) run holds
          obtain ⟨left, rfl, height', -⟩ := (body.confined _ _).run_over height' run'
          exact ih (.loop (.refl _) condition operands body rest) rfl height'
  | scope _ ih =>
      cases checked with
      | scope fits body rest => exact ih body on (height.trans fits.length_eq)

/-- The stack at the point has the tracked height above the values below, and the next instruction
does on it what it does without these values; it takes nothing that is not there. -/
def Point.Disciplined (host : Host) (fuel : Nat) (below : List Value) (p : Point) : Prop :=
  ∃ top, p.frame = Frame.over below top ∧ ∀ r rest, p.code = r :: rest →
    (∀ before, r.before? = some before → top.stack.length = List.length before) ∧
    r.exec host fuel p.frame = Frame.over below <$> r.exec host fuel top ∧
    ∀ m op m', (r.exec host fuel top).run m = (.error (.fault (.stackUnderflow op)), m') →
      host.Raises (.stackUnderflow op)

/-- Finished code keeps to the stack that it was written for, on any inputs, above any values, and
whatever the host does: at every point, over the run as a whole, and in what it leaves. -/
theorem Finished.stack_discipline {use : LocalUse} {s : Sequence} {code : List Recorded}
    (h : Finished use s code) (host : Host) (fuel : Nat) (inputs below locals : List Value)
    (count : inputs.length = s.inputs.length) :
    (∀ m p, Reaches host fuel code ⟨inputs.reverse ++ below, locals⟩ m p →
      p.Disciplined host fuel below) ∧
    Op.execAll host fuel s.ops ⟨inputs.reverse ++ below, locals⟩ =
      Frame.over below <$> Op.execAll host fuel s.ops ⟨inputs.reverse, locals⟩ ∧
    (∀ m op m', (s.runOn host fuel inputs).run m = (.error (.fault (.stackUnderflow op)), m') →
      host.Raises (.stackUnderflow op)) ∧
    ∀ m frame m', (Op.execAll host fuel s.ops ⟨inputs.reverse ++ below, locals⟩).run m
      = (.ok frame, m') → ∃ left, frame.stack = left ++ below ∧ left.length = s.output.toList.length := by
  obtain ⟨ops, checked⟩ := h.checked
  have confined : Confined host s.inputs.length s.output.toList.length
      (Op.execAll host fuel s.ops) := by
    have confined := checked.confined host fuel
    rwa [List.length_reverse, Recorded.execAll, ← ops] at confined
  have height : ∀ locals, (Frame.mk inputs.reverse locals).stack.length = s.inputs.length := by
    intro locals
    rw [List.length_reverse, count]
  refine ⟨?_, confined.above (height locals) below, ?_, ?_⟩
  · intro m p reach
    obtain ⟨top, stack, after, frame, height, checked⟩ :=
      reach.checked checked rfl ((height locals).trans (List.length_reverse ..).symm)
    refine ⟨top, frame, ?_⟩
    intro r rest code
    rw [code] at checked
    obtain ⟨next, head, -⟩ := checked.uncons
    have confined := head.confined host fuel
    rw [Recorded.execAll_singleton] at confined
    refine ⟨?_, ?_, ?_⟩
    · intro before recorded
      exact height.trans (checked.before?_fits recorded).length_eq
    · rw [frame]
      exact confined.above height below
    · intro m op m' run
      exact confined.underflow height run
  · intro m op m' run
    rw [Sequence.runOn, if_neg (not_not.mpr count)] at run
    rcases Stateful.bind_eq_error.mp run with run | ⟨frame, m₁, run, run'⟩
    · exact confined.underflow (height _) run
    · have left := confined.height (height _) run
      cases output : s.output with
      | none =>
          rw [output] at run'
          cases run'
      | some type =>
          rw [output] at left run'
          obtain ⟨v, stack⟩ := List.length_eq_one_iff.mp left
          rw [Frame.finish, Frame.pop, stack] at run'
          cases run'
  · intro m frame m' run
    obtain ⟨left, rfl, height, -⟩ :=
      confined.run_over (height locals) run
    exact ⟨left.stack, rfl, height⟩

def Sequence.choice : Sequence :=
  { ops := [.branch .isTrue [.push (.int 1)] [.push (.int 2)]]
    inputs := [.bool]
    output := some .int
    nonNull := true
    maxLocals := 0 }

def Sequence.choiceRecord : List Recorded :=
  [.branch [.bool] .isTrue [.plain [] (.push (.int 1))] [.plain [] (.push (.int 2))]]

theorem Sequence.choice_finished : Finished .any choice choiceRecord := by
  have arm : ∀ n, Assembled .any (Assembly.start [.bool] |>.put [] []).fork []
      [.plain [] (.push (.int n))] _ [] :=
    fun n => .call (.push (.int n)) (.start _ _) (LocalUse.allows_of_none rfl) rfl
  exact ⟨_, [], .branch .isTrue (.start _ _) rfl (arm 1) (arm 2) rfl, .inl ⟨true, rfl⟩⟩

/-- The choice on the input true, above one more value. -/
theorem Sequence.choice_stack_discipline :
    (Op.execAll (.ofSchema ⟨[], [], []⟩) 0 choice.ops ⟨[.bool true, .null], []⟩ =
      Frame.over [.null] <$> Op.execAll (.ofSchema ⟨[], [], []⟩) 0 choice.ops ⟨[.bool true], []⟩) ∧
    Point.Disciplined (.ofSchema ⟨[], [], []⟩) 0 [.null]
      ⟨choiceRecord, ⟨[.bool true, .null], []⟩, Machine.start⟩ := by
  obtain ⟨points, whole, -⟩ := Finished.stack_discipline choice_finished (.ofSchema ⟨[], [], []⟩) 0
    [.bool true] [.null] [] rfl
  exact ⟨whole, points _ _ (.here _ _ _)⟩

end MessageCode
