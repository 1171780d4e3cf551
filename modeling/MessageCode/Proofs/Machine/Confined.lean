import MessageCode.Proofs.Machine.Exec

/-!
Steps that work on top of the stack: they take a number of values, leave a number of values, and
neither read nor change what lies below. Every instruction does with the slots that its effect names,
whatever the values are and whatever the host does, and so do tests, loops and scopes made of such
steps.
-/

namespace MessageCode

def Frame.over (below : List Value) (frame : Frame) : Frame :=
  { frame with stack := frame.stack ++ below }

@[simp] theorem Frame.over_nil (frame : Frame) : frame.over [] = frame := by
  simp [Frame.over]

theorem Frame.release_ne_underflow (ds : List Declaration) (frame : Frame) (op : String) :
    frame.release ds ≠ .error (.stackUnderflow op) := by
  induction ds generalizing frame with
  | nil =>
      intro absurd
      cases absurd
  | cons d ds ih =>
      simp only [release, List.foldlM_cons, setLocal] at ih ⊢
      by_cases inRange : d.slot.index < frame.locals.length
      · simp only [inRange, if_true]
        exact ih _
      · simp only [inRange, if_false]
        intro absurd
        cases absurd

theorem Test.holds_ne_underflow (test : Test) {operands : List Value}
    (h : operands.length = test.operands.length) (op : String) :
    test.holds operands ≠ .error (.stackUnderflow op) := by
  cases test with
  | isNull =>
      obtain ⟨v, rfl⟩ := List.length_eq_one_iff.mp h
      exact nofun
  | nonNull =>
      obtain ⟨v, rfl⟩ := List.length_eq_one_iff.mp h
      exact nofun
  | isTrue =>
      obtain ⟨v, rfl⟩ := List.length_eq_one_iff.mp h
      cases v <;> exact nofun
  | isZero =>
      obtain ⟨v, rfl⟩ := List.length_eq_one_iff.mp h
      cases v <;> exact nofun
  | intEq =>
      obtain ⟨v, w, rfl⟩ := List.length_eq_two.mp h
      cases v <;> cases w <;> exact nofun
  | intLt =>
      obtain ⟨v, w, rfl⟩ := List.length_eq_two.mp h
      cases v <;> cases w <;> exact nofun

theorem Test.eval_over {test : Test} {frame frame' : Frame} {count : Nat} {below : List Value}
    {holds : Bool} (height : frame.stack.length = test.operands.length + count)
    (h : test.eval (frame.over below) = .ok (holds, frame')) :
    ∃ left : Frame, frame' = left.over below ∧ left.stack.length = count := by
  obtain ⟨taken, rest, stack, taken_length, rest_length⟩ := exists_append_of_length height
  rw [Frame.over, stack, List.append_assoc, Test.eval_append taken_length] at h
  cases held : test.holds taken with
  | error f =>
      rw [held] at h
      cases h
  | ok b =>
      rw [held] at h
      cases h
      exact ⟨⟨rest, frame.locals⟩, rfl, rest_length⟩

/-- Something that the host does ends with the fault. -/
def Host.Raises (host : Host) (f : Fault) : Prop :=
  (∃ c m m', (host.call c).run m = (.error f, m')) ∨ ∃ field, host.static field = .error f

/-- A step that takes the number of values it is written for, leaves the number that is tracked after
it, and works on nothing below them. -/
structure Confined (host : Host) (before after : Nat) (step : Frame → Run Frame) : Prop where
  above : ∀ {frame}, frame.stack.length = before → ∀ below,
    step (frame.over below) = Frame.over below <$> step frame
  height : ∀ {frame m frame' m'}, frame.stack.length = before →
    (step frame).run m = (.ok frame', m') → frame'.stack.length = after
  underflow : ∀ {frame m op m'}, frame.stack.length = before →
    (step frame).run m = (.error (.fault (.stackUnderflow op)), m') →
      host.Raises (.stackUnderflow op)

namespace Confined

variable {host : Host} {before next after : Nat} {step more : Frame → Run Frame}

/-- On the stack the step ends in one way, whatever lies below: with the tracked number of values above it,
or with a stop, which is an underflow only if the host makes one. -/
inductive Ends (host : Host) (after : Nat) (step : Frame → Run Frame) (stack locals : List Value)
    (m : Machine) : Prop
  | frame (left locals' : List Value) (m' : Machine)
      (run : ∀ below, (step ⟨stack ++ below, locals⟩).run m = (.ok ⟨left ++ below, locals'⟩, m'))
      (height : left.length = after)
  | stop (e : Stop) (m' : Machine)
      (run : ∀ below, (step ⟨stack ++ below, locals⟩).run m = (.error e, m'))
      (raised : ∀ op, e = .fault (.stackUnderflow op) → host.Raises (.stackUnderflow op))

/-- It is enough to know how the step ends on a stack of the right height. -/
theorem of_ends (h : ∀ stack locals m, stack.length = before → Ends host after step stack locals m) :
    Confined host before after step where
  above {frame} height below := by
    refine Stateful.ext fun m => ?_
    rw [Stateful.run_map]
    cases h frame.stack frame.locals m height with
    | frame left locals' m' run =>
        have alone := run []
        rw [List.append_nil, List.append_nil] at alone
        rw [alone]
        exact run below
    | stop e m' run =>
        have alone := run []
        rw [List.append_nil] at alone
        rw [alone]
        exact run below
  height {frame m _ _} height run := by
    cases h frame.stack frame.locals m height with
    | frame left locals' m' run' leaves =>
        have alone := run' []
        rw [List.append_nil, List.append_nil] at alone
        cases run.symm.trans alone
        exact leaves
    | stop e m' run' =>
        have alone := run' []
        rw [List.append_nil] at alone
        cases run.symm.trans alone
  underflow {frame m _ _} height run := by
    cases h frame.stack frame.locals m height with
    | frame left locals' m' run' =>
        have alone := run' []
        rw [List.append_nil, List.append_nil] at alone
        cases run.symm.trans alone
    | stop e m' run' raised =>
        have alone := run' []
        rw [List.append_nil] at alone
        cases run.symm.trans alone
        exact raised _ rfl

theorem pure : Confined host before before Pure.pure where
  above _ _ := rfl
  height h run := by
    cases run
    exact h
  underflow _ run := by cases run

theorem bind (h : Confined host before next step) (h' : Confined host next after more) :
    Confined host before after (fun frame => step frame >>= more) where
  above {frame} height below := by
    refine Stateful.ext fun m => ?_
    rw [h.above height, map_bind, Stateful.run_bind, Stateful.run_map, Stateful.run_bind]
    rcases run : (step frame).run m with ⟨e | frame', m'⟩
    · rfl
    · change (more (frame'.over below)).run m' = _
      rw [h'.above (h.height height run)]
  height height run := by
    obtain ⟨frame, m, run, run'⟩ := Stateful.bind_eq_ok.mp run
    exact h'.height (h.height height run) run'
  underflow height run := by
    rcases Stateful.bind_eq_error.mp run with run | ⟨frame, m, run, run'⟩
    · exact h.underflow height run
    · exact h'.underflow (h.height height run) run'

theorem run_over (h : Confined host before after step) {frame frame' : Frame} {m m' : Machine}
    (height : frame.stack.length = before) {below : List Value}
    (run : (step (frame.over below)).run m = (.ok frame', m')) :
    ∃ left, frame' = left.over below ∧ left.stack.length = after ∧
      (step frame).run m = (.ok left, m') := by
  rw [h.above height, Stateful.run_map] at run
  rcases alone : (step frame).run m with ⟨e | left, m₁⟩
  · rw [alone] at run
    cases run
  · rw [alone] at run
    cases run
    exact ⟨left, rfl, h.height height alone, rfl⟩

theorem choose (test : Test) {thenPart elsePart : Frame → Run Frame}
    (h : Confined host before after thenPart) (h' : Confined host before after elsePart) :
    Confined host (test.operands.length + before) after (Op.choose test thenPart elsePart) := by
  have part : ∀ b, Confined host before after (if b = true then thenPart else elsePart) := by
    intro b
    split
    · exact h
    · exact h'
  refine of_ends fun stack locals m height => ?_
  obtain ⟨taken, rest, rfl, taken_length, height⟩ := exists_append_of_length height
  have run (below : List Value) : (Op.choose test thenPart elsePart ⟨taken ++ rest ++ below, locals⟩).run m =
      (Run.ofExcept (test.holds taken) >>= fun b =>
        (if b = true then thenPart else elsePart) (Frame.over below ⟨rest, locals⟩)).run m := by
    rw [List.append_assoc, Op.choose_append taken_length]
    rfl
  rcases holds : test.holds taken with f | b
  · refine .stop (.fault f) m (fun below => ?_) ?_
    · rw [run, holds]
      rfl
    · rintro op ⟨⟩
      exact absurd holds (test.holds_ne_underflow taken_length op)
  · have part' (below : List Value) : (Op.choose test thenPart elsePart
        ⟨taken ++ rest ++ below, locals⟩).run m =
        (Frame.over below <$> (if b = true then thenPart else elsePart) ⟨rest, locals⟩).run m := by
      rw [run, holds, ← (part b).above height]
      rfl
    rcases alone : ((if b = true then thenPart else elsePart) ⟨rest, locals⟩).run m with ⟨e | frame, m'⟩
    · refine .stop e m' (fun below => ?_) ?_
      · rw [part', Stateful.run_map, alone]
        rfl
      · rintro op ⟨⟩
        exact (part b).underflow height alone
    · refine .frame frame.stack frame.locals m' (fun below => ?_) ((part b).height height alone)
      rw [part', Stateful.run_map, alone]
      rfl

theorem rounds {fuel : Nat} {condition body : List Op} (test : Test)
    (h : Confined host before (test.operands.length + before) (Op.execAll host fuel condition))
    (h' : Confined host before before (Op.execAll host fuel body)) (bound : Nat) :
    Confined host before before (Op.rounds host fuel condition test body bound) := by
  induction bound with
  | zero =>
      exact of_ends fun stack locals m _ => .stop .outOfFuel m (fun _ => rfl) nofun
  | succ bound ih => exact h.bind (choose test (h'.bind ih) pure)

theorem release (locals : List Declaration) :
    Confined host before before fun frame => Run.ofExcept (frame.release locals) := by
  refine of_ends fun stack slots m height => ?_
  rcases released : (Frame.mk [] slots).release locals with f | frame
  · refine .stop (.fault f) m (fun below => ?_) ?_
    · rw [Frame.release_eq, released]
      rfl
    · rintro op ⟨⟩
      exact absurd released (Frame.release_ne_underflow locals _ op)
  · refine .frame stack frame.locals m (fun below => ?_) height
    rw [Frame.release_eq, released]
    rfl

end Confined

theorem Value.convert_ne_underflow (v : Value) (target : NativeType) (op : String) :
    v.convert target ≠ .error (.stackUnderflow op) := by
  cases v <;> cases target <;> exact nofun

namespace Method

theorem callOn_ne_underflow {m : Method} {taken : List Value} (h : taken.length = m.arity)
    (op : String) : m.callOn taken ≠ .error (.stackUnderflow op) := by
  by_cases onType : m.isStatic = true
  · rw [callOn_onType onType (h.trans (arity_onType onType))]
    exact nofun
  · rw [Bool.not_eq_true] at onType
    obtain ⟨args, receiver, rfl, args_length⟩ := exists_receiver onType h
    rw [callOn_onInstance onType args_length]
    split <;> exact nofun

/-- A call leaves its result in place of its operands, or what the host faults with. -/
theorem exec_confined (host : Host) (suspends : Bool) (m : Method) (count : Nat) :
    Confined host (m.arity + count) (m.returns.toList.length + count) (m.exec host suspends) := by
  refine .of_ends fun stack locals s height => ?_
  obtain ⟨taken, rest, rfl, taken_length, rest_length⟩ := exists_append_of_length height
  rcases call : m.callOn taken with f | c
  · refine .stop (.fault f) s (fun below => ?_) ?_
    · rw [List.append_assoc, exec_append taken_length, call]
      rfl
    · rintro op ⟨⟩
      exact absurd call (callOn_ne_underflow taken_length op)
  · rcases run : (perform host suspends c).run s with ⟨e | result, s'⟩
    · refine .stop e s' (fun below => ?_) ?_
      · rw [List.append_assoc, exec_append taken_length, call]
        exact Stateful.run_bind_error run _
      · rintro op ⟨⟩
        obtain ⟨f, t, raised, same⟩ := perform_eq_error run
        cases same
        exact .inl ⟨c, t, s', raised⟩
    · refine .frame (m.results result ++ rest) locals s' (fun below => ?_) ?_
      · rw [List.append_assoc, exec_append taken_length, call, List.append_assoc]
        exact Stateful.run_bind_ok run _
      · rw [List.length_append, results_length, rest_length]

end Method

namespace Op

variable {host : Host} {fuel : Nat}

/-- An instruction works on the slots that its effect names. -/
theorem Effect.confined {op : Op} {before after : List NativeType} (h : op.Effect before after) :
    Confined host before.length after.length (op.exec host fuel) := by
  cases h with
  | push c =>
      refine .of_ends fun stack locals m height => ?_
      exact .frame ((c.load.run m).1 :: stack) _ _ (fun below => rfl) (by simpa using height)
  | dup t =>
      refine .of_ends fun stack locals m height => ?_
      obtain ⟨v, stack, rfl⟩ := List.exists_cons_of_length_eq_add_one height
      exact .frame (v :: v :: stack) _ _ (fun below => rfl) (by simpa using height)
  | pop t =>
      refine .of_ends fun stack locals m height => ?_
      obtain ⟨v, stack, rfl⟩ := List.exists_cons_of_length_eq_add_one height
      exact .frame stack _ _ (fun below => rfl) (by simpa using height)
  | swap a b =>
      refine .of_ends fun stack locals m height => ?_
      obtain ⟨v, stack, rfl⟩ := List.exists_cons_of_length_eq_add_one height
      obtain ⟨w, stack, rfl⟩ :=
        List.exists_cons_of_length_eq_add_one (Nat.add_right_cancel height)
      exact .frame (w :: v :: stack) _ _ (fun below => rfl) (by simpa using height)
  | load l =>
      refine .of_ends fun stack locals m height => ?_
      cases slot : locals[l.index]? with
      | none =>
          refine .stop (.fault (Frame.noLocal l)) m (fun below => ?_) nofun
          rw [exec_load, slot]
          rfl
      | some v =>
          refine .frame (v :: stack) locals m (fun below => ?_) (by simpa using height)
          rw [exec_load, slot]
          rfl
  | store l _ fits =>
      refine .of_ends fun stack locals m height => ?_
      obtain ⟨v, stack, rfl⟩ := List.exists_cons_of_length_eq_add_one height
      by_cases inRange : l.index < locals.length
      · refine .frame stack (locals.set l.index v) m (fun below => ?_) (by simpa using height)
        rw [List.cons_append, exec_store, if_pos inRange]
        rfl
      · refine .stop (.fault (Frame.noLocal l)) m (fun below => ?_) nofun
        rw [List.cons_append, exec_store, if_neg inRange]
        rfl
  | increment l delta _ int =>
      refine .of_ends fun stack locals m height => ?_
      cases slot : locals[l.index]? with
      | none =>
          refine .stop (.fault (Frame.noLocal l)) m (fun below => ?_) nofun
          rw [exec_increment, slot]
          rfl
      | some v =>
          by_cases counts : ∃ n, v = .int n
          · obtain ⟨n, rfl⟩ := counts
            refine .frame stack (locals.set l.index (.int (n + delta))) m (fun below => ?_) height
            rw [exec_increment, slot]
            rfl
          · refine .stop (.fault (.badOperand "iinc" "int" v.typeName)) m (fun below => ?_) nofun
            rw [exec_increment, slot]
            cases v with
            | int n => exact absurd ⟨n, rfl⟩ counts
            | _ => rfl
  | invoke m _ fits =>
      rw [List.length_append, List.length_append, fits.length_eq, m.operands_length]
      exact m.exec_confined host false _
  | suspend m _ fits =>
      rw [List.length_append, List.length_append, fits.length_eq, m.operands_length]
      exact m.exec_confined host true _
  | getStatic f =>
      refine .of_ends fun stack locals m height => ?_
      rcases static : host.static f with fault | object
      · refine .stop (.fault fault) m (fun below => ?_) ?_
        · rw [exec_getStatic, static]
          rfl
        · rintro op ⟨⟩
          exact .inr ⟨f, static⟩
      · refine .frame (((Machine.alloc object).run m).1 :: stack) locals
          ((Machine.alloc object).run m).2 (fun below => ?_) (by simpa using height)
        rw [exec_getStatic, static]
        rfl
  | @convert _ target _ _ _ =>
      refine .of_ends fun stack locals m height => ?_
      obtain ⟨v, stack, rfl⟩ := List.exists_cons_of_length_eq_add_one height
      rcases converted : v.convert target with f | w
      · refine .stop (.fault f) m (fun below => ?_) ?_
        · rw [List.cons_append, exec_convert, converted]
          rfl
        · rintro op ⟨⟩
          exact absurd converted (v.convert_ne_underflow target op)
      · refine .frame (w :: stack) locals m (fun below => ?_) (by simpa using height)
        rw [List.cons_append, exec_convert, converted]
        rfl
  | checkCast r _ fits =>
      refine .of_ends fun stack locals m height => ?_
      obtain ⟨v, stack, rfl⟩ := List.exists_cons_of_length_eq_add_one height
      by_cases belongs : v.isInstance r = true
      · refine .frame (v :: stack) locals m (fun below => ?_) (by simpa using height)
        rw [List.cons_append, exec_checkCast, if_pos belongs]
        rfl
      · refine .stop (.fault (.classCast r.render v.typeName)) m (fun below => ?_) nofun
        rw [List.cons_append, exec_checkCast, if_neg belongs]
        rfl
  | @box t _ _ =>
      refine .of_ends fun stack locals m height => ?_
      obtain ⟨v, stack, rfl⟩ := List.exists_cons_of_length_eq_add_one height
      by_cases same : v.primitiveType? = some t
      · refine .frame (((Machine.alloc (.wrapper v)).run m).1 :: stack) locals
          ((Machine.alloc (.wrapper v)).run m).2 (fun below => ?_) (by simpa using height)
        rw [List.cons_append, exec_box, if_pos same]
        rfl
      · refine .stop (.fault (.badOperand "box" t.render v.typeName)) m (fun below => ?_) nofun
        rw [List.cons_append, exec_box, if_neg same]
        rfl

end Op

end MessageCode
