import MessageCode.Machine.Run
import Mathlib.Data.List.Basic
import MessageCode.Proofs.Code.Effect

/-!
Equations for running code: lists of instructions one part after the other, loops round by round, and
tests and calls as functions of the operands that they take.
-/

namespace MessageCode

theorem exists_append_of_length {α : Type} {stack : List α} {count rest : Nat}
    (h : stack.length = count + rest) :
    ∃ taken left, stack = taken ++ left ∧ taken.length = count ∧ left.length = rest :=
  ⟨_, _, (stack.take_append_drop count).symm, by simp [h], by simp [h]⟩

namespace Run

variable {α : Type}

@[simp] theorem run_ofExcept (e : Except Fault α) (m : Machine) :
    (ofExcept e).run m = (e.mapError .fault, m) := by
  cases e <;> rfl

@[simp] theorem run_ofNative (step : Native α) (m : Machine) :
    (ofNative step).run m = ((step.run m).1.mapError .fault, (step.run m).2) := rfl

@[simp] theorem run_fault (f : Fault) (m : Machine) :
    (fault f : Run α).run m = (.error (.fault f), m) := rfl

@[simp] theorem run_monadLift (step : StateM Machine α) (m : Machine) :
    (monadLift step : Run α).run m = (.ok (step.run m).1, (step.run m).2) := rfl

end Run

namespace Frame

theorem pop_cons (op : String) (v : Value) (rest locals : List Value) :
    (Frame.mk (v :: rest) locals).pop op = .ok (v, ⟨rest, locals⟩) := rfl

theorem popMany_append (op : String) (taken rest locals : List Value) :
    (Frame.mk (taken ++ rest) locals).popMany op taken.length =
      .ok (taken.reverse, ⟨rest, locals⟩) := by
  induction taken with
  | nil => rfl
  | cons v taken ih =>
      rw [List.cons_append, List.length_cons, popMany, pop_cons]
      change (popMany op taken.length ⟨taken ++ rest, locals⟩ >>= _) = _
      rw [ih, List.reverse_cons]
      rfl

end Frame

namespace Test

def holds (test : Test) (operands : List Value) : Except Fault Bool :=
  (test.eval ⟨operands, []⟩).map (·.1)

/-- A test reads its operands and nothing else. -/
theorem eval_append {test : Test} {taken : List Value} (h : taken.length = test.operands.length)
    (rest locals : List Value) :
    test.eval ⟨taken ++ rest, locals⟩ = (test.holds taken).map (·, ⟨rest, locals⟩) := by
  cases test with
  | isNull =>
      obtain ⟨v, rfl⟩ := List.length_eq_one_iff.mp h
      rfl
  | nonNull =>
      obtain ⟨v, rfl⟩ := List.length_eq_one_iff.mp h
      rfl
  | isTrue =>
      obtain ⟨v, rfl⟩ := List.length_eq_one_iff.mp h
      cases v <;> rfl
  | isZero =>
      obtain ⟨v, rfl⟩ := List.length_eq_one_iff.mp h
      cases v <;> rfl
  | intEq =>
      obtain ⟨v, w, rfl⟩ := List.length_eq_two.mp h
      cases v <;> cases w <;> rfl
  | intLt =>
      obtain ⟨v, w, rfl⟩ := List.length_eq_two.mp h
      cases v <;> cases w <;> rfl

end Test

namespace Method

def callOn (m : Method) (operands : List Value) : Except Fault Call :=
  (m.takeOperands ⟨operands, []⟩).map (·.1)

theorem takeOperands_onType {m : Method} {args : List Value} (onType : m.isStatic = true)
    (h : args.length = m.params.length) (rest locals : List Value) :
    m.takeOperands ⟨args ++ rest, locals⟩ = .ok (⟨m, none, args.reverse⟩, ⟨rest, locals⟩) := by
  rw [takeOperands, ← h, Frame.popMany_append]
  simp [onType, bind, Except.bind, pure, Except.pure]

theorem takeOperands_onInstance {m : Method} {args : List Value} (onInstance : m.isStatic = false)
    (h : args.length = m.params.length) (receiver : Value) (rest locals : List Value) :
    m.takeOperands ⟨args ++ receiver :: rest, locals⟩ =
      if receiver.isNull then .error (.nullPointer m.render)
      else .ok (⟨m, some receiver, args.reverse⟩, ⟨rest, locals⟩) := by
  rw [takeOperands, ← h, Frame.popMany_append]
  simp [onInstance, Frame.pop_cons, bind, Except.bind, pure, Except.pure]

theorem callOn_onType {m : Method} {args : List Value} (onType : m.isStatic = true)
    (h : args.length = m.params.length) : m.callOn args = .ok ⟨m, none, args.reverse⟩ := by
  have taken := takeOperands_onType onType h [] []
  rw [List.append_nil] at taken
  rw [callOn, taken]
  rfl

theorem callOn_onInstance {m : Method} {args : List Value} (onInstance : m.isStatic = false)
    (h : args.length = m.params.length) (receiver : Value) :
    m.callOn (args ++ [receiver]) =
      if receiver.isNull then .error (.nullPointer m.render)
      else .ok ⟨m, some receiver, args.reverse⟩ := by
  rw [callOn, takeOperands_onInstance onInstance h]
  split <;> rfl

theorem arity_onType {m : Method} (onType : m.isStatic = true) : m.arity = m.params.length := by
  simp [arity, onType]

theorem arity_onInstance {m : Method} (onInstance : m.isStatic = false) :
    m.arity = m.params.length + 1 := by
  simp [arity, onInstance]

theorem exists_receiver {m : Method} {taken : List Value} (onInstance : m.isStatic = false)
    (h : taken.length = m.arity) :
    ∃ args receiver, taken = args ++ [receiver] ∧ args.length = m.params.length := by
  rw [arity_onInstance onInstance] at h
  obtain ⟨args, last, rfl, args_length, last_length⟩ := exists_append_of_length h
  obtain ⟨receiver, rfl⟩ := List.length_eq_one_iff.mp last_length
  exact ⟨args, receiver, rfl, args_length⟩

theorem takeOperands_append {m : Method} {taken : List Value} (h : taken.length = m.arity)
    (rest locals : List Value) :
    m.takeOperands ⟨taken ++ rest, locals⟩ = (m.callOn taken).map (·, ⟨rest, locals⟩) := by
  by_cases onType : m.isStatic = true
  · rw [arity_onType onType] at h
    rw [takeOperands_onType onType h, callOn_onType onType h]
    rfl
  · rw [Bool.not_eq_true] at onType
    obtain ⟨args, receiver, rfl, args_length⟩ := exists_receiver onType h
    rw [List.append_assoc, List.singleton_append, takeOperands_onInstance onType args_length,
      callOn_onInstance onType args_length]
    split <;> rfl

/-- Calls the host; a suspension point is counted before the call. -/
def perform (host : Host) (suspends : Bool) (c : Call) : Run Value := do
  if suspends then modify fun s => { s with suspensions := s.suspensions + 1 }
  Run.ofNative (host.call c)

def results (m : Method) (result : Value) : List Value := if m.returns.isSome then [result] else []

theorem results_length (m : Method) (result : Value) :
    (m.results result).length = m.returns.toList.length := by
  unfold results
  cases m.returns <;> rfl

/-- A call gives what the host gives, on a machine that may have counted the suspension point. -/
theorem run_perform (host : Host) (suspends : Bool) (c : Call) (s : Machine) :
    ∃ t, (perform host suspends c).run s =
      (((host.call c).run t).1.mapError .fault, ((host.call c).run t).2) := by
  cases suspends with
  | false => exact ⟨s, rfl⟩
  | true => exact ⟨{ s with suspensions := s.suspensions + 1 }, rfl⟩

theorem perform_eq_ok {host : Host} {suspends : Bool} {c : Call} {s s' : Machine} {v : Value}
    (h : (perform host suspends c).run s = (.ok v, s')) :
    ∃ t, (host.call c).run t = (.ok v, s') := by
  obtain ⟨t, run⟩ := run_perform host suspends c s
  rw [run] at h
  refine ⟨t, ?_⟩
  rcases call : (host.call c).run t with ⟨f | w, t'⟩
  · rw [call] at h
    cases h
  · rw [call] at h
    cases h
    rfl

theorem perform_eq_error {host : Host} {suspends : Bool} {c : Call} {s s' : Machine} {e : Stop}
    (h : (perform host suspends c).run s = (.error e, s')) :
    ∃ f t, (host.call c).run t = (.error f, s') ∧ e = .fault f := by
  obtain ⟨t, run⟩ := run_perform host suspends c s
  rw [run] at h
  rcases call : (host.call c).run t with ⟨f | w, t'⟩
  · rw [call] at h
    cases h
    exact ⟨f, t, call, rfl⟩
  · rw [call] at h
    cases h

theorem exec_append {m : Method} {taken : List Value} (h : taken.length = m.arity) (host : Host)
    (suspends : Bool) (rest locals : List Value) :
    m.exec host suspends ⟨taken ++ rest, locals⟩ =
      Run.ofExcept (m.callOn taken) >>= fun c => perform host suspends c >>= fun result =>
        pure ⟨m.results result ++ rest, locals⟩ := by
  rw [exec, takeOperands_append h]
  cases m.callOn taken with
  | error f => rfl
  | ok c =>
      unfold perform results
      cases suspends <;> cases m.returns <;> rfl

end Method

theorem Frame.release_eq (ds : List Declaration) (stack locals : List Value) :
    (Frame.mk stack locals).release ds =
      ((Frame.mk [] locals).release ds).map fun frame => { frame with stack } := by
  induction ds generalizing locals with
  | nil => rfl
  | cons d ds ih =>
      simp only [release, List.foldlM_cons, setLocal] at ih ⊢
      by_cases inRange : d.slot.index < locals.length
      · simp only [inRange, if_true, bind, Except.bind]
        exact ih _
      · simp only [inRange, if_false]
        rfl

namespace Op

variable (host : Host) (fuel : Nat)

section

variable (v w : Value) (rest stack locals : List Value)

theorem exec_push (c : Constant) : (push c).exec host fuel ⟨stack, locals⟩ =
    (monadLift c.load : Run Value) >>= fun v => pure ⟨v :: stack, locals⟩ := rfl

theorem exec_dup :
    dup.exec host fuel ⟨v :: rest, locals⟩ = pure ⟨v :: v :: rest, locals⟩ := rfl

theorem exec_swap :
    swap.exec host fuel ⟨v :: w :: rest, locals⟩ = pure ⟨w :: v :: rest, locals⟩ := rfl

theorem exec_load (l : Local) : (load l).exec host fuel ⟨stack, locals⟩ =
    match locals[l.index]? with
      | some v => pure ⟨v :: stack, locals⟩
      | none => Run.fault (Frame.noLocal l) := by
  rw [exec, Frame.getLocal]
  cases locals[l.index]? <;> rfl

theorem exec_load_of {l : Local} {v : Value} {locals : List Value} (held : locals[l.index]? = some v)
    (stack : List Value) : (load l).exec host fuel ⟨stack, locals⟩ = pure ⟨v :: stack, locals⟩ := by
  rw [exec_load, held]

theorem exec_store (l : Local) : (store l).exec host fuel ⟨v :: rest, locals⟩ =
    if l.index < locals.length then pure ⟨rest, locals.set l.index v⟩
    else Run.fault (Frame.noLocal l) := by
  change Run.ofExcept (Frame.setLocal l v ⟨rest, locals⟩) = _
  rw [Frame.setLocal]
  split <;> rfl

theorem exec_increment (l : Local) (delta : Int32) :
    (increment l delta).exec host fuel ⟨stack, locals⟩ =
      match locals[l.index]? with
        | some (.int n) => pure ⟨stack, locals.set l.index (.int (n + delta))⟩
        | some v => Run.fault (.badOperand "iinc" "int" v.typeName)
        | none => Run.fault (Frame.noLocal l) := by
  rw [exec, Frame.getLocal]
  rcases slot : locals[l.index]? with _ | v
  · rfl
  · have inRange : l.index < locals.length := (List.getElem?_eq_some_iff.mp slot).1
    cases v with
    | int n => simp [bind, Except.bind, Frame.setLocal, inRange, Run.ofExcept]
    | _ => rfl

theorem exec_getStatic (f : StaticField) : (getStatic f).exec host fuel ⟨stack, locals⟩ =
    Run.ofExcept (host.static f) >>= fun object =>
      (monadLift (Machine.alloc object) : Run Value) >>= fun v => pure ⟨v :: stack, locals⟩ := rfl

theorem exec_convert (source target : NativeType) :
    (convert source target).exec host fuel ⟨v :: rest, locals⟩ =
      Run.ofExcept (v.convert target) >>= fun w => pure ⟨w :: rest, locals⟩ := by
  change Run.ofExcept (v.convert target >>= _) = _
  cases v.convert target <;> rfl

theorem exec_checkCast (r : RefType) : (checkCast r).exec host fuel ⟨v :: rest, locals⟩ =
    if v.isInstance r then pure ⟨v :: rest, locals⟩
    else Run.fault (.classCast r.render v.typeName) := by
  change Run.ofExcept (if v.isInstance r = true then _ else _) = _
  split <;> rfl

theorem exec_box (t : NativeType) : (box t).exec host fuel ⟨v :: rest, locals⟩ =
    if v.primitiveType? = some t then
      (monadLift (Machine.alloc (.wrapper v)) : Run Value) >>= fun w => pure ⟨w :: rest, locals⟩
    else Run.fault (.badOperand "box" t.render v.typeName) := rfl

end

def choose (test : Test) (thenPart elsePart : Frame → Run Frame) (frame : Frame) : Run Frame := do
  let (holds, frame) ← Run.ofExcept (test.eval frame)
  if holds then thenPart frame else elsePart frame

theorem choose_append {test : Test} {taken : List Value}
    (h : taken.length = test.operands.length) (thenPart elsePart : Frame → Run Frame)
    (rest locals : List Value) :
    choose test thenPart elsePart ⟨taken ++ rest, locals⟩ =
      Run.ofExcept (test.holds taken) >>= fun b =>
        (if b = true then thenPart else elsePart) ⟨rest, locals⟩ := by
  rw [choose, Test.eval_append h]
  cases test.holds taken with
  | ok b => cases b <;> rfl
  | error f => rfl

/-- A loop with its own bound on the rounds. -/
def rounds (condition : List Op) (test : Test) (body : List Op) : Nat → Frame → Run Frame
  | 0, _ => throw .outOfFuel
  | bound + 1, frame => do
      let frame ← execAll host fuel condition frame
      choose test
        (fun frame => do
          let frame ← execAll host fuel body frame
          rounds condition test body bound frame)
        pure frame

theorem exec_branch (test : Test) (thenOps elseOps : List Op) :
    (branch test thenOps elseOps).exec host fuel =
      choose test (execAll host fuel thenOps) (execAll host fuel elseOps) := rfl

theorem exec_loop (condition : List Op) (test : Test) (body : List Op) :
    (loop condition test body).exec host fuel = rounds host fuel condition test body fuel := by
  have unrolled : ∀ bound frame, Run.iterate
      (fun frame => do
        let frame ← Op.execAll host fuel condition frame
        let (holds, frame) ← Run.ofExcept (test.eval frame)
        if holds then return (← Op.execAll host fuel body frame, true)
        else return (frame, false)) bound frame =
      rounds host fuel condition test body bound frame := by
    intro bound
    induction bound with
    | zero => exact fun _ => rfl
    | succ bound ih =>
        intro frame
        rw [Run.iterate, rounds, bind_assoc]
        refine congrArg _ (funext fun frame => ?_)
        rw [choose, bind_assoc]
        refine congrArg _ (funext fun tested => ?_)
        rcases tested with ⟨_ | _, frame⟩
        · simp only [Bool.false_eq_true, if_false, pure_bind]
        · simp only [if_true, bind_assoc, pure_bind]
          exact congrArg _ (funext ih)
  funext frame
  exact unrolled fuel frame

theorem execAll_nil : execAll host fuel [] = pure := rfl

theorem execAll_cons (op : Op) (rest : List Op) (frame : Frame) :
    execAll host fuel (op :: rest) frame =
      op.exec host fuel frame >>= execAll host fuel rest := rfl

@[simp] theorem execAll_singleton (op : Op) (frame : Frame) :
    execAll host fuel [op] frame = op.exec host fuel frame := by
  rw [execAll_cons, execAll_nil, bind_pure]

theorem execAll_append (code more : List Op) (frame : Frame) :
    execAll host fuel (code ++ more) frame =
      execAll host fuel code frame >>= execAll host fuel more := by
  induction code generalizing frame with
  | nil => rw [List.nil_append, execAll_nil, pure_bind]
  | cons op code ih =>
      rw [List.cons_append, execAll_cons, execAll_cons, bind_assoc]
      exact congrArg _ (funext ih)

end Op

end MessageCode
