import MessageCode.Proofs.Code.Locals
import MessageCode.Proofs.Machine.Points

/-!
Two runs of the same code, one of them with the locals renumbered into a larger frame. They go the same
way as long as the locals whose values the code uses hold the same in both, whatever the other locals
hold and however they differ.
-/

namespace MessageCode

open Stateful

namespace Frame

theorem popMany_locals (op : String) (count : Nat) (stack locals : List Value) :
    (Frame.mk stack locals).popMany op count =
      ((Frame.mk stack []).popMany op count).map fun taken => (taken.1, ⟨taken.2.stack, locals⟩) := by
  induction count generalizing stack with
  | zero => rfl
  | succ count ih =>
      cases stack with
      | nil => rfl
      | cons v rest =>
          rw [popMany, popMany, pop_cons, pop_cons]
          change (popMany op count ⟨rest, locals⟩ >>= _) =
            (popMany op count ⟨rest, []⟩ >>= _).map _
          rw [ih]
          cases popMany op count ⟨rest, []⟩ <;> rfl

theorem release_cons (d : Declaration) (ds : List Declaration) :
    (fun frame => Run.ofExcept (Frame.release (d :: ds) frame)) = fun frame =>
      Run.ofExcept (frame.setLocal d.slot .null) >>= fun frame => Run.ofExcept (frame.release ds) := by
  funext frame
  change Run.ofExcept (frame.setLocal d.slot .null >>= fun frame => frame.release ds) = _
  cases frame.setLocal d.slot .null <;> rfl

end Frame

namespace Test

theorem eval_locals (test : Test) (stack locals : List Value) :
    test.eval ⟨stack, locals⟩ =
      (test.eval ⟨stack, []⟩).map fun tested => (tested.1, ⟨tested.2.stack, locals⟩) := by
  rcases stack with _ | ⟨v, _ | ⟨w, rest⟩⟩
  · cases test <;> rfl
  · cases test <;> cases v <;> rfl
  · cases test <;> cases v <;> first | rfl | (cases w <;> rfl)

end Test

namespace Method

theorem takeOperands_locals (m : Method) (stack locals : List Value) :
    m.takeOperands ⟨stack, locals⟩ =
      (m.takeOperands ⟨stack, []⟩).map fun taken => (taken.1, ⟨taken.2.stack, locals⟩) := by
  unfold takeOperands
  dsimp only
  rw [Frame.popMany_locals m.render m.params.length stack locals]
  rcases Frame.popMany m.render m.params.length ⟨stack, []⟩ with f | ⟨args, left, _⟩
  · rfl
  · by_cases onType : m.isStatic = true
    · simp [onType, bind, Except.bind, Except.map, pure, Except.pure]
    · cases left with
      | nil => simp [onType, bind, Except.bind, Except.map, Frame.pop]
      | cons receiver rest =>
          cases null : receiver.isNull <;>
            simp [onType, bind, Except.bind, Except.map, pure, Except.pure, Frame.pop, null]

end Method

def OnStack (step : Frame → Run Frame) : Prop :=
  ∀ stack, ∃ result : Run (List Value), ∀ locals,
    step ⟨stack, locals⟩ = result >>= fun stack => pure ⟨stack, locals⟩

theorem Method.exec_onStack (host : Host) (suspends : Bool) (m : Method) :
    OnStack (m.exec host suspends) := by
  intro stack
  rcases taken : m.takeOperands ⟨stack, []⟩ with f | ⟨c, left, _⟩
  · refine ⟨Run.fault f, fun locals => ?_⟩
    rw [exec, takeOperands_locals, taken]
    rfl
  · refine ⟨perform host suspends c >>= fun result => pure (m.results result ++ left), fun locals => ?_⟩
    rw [exec, takeOperands_locals, taken]
    unfold perform results
    simp only [Except.map, Run.ofExcept, pure_bind, bind_assoc]
    cases suspends <;> cases m.returns <;> rfl

namespace Op.Effect

/-- Instructions that name no local work on the stack alone. -/
theorem onStack {op : Op} {before after : List NativeType} (h : op.Effect before after)
    (apart : op.event? = none) (host : Host) (fuel : Nat) : OnStack (op.exec host fuel) := by
  cases h with
  | push c =>
      intro stack
      refine ⟨(monadLift c.load : Run Value) >>= fun v => pure (v :: stack), fun locals => ?_⟩
      rw [exec_push]
      simp only [bind_assoc, pure_bind]
  | dup t =>
      rintro (_ | ⟨v, rest⟩)
      · exact ⟨Run.fault _, fun locals => rfl⟩
      · exact ⟨pure (v :: v :: rest), fun locals => rfl⟩
  | pop t =>
      rintro (_ | ⟨v, rest⟩)
      · exact ⟨Run.fault _, fun locals => rfl⟩
      · exact ⟨pure rest, fun locals => rfl⟩
  | swap a b =>
      rintro (_ | ⟨v, _ | ⟨w, rest⟩⟩)
      · exact ⟨Run.fault _, fun locals => rfl⟩
      · exact ⟨Run.fault _, fun locals => rfl⟩
      · exact ⟨pure (w :: v :: rest), fun locals => rfl⟩
  | load l => cases apart
  | store l => cases apart
  | increment l => cases apart
  | invoke m => exact m.exec_onStack host false
  | suspend m => exact m.exec_onStack host true
  | getStatic f =>
      intro stack
      refine ⟨Run.ofExcept (host.static f) >>= fun object =>
        (monadLift (Machine.alloc object) : Run Value) >>= fun v => pure (v :: stack), fun locals => ?_⟩
      rw [exec_getStatic]
      simp only [bind_assoc, pure_bind]
  | @convert source target =>
      rintro (_ | ⟨v, rest⟩)
      · exact ⟨Run.fault _, fun locals => rfl⟩
      · refine ⟨Run.ofExcept (v.convert target) >>= fun w => pure (w :: rest), fun locals => ?_⟩
        rw [exec_convert]
        simp only [bind_assoc, pure_bind]
  | checkCast r =>
      rintro (_ | ⟨v, rest⟩)
      · exact ⟨Run.fault _, fun locals => rfl⟩
      · by_cases belongs : v.isInstance r = true
        · refine ⟨pure (v :: rest), fun locals => ?_⟩
          rw [exec_checkCast, if_pos belongs]
          rfl
        · refine ⟨Run.fault (.classCast r.render v.typeName), fun locals => ?_⟩
          rw [exec_checkCast, if_neg belongs]
          rfl
  | @box t =>
      rintro (_ | ⟨v, rest⟩)
      · exact ⟨Run.fault _, fun locals => rfl⟩
      · by_cases same : v.primitiveType? = some t
        · refine ⟨(monadLift (Machine.alloc (.wrapper v)) : Run Value) >>= fun w => pure (w :: rest),
            fun locals => ?_⟩
          rw [exec_box, if_pos same]
          simp only [bind_assoc, pure_bind]
        · refine ⟨Run.fault (.badOperand "box" t.render v.typeName), fun locals => ?_⟩
          rw [exec_box, if_neg same]
          rfl

end Op.Effect

/-- Which slots the code may use after some events: those that it stored to, at the least. -/
abbrev Trust := List LocalEvent → Nat → Prop

def Trust.Earned (trust : Trust) : Prop :=
  ∀ past e i, trust (past ++ [e]) i → (∃ l, e = .store l ∧ l.index = i) ∨ trust past i

def Covered (trust : Trust) (size : Nat) (past : List LocalEvent) (e : LocalEvent) : Prop :=
  e.target.index < size ∧ ∀ l, e.Reads l → trust past l.index

/-- The slots that may be used hold the same in both frames, and those before the shifted ones hold
what they held at the start. -/
structure Mirrored (offset size : Nat) (start : List Value) (usable : Nat → Prop)
    (locals locals' : List Value) : Prop where
  slot : ∀ i, usable i → locals'[i + offset]? = locals[i]?
  below : ∀ i, i < offset → locals'[i]? = start[i]?
  length : locals.length = size
  length' : locals'.length = start.length

namespace Mirrored

variable {offset size : Nat} {start locals locals' : List Value} {usable usable' : Nat → Prop}

theorem mono (h : Mirrored offset size start usable locals locals')
    (imp : ∀ i, usable' i → usable i) : Mirrored offset size start usable' locals locals' :=
  ⟨fun i use => h.slot i (imp i use), h.below, h.length, h.length'⟩

/-- A slot that may be used is read in both. -/
theorem read (h : Mirrored offset size start usable locals locals') {i : Nat} (bound : i < size)
    (use : usable i) : ∃ v, locals[i]? = some v ∧ locals'[i + offset]? = some v := by
  have inRange : i < locals.length := bound.trans_eq h.length.symm
  have slot : locals[i]? = some locals[i] := List.getElem?_eq_getElem inRange
  exact ⟨locals[i], slot, (h.slot i use).trans slot⟩

theorem set (h : Mirrored offset size start usable locals locals') (room : offset + size ≤ start.length)
    {i : Nat} (bound : i < size) (v : Value) (earned : ∀ k, usable' k → k = i ∨ usable k) :
    Mirrored offset size start usable' (locals.set i v) (locals'.set (i + offset) v) where
  slot k use := by
    by_cases same : k = i
    · subst same
      have inRange : k < locals.length := by rw [h.length]; exact bound
      have inRange' : k + offset < locals'.length := by rw [h.length']; omega
      rw [List.getElem?_set_self inRange, List.getElem?_set_self inRange']
    · rw [List.getElem?_set_ne (by omega), List.getElem?_set_ne (by omega)]
      exact h.slot k ((earned k use).resolve_left same)
  below k before := by
    rw [List.getElem?_set_ne (by omega)]
    exact h.below k before
  length := (List.length_set ..).trans h.length
  length' := (List.length_set ..).trans h.length'

end Mirrored

/-- The two steps end in the same fault, or leave the same stack with locals that match after the
events of one of the paths. -/
def Agree (trust : Trust) (offset size : Nat) (start : List Value) (past : List LocalEvent)
    (paths : List LocalEvent → Prop) (x x' : Run Frame) : Prop :=
  ∀ m, (∃ e m', x.run m = (.error e, m') ∧ x'.run m = (.error e, m')) ∨
    ∃ trace stack locals locals' m', paths trace ∧ x.run m = (.ok ⟨stack, locals⟩, m') ∧
      x'.run m = (.ok ⟨stack, locals'⟩, m') ∧
      Mirrored offset size start (trust (past ++ trace)) locals locals'

/-- The second step does on matching frames what the first does, along paths that use no other slots. -/
def Mirrors (trust : Trust) (offset size : Nat) (start : List Value)
    (paths : List LocalEvent → Prop) (step step' : Frame → Run Frame) : Prop :=
  ∀ past stack locals locals', (∀ trace, paths trace → Along (Covered trust size) past trace) →
    Mirrored offset size start (trust past) locals locals' →
    Agree trust offset size start past paths (step ⟨stack, locals⟩) (step' ⟨stack, locals'⟩)

namespace Mirrors

variable {trust : Trust} {offset size : Nat} {start : List Value}
  {paths paths' : List LocalEvent → Prop} {step step' more more' : Frame → Run Frame}

theorem mono (h : Mirrors trust offset size start paths step step')
    (imp : ∀ trace, paths trace → paths' trace) : Mirrors trust offset size start paths' step step' := by
  intro past stack locals locals' covered mirrored m
  rcases h past stack locals locals' (fun trace path => covered trace (imp trace path)) mirrored m with
    failed | ⟨trace, stack, locals, locals', m', path, rest⟩
  · exact .inl failed
  · exact .inr ⟨trace, stack, locals, locals', m', imp trace path, rest⟩

theorem pure : Mirrors trust offset size start (· = []) Pure.pure Pure.pure := by
  intro past stack locals locals' _ mirrored m
  exact .inr ⟨[], stack, locals, locals', m, rfl, rfl, rfl, by rwa [List.append_nil]⟩

theorem of_onStack (h : OnStack step) : Mirrors trust offset size start (· = []) step step := by
  intro past stack locals locals' _ mirrored m
  obtain ⟨result, eq⟩ := h stack
  rw [eq, eq]
  rcases run : result.run m with ⟨e | stack', m'⟩
  · exact .inl ⟨e, m', Stateful.run_bind_error run _, Stateful.run_bind_error run _⟩
  · exact .inr ⟨[], stack', locals, locals', m', rfl, Stateful.run_bind_ok run _,
      Stateful.run_bind_ok run _, by rwa [List.append_nil]⟩

theorem bind (h : Mirrors trust offset size start paths step step')
    (h' : Mirrors trust offset size start paths' more more') (some_path : ∃ trace, paths' trace) :
    Mirrors trust offset size start
      (fun trace => ∃ first second, trace = first ++ second ∧ paths first ∧ paths' second)
      (fun frame => step frame >>= more) (fun frame => step' frame >>= more') := by
  intro past stack locals locals' covered mirrored m
  have first : ∀ trace, paths trace → Along (Covered trust size) past trace := by
    obtain ⟨other, path'⟩ := some_path
    intro trace path
    exact (along_append.mp (covered _ ⟨trace, other, rfl, path, path'⟩)).1
  rcases h past stack locals locals' first mirrored m with
    ⟨e, m', run, run'⟩ | ⟨trace, stack₁, locals₁, locals₁', m₁, path, run, run', mirrored⟩
  · exact .inl ⟨e, m', Stateful.run_bind_error run _, Stateful.run_bind_error run' _⟩
  · have second : ∀ other, paths' other → Along (Covered trust size) (past ++ trace) other :=
      fun other path' => (along_append.mp (covered _ ⟨trace, other, rfl, path, path'⟩)).2
    rw [Stateful.run_bind_ok run, Stateful.run_bind_ok run']
    rcases h' _ stack₁ locals₁ locals₁' second mirrored m₁ with
      failed | ⟨other, stack₂, locals₂, locals₂', m₂, path', run, run', mirrored⟩
    · exact .inl failed
    · rw [List.append_assoc] at mirrored
      exact .inr ⟨trace ++ other, stack₂, locals₂, locals₂', m₂, ⟨trace, other, rfl, path, path'⟩, run,
        run', mirrored⟩

theorem choose (test : Test) (h : Mirrors trust offset size start paths step step')
    (h' : Mirrors trust offset size start paths' more more') :
    Mirrors trust offset size start (fun trace => paths trace ∨ paths' trace)
      (Op.choose test step more) (Op.choose test step' more') := by
  intro past stack locals locals' covered mirrored
  unfold Op.choose
  rw [Test.eval_locals test stack locals, Test.eval_locals test stack locals']
  rcases test.eval ⟨stack, []⟩ with f | ⟨holds, left, _⟩
  · exact fun m => .inl ⟨.fault f, m, rfl, rfl⟩
  · cases holds with
    | true =>
        exact h.mono (fun trace => .inl) past left locals locals' covered mirrored
    | false =>
        exact h'.mono (fun trace => .inr) past left locals locals' covered mirrored

theorem load (host : Host) (fuel : Nat) (l : Local) (earned : trust.Earned) :
    Mirrors trust offset size start (· = [.load l]) ((Op.load l).exec host fuel)
      ((Op.load (l.relocate offset)).exec host fuel) := by
  intro past stack locals locals' covered mirrored m
  obtain ⟨bound, backed⟩ := along_singleton.mp (covered _ rfl)
  obtain ⟨v, slot, slot'⟩ := mirrored.read (i := l.index) bound (backed l rfl)
  refine .inr ⟨_, v :: stack, locals, locals', m, rfl, ?_, ?_, ?_⟩
  · rw [Op.exec_load, slot]
    rfl
  · rw [Op.exec_load, Local.relocate, slot']
    rfl
  · refine mirrored.mono fun i use => ?_
    rcases earned _ _ _ use with ⟨k, same, -⟩ | use
    · cases same
    · exact use

theorem store (host : Host) (fuel : Nat) (l : Local) (earned : trust.Earned)
    (room : offset + size ≤ start.length) :
    Mirrors trust offset size start (· = [.store l]) ((Op.store l).exec host fuel)
      ((Op.store (l.relocate offset)).exec host fuel) := by
  intro past stack locals locals' covered mirrored m
  have bound : l.index < size := (along_singleton.mp (covered _ rfl)).1
  cases stack with
  | nil => exact .inl ⟨_, m, rfl, rfl⟩
  | cons v rest =>
      have inRange : l.index < locals.length := bound.trans_eq mirrored.length.symm
      have inRange' : l.index + offset < locals'.length := by rw [mirrored.length']; omega
      refine .inr ⟨_, rest, locals.set l.index v, locals'.set (l.index + offset) v, m, rfl, ?_, ?_, ?_⟩
      · rw [Op.exec_store, if_pos inRange]
        rfl
      · rw [Op.exec_store, Local.relocate, if_pos inRange']
        rfl
      · refine mirrored.set room bound v fun i use => ?_
        rcases earned _ _ _ use with ⟨k, same, rfl⟩ | use
        · cases same
          exact .inl rfl
        · exact .inr use

theorem increment (host : Host) (fuel : Nat) (l : Local) (delta : Int32) (earned : trust.Earned)
    (room : offset + size ≤ start.length) :
    Mirrors trust offset size start (· = [.increment l]) ((Op.increment l delta).exec host fuel)
      ((Op.increment (l.relocate offset) delta).exec host fuel) := by
  intro past stack locals locals' covered mirrored m
  obtain ⟨bound, backed⟩ := along_singleton.mp (covered _ rfl)
  obtain ⟨v, slot, slot'⟩ := mirrored.read (i := l.index) bound (backed l rfl)
  rw [Op.exec_increment, Op.exec_increment, Local.relocate, slot, slot']
  cases v with
  | int n =>
      refine .inr ⟨_, stack, locals.set l.index (.int (n + delta)),
        locals'.set (l.index + offset) (.int (n + delta)), m, rfl, rfl, rfl, ?_⟩
      refine mirrored.set room bound _ fun i use => ?_
      rcases earned _ _ _ use with ⟨k, same, -⟩ | use
      · cases same
      · exact .inr use
  | _ => exact .inl ⟨_, m, rfl, rfl⟩

theorem declare (l : Local) (earned : trust.Earned) :
    Mirrors trust offset size start (· = [.declare l]) Pure.pure Pure.pure := by
  intro past stack locals locals' _ mirrored m
  refine .inr ⟨_, stack, locals, locals', m, rfl, rfl, rfl, mirrored.mono fun i use => ?_⟩
  rcases earned _ _ _ use with ⟨k, same, -⟩ | use
  · cases same
  · exact use

theorem release (ds : List Declaration) (earned : trust.Earned)
    (room : offset + size ≤ start.length) :
    Mirrors trust offset size start (· = ds.map fun d => .release d.slot)
      (fun frame => Run.ofExcept (frame.release ds))
      (fun frame => Run.ofExcept (frame.release (ds.map (Declaration.relocate offset)))) := by
  induction ds with
  | nil => exact pure
  | cons d ds ih =>
      have head : Mirrors trust offset size start (· = [.release d.slot])
          (fun frame => Run.ofExcept (frame.setLocal d.slot .null))
          (fun frame => Run.ofExcept (frame.setLocal (d.relocate offset).slot .null)) := by
        intro past stack locals locals' covered mirrored m
        have bound : d.slot.index < size := (along_singleton.mp (covered _ rfl)).1
        have inRange : d.slot.index < locals.length := bound.trans_eq mirrored.length.symm
        have inRange' : d.slot.index + offset < locals'.length := by rw [mirrored.length']; omega
        refine .inr ⟨_, stack, locals.set d.slot.index .null,
          locals'.set (d.slot.index + offset) .null, m, rfl, ?_, ?_, ?_⟩
        · exact congrArg (fun set => (Run.ofExcept set).run m) (if_pos inRange)
        · exact congrArg (fun set => (Run.ofExcept set).run m) (if_pos inRange')
        · refine mirrored.set room bound _ fun i use => ?_
          rcases earned _ _ _ use with ⟨k, same, -⟩ | use
          · cases same
          · exact .inr use
      have both := head.bind ih ⟨_, rfl⟩
      rw [← Frame.release_cons, ← Frame.release_cons, ← List.map_cons] at both
      refine both.mono ?_
      rintro _ ⟨_, _, rfl, rfl, rfl⟩
      rfl

theorem rounds {host : Host} {fuel : Nat} {tracked : List NativeType} {condition body : List Recorded}
    {conditionOps bodyOps : List Op} {test : Test}
    (h : Mirrors trust offset size start (Path condition) (Recorded.execAll host fuel condition)
      (Op.execAll host fuel conditionOps))
    (h' : Mirrors trust offset size start (Path body) (Recorded.execAll host fuel body)
      (Op.execAll host fuel bodyOps)) (bound : Nat) :
    Mirrors trust offset size start (Path [.loop tracked condition test body])
      (Op.rounds host fuel (Recorded.ops condition) test (Recorded.ops body) bound)
      (Op.rounds host fuel conditionOps test bodyOps bound) := by
  induction bound with
  | zero =>
      intro past stack locals locals' _ _ m
      exact .inl ⟨_, m, rfl, rfl⟩
  | succ bound ih =>
      obtain ⟨first, path⟩ := Path.exists_of_code condition
      obtain ⟨second, path'⟩ := Path.exists_of_code body
      have again := h'.bind ih ⟨first, Path.loop_iff.mpr (.inl path)⟩
      exact (h.bind (choose test again pure) ⟨[], .inr rfl⟩).mono fun _ => Path.of_round

theorem plain {op : Op} {before after : List NativeType} (effect : op.Effect before after)
    (host : Host) (fuel : Nat) (earned : trust.Earned) (room : offset + size ≤ start.length) :
    Mirrors trust offset size start (· = op.event?.toList) (op.exec host fuel)
      ((op.relocate offset).exec host fuel) := by
  cases op with
  | load l => exact load host fuel l earned
  | store l => exact store host fuel l earned room
  | increment l delta => exact increment host fuel l delta earned room
  | branch test thenOps elseOps => cases effect
  | loop condition test body => cases effect
  | scope locals body => cases effect
  | _ => exact of_onStack (effect.onStack rfl host fuel)

end Mirrors

namespace Checked

variable {trust : Trust} {offset size : Nat} {start : List Value} {host : Host} {fuel : Nat}

theorem mirrors_cons {r : Recorded} {rest : List Recorded}
    (h : Mirrors trust offset size start (Path [r]) (r.exec host fuel)
      (Op.execAll host fuel (Op.relocateAll offset r.op?.toList)))
    (h' : Mirrors trust offset size start (Path rest) (Recorded.execAll host fuel rest)
      (Op.execAll host fuel (Op.relocateAll offset (Recorded.ops rest)))) :
    Mirrors trust offset size start (Path (r :: rest)) (Recorded.execAll host fuel (r :: rest))
      (Op.execAll host fuel (Op.relocateAll offset (Recorded.ops (r :: rest)))) := by
  have split : Op.execAll host fuel (Op.relocateAll offset (Recorded.ops (r :: rest))) = fun frame =>
      Op.execAll host fuel (Op.relocateAll offset r.op?.toList) frame >>=
        Op.execAll host fuel (Op.relocateAll offset (Recorded.ops rest)) := by
    rw [Recorded.ops, Recorded.relocateAll_append]
    exact funext (Op.execAll_append host fuel _ _)
  rw [Recorded.execAll_cons, split]
  refine (h.bind h' (Path.exists_of_code rest)).mono ?_
  rintro trace ⟨first, second, rfl, path, path'⟩
  exact path.append path'

/-- Code and its renumbered form go the same way. -/
theorem mirrors {stack after : List NativeType} {code : List Recorded} (h : Checked stack code after)
    (earned : trust.Earned) (room : offset + size ≤ start.length) :
    Mirrors trust offset size start (Path code) (Recorded.execAll host fuel code)
      (Op.execAll host fuel (Op.relocateAll offset (Recorded.ops code))) := by
  induction h with
  | done fits => exact Mirrors.pure.mono fun _ => Path.nil_iff.mpr
  | plain fits effect _ ih =>
      refine mirrors_cons ?_ ih
      rw [Recorded.exec_plain]
      have single : ∀ op : Op, Op.execAll host fuel (Op.relocateAll offset [op]) =
          (op.relocate offset).exec host fuel := fun op => funext (Op.execAll_singleton host fuel _)
      refine (Mirrors.mono ?_ fun _ => Path.plain_iff.mpr)
      rw [Recorded.op?, Option.toList_some, single]
      exact .plain effect host fuel earned room
  | declare _ ih =>
      exact mirrors_cons ((Mirrors.declare _ earned).mono fun _ => Path.declare_iff.mpr) ih
  | @branch _ _ _ _ _ test thenCode elseCode _ fits operands _ _ _ thenIh elseIh ih =>
      refine mirrors_cons ?_ ih
      have single : Op.execAll host fuel (Op.relocateAll offset
          [.branch test (Recorded.ops thenCode) (Recorded.ops elseCode)]) =
          Op.choose test (Op.execAll host fuel (Op.relocateAll offset (Recorded.ops thenCode)))
            (Op.execAll host fuel (Op.relocateAll offset (Recorded.ops elseCode))) :=
        funext (Op.execAll_singleton host fuel _)
      rw [Recorded.exec_branch, Recorded.op?, Option.toList_some, single]
      exact (Mirrors.choose test thenIh elseIh).mono fun _ => Path.branch_iff.mpr
  | @loop _ _ _ _ condition test body _ fits _ operands _ _ conditionIh bodyIh ih =>
      refine mirrors_cons ?_ ih
      have single : Op.execAll host fuel (Op.relocateAll offset
          [.loop (Recorded.ops condition) test (Recorded.ops body)]) =
          Op.rounds host fuel (Op.relocateAll offset (Recorded.ops condition)) test
            (Op.relocateAll offset (Recorded.ops body)) fuel := by
        rw [← Op.exec_loop]
        exact funext (Op.execAll_singleton host fuel _)
      rw [Recorded.exec_loop, Recorded.op?, Option.toList_some, single]
      exact .rounds conditionIh bodyIh fuel
  | @scope _ _ _ _ locals body _ fits _ _ bodyIh ih =>
      refine mirrors_cons ?_ ih
      have single : Op.execAll host fuel (Op.relocateAll offset [.scope locals (Recorded.ops body)]) =
          fun frame => Op.execAll host fuel (Op.relocateAll offset (Recorded.ops body)) frame >>=
            fun frame => Run.ofExcept (frame.release (locals.map (Declaration.relocate offset))) :=
        funext (Op.execAll_singleton host fuel _)
      rw [Recorded.exec_scope, Recorded.op?, Option.toList_some, single]
      refine (bodyIh.bind (.release locals earned room) ⟨_, rfl⟩).mono ?_
      rintro trace ⟨first, second, rfl, path, rfl⟩
      exact Path.scope_iff.mpr ⟨first, path, rfl⟩

end Checked

/-- Finished code does in a larger frame, with its locals renumbered, what it does alone, if the slots
that it may use at the start hold the same: its results depend on no other locals, and it leaves those
before its own as they are. -/
theorem Finished.relocated {use : LocalUse} {s : Sequence} {code : List Recorded}
    (h : Finished use s code) {trust : Trust} (earned : trust.Earned)
    (covered : ∀ trace, Path code trace → Along (Covered trust s.maxLocals) [] trace) (host : Host)
    (fuel : Nat) {offset : Nat} (stack : List Value) {locals locals' : List Value}
    (alone : locals.length = s.maxLocals) (room : offset + s.maxLocals ≤ locals'.length)
    (same : ∀ i, trust [] i → locals'[i + offset]? = locals[i]?) (m : Machine) :
    Alike (Op.execAll host fuel (Op.relocateAll offset s.ops) ⟨stack, locals'⟩)
      (Op.execAll host fuel s.ops ⟨stack, locals⟩) m fun frame' frame _ =>
        frame'.stack = frame.stack ∧ frame'.locals.length = locals'.length ∧
          ∀ i, i < offset → frame'.locals[i]? = locals'[i]? := by
  obtain ⟨ops, checked⟩ := h.checked
  have start : Mirrored offset s.maxLocals locals' (trust []) locals locals' :=
    ⟨same, fun _ _ => rfl, alone, rfl⟩
  rcases checked.mirrors earned room [] stack locals locals' covered start m with
    ⟨e, m', run, run'⟩ | ⟨trace, left, after, after', m', -, run, run', mirrored⟩
  · rw [Recorded.execAll, ← ops] at run
    rw [← ops] at run'
    exact .inl ⟨e, m', run', run⟩
  · rw [Recorded.execAll, ← ops] at run
    rw [← ops] at run'
    exact .inr ⟨⟨left, after'⟩, ⟨left, after⟩, m', run', run, rfl, mirrored.length', mirrored.below⟩

def Trust.stored : Trust := fun past i => ∃ l, l.index = i ∧ .store l ∈ past

theorem Trust.stored_earned : Trust.stored.Earned := by
  rintro past e i ⟨l, rfl, mem⟩
  rcases List.mem_append.mp mem with mem | mem
  · exact .inr ⟨l, rfl, mem⟩
  · exact .inl ⟨l, (List.mem_singleton.mp mem).symm, rfl⟩

/-- On every path the code uses slots of its own only, and stores to each before it uses the value. -/
def StoresFirst (size : Nat) (code : List Recorded) : Prop :=
  ∀ trace, Path code trace → Along (Covered .stored size) [] trace

/-- Programs that use visible locals only and store to each of them before they use its value. -/
theorem Finished.storesFirst {s : Sequence} {code : List Recorded} (h : Finished .visible s code)
    (assigned : UsesAssigned code) : StoresFirst s.maxLocals code := by
  intro trace path
  refine (h.secure assigned path).imp fun past e secure => ⟨secure.1, fun l reads => ?_⟩
  obtain ⟨earlier, later, rfl, -⟩ := secure.2 l reads
  exact ⟨l, rfl, List.mem_append_right _ List.mem_cons_self⟩

def Trust.slots (size : Nat) : Trust := fun _ i => i < size

theorem Trust.slots_earned (size : Nat) : (Trust.slots size).Earned := fun _ _ _ => .inr

theorem Finished.usesSlots {use : LocalUse} {s : Sequence} {code : List Recorded}
    (h : Finished use s code) (own : UsesOwn code) (trace : List LocalEvent) (path : Path code trace) :
    Along (Covered (.slots s.maxLocals) s.maxLocals) [] trace := by
  refine along_of_forall fun e mem past => ?_
  have bound := h.bounded own path e mem
  exact ⟨bound, fun l reads => LocalEvent.target_of_reads reads ▸ bound⟩

end MessageCode
