import MessageCode.Proofs.Code.Labels
import MessageCode.Proofs.Machine.Mirror

/-!
Running flat code: line after line, with jumps to the positions of labels and without regions. What the
listing of a sequence says to do is what the sequence does, step for step.
-/

namespace MessageCode

open Stateful

/-- Whether the condition that the mnemonic of a jump names holds of operands, given topmost first. -/
def Line.condition (mnemonic : String) (operands : List Value) : Bool :=
  match mnemonic, operands with
  | "ifnull", [v] => v.isNull
  | "ifnonnull", [v] => !v.isNull
  | "ifne", [.bool b] => b
  | "ifeq", [.bool b] => !b
  | "ifeq", [.int n] => n = 0
  | "ifne", [.int n] => n ≠ 0
  | "if_icmpeq", [.int b, .int a] => a = b
  | "if_icmpne", [.int b, .int a] => a ≠ b
  | "if_icmplt", [.int b, .int a] => a < b
  | "if_icmpge", [.int b, .int a] => a ≥ b
  | _, _ => false

def Test.take (test : Test) (frame : Frame) : Except Fault (List Value × Frame) :=
  (test.eval frame).map fun tested => (frame.stack.take test.operands.length, tested.2)

theorem Test.take_eq {test : Test} {frame rest : Frame} {holds : Bool}
    (eval : test.eval frame = .ok (holds, rest)) :
    ∃ operands, test.take frame = .ok (operands, rest) ∧
      Line.condition test.mnemonic operands = holds ∧
      Line.condition test.inverseMnemonic operands = !holds := by
  refine ⟨frame.stack.take test.operands.length, by rw [take, eval]; rfl, ?_⟩
  rcases frame with ⟨_ | ⟨v, _ | ⟨w, stack⟩⟩, locals⟩
  · cases test <;> cases eval
  · cases test with
    | isNull | nonNull =>
        cases eval
        simp [Line.condition, mnemonic, inverseMnemonic, operands]
    | isTrue | isZero =>
        cases v <;> cases eval
        simp [Line.condition, mnemonic, inverseMnemonic, operands]
    | intEq | intLt => cases eval
  · cases test with
    | isNull | nonNull =>
        cases eval
        simp [Line.condition, mnemonic, inverseMnemonic, operands]
    | isTrue | isZero =>
        cases v <;> cases eval
        simp [Line.condition, mnemonic, inverseMnemonic, operands]
    | intEq | intLt =>
        cases v <;> cases w <;> cases eval
        simp [Line.condition, mnemonic, inverseMnemonic, operands, ← Int32.not_lt]

theorem Test.take_error {test : Test} {frame : Frame} {f : Fault} (eval : test.eval frame = .error f) :
    test.take frame = .error f := by
  rw [take, eval]
  rfl

namespace Flat

def goTo (program : List Line) (label : Nat) : Except Fault (List Line) :=
  match Line.seek label program with
  | some lines => .ok lines
  | none => .error (.illegalArgument ("no label " ++ labelText label))

/-- Takes the operands of a test and jumps when the condition that the mnemonic names holds of them. -/
def jump (program : List Line) (test : Test) (mnemonic : String) (label : Nat) (rest : List Line)
    (frame : Frame) : Except Fault (List Line × Frame) := do
  let (operands, frame) ← test.take frame
  if Line.condition mnemonic operands then return (← goTo program label, frame)
  else return (rest, frame)

/-- Carries out a line before others; gives the lines where the run goes on. -/
def step (host : Host) (program : List Line) (frame : Frame) (rest : List Line) :
    Line → Run (List Line × Frame)
  | .plain op => do
      return (rest, ← op.exec host 0 frame)
  | .jumpIf test label => Run.ofExcept (jump program test test.mnemonic label rest frame)
  | .jumpUnless test label => Run.ofExcept (jump program test test.inverseMnemonic label rest frame)
  | .jump label => do
      return (← Run.ofExcept (goTo program label), frame)
  | .mark _ | .declare _ => return (rest, frame)
  | .release d => do
      return (rest, ← Run.ofExcept (frame.setLocal d.slot .null))

def run (host : Host) (program : List Line) : Nat → List Line → Frame → Run Frame
  | _, [], frame => return frame
  | 0, _ :: _, _ => throw .outOfFuel
  | steps + 1, line :: rest, frame => do
      let (next, frame) ← step host program frame rest line
      run host program steps next frame

variable {host : Host} {program : List Line}

theorem run_nil (steps : Nat) (frame : Frame) : run host program steps [] frame = pure frame := by
  cases steps <;> rfl

/-- A run that has ended ends in the same way within more steps. -/
theorem run_mono {steps more : Nat} (le : steps ≤ more) {lines : List Line} {frame : Frame}
    {m m' : Machine} {outcome : Except Stop Frame}
    (ran : (run host program steps lines frame).run m = (outcome, m'))
    (ended : outcome ≠ .error .outOfFuel) :
    (run host program more lines frame).run m = (outcome, m') := by
  induction steps generalizing more lines frame m with
  | zero =>
      cases lines with
      | nil =>
          rw [run_nil] at ran ⊢
          exact ran
      | cons line rest =>
          cases ran
          exact absurd rfl ended
  | succ steps ih =>
      obtain ⟨more, rfl⟩ := Nat.exists_eq_add_of_le le
      rw [Nat.add_right_comm]
      cases lines with
      | nil => exact ran
      | cons line rest =>
          rw [run] at ran ⊢
          rcases stepped : (step host program frame rest line).run m with ⟨e | ⟨next, frame⟩, m₁⟩
          · rw [Stateful.run_bind_error stepped] at ran ⊢
            exact ran
          · rw [Stateful.run_bind_ok stepped] at ran ⊢
            exact ih (Nat.le_add_right ..) ran

theorem run_running {steps more : Nat} (le : steps ≤ more) {lines : List Line} {frame : Frame}
    {m m' : Machine} (running : (run host program more lines frame).run m = (.error .outOfFuel, m')) :
    ∃ m', (run host program steps lines frame).run m = (.error .outOfFuel, m') := by
  rcases ran : (run host program steps lines frame).run m with ⟨outcome, m₁⟩
  by_cases ended : outcome = .error .outOfFuel
  · exact ⟨m₁, by rw [ended]⟩
  · rw [run_mono le ran ended] at running
    cases running
    exact absurd rfl ended

/-- Lines do what a part of structured code does: from them the run comes to the lines after them with
the same frame, faults in the same way, or takes more steps than the bound while the code runs out of its
fuel. -/
structure Follows (host : Host) (program : List Line) (bound : Nat) (part : Run Frame) (m : Machine)
    (lines : List Line) (frame : Frame) (after : List Line) : Prop where
  goes : ∀ frame' m', part.run m = (.ok frame', m') → ∃ n, ∀ steps,
    (run host program (n + steps) lines frame).run m = (run host program steps after frame').run m'
  stops : ∀ f m', part.run m = (.error (.fault f), m') →
    ∃ n, (run host program n lines frame).run m = (.error (.fault f), m')
  stays : ∀ m', part.run m = (.error .outOfFuel, m') →
    ∃ m', (run host program bound lines frame).run m = (.error .outOfFuel, m')

namespace Follows

variable {bound : Nat} {part : Run Frame} {m : Machine} {lines middle after : List Line}
  {frame frame' : Frame}

theorem nothing : Follows host program bound (pure frame) m lines frame lines where
  goes frame' m' ran := by
    cases ran
    exact ⟨0, fun steps => by rw [Nat.zero_add]⟩
  stops f m' ran := by cases ran
  stays m' ran := by cases ran

theorem ahead {n : Nat} (passes : ∀ steps, run host program (n + steps) lines frame =
    run host program steps middle frame') (h : Follows host program bound part m middle frame' after) :
    Follows host program (n + bound) part m lines frame after where
  goes frame'' m' ran := by
    obtain ⟨k, goes⟩ := h.goes frame'' m' ran
    exact ⟨n + k, fun steps => by rw [Nat.add_assoc, passes, goes]⟩
  stops f m' ran := by
    obtain ⟨k, stop⟩ := h.stops f m' ran
    exact ⟨n + k, by rw [passes, stop]⟩
  stays m' ran := by
    obtain ⟨m', running⟩ := h.stays m' ran
    exact ⟨m', by rw [passes, running]⟩

theorem mono {less : Nat} (h : Follows host program bound part m lines frame after) (le : less ≤ bound) :
    Follows host program less part m lines frame after where
  goes := h.goes
  stops := h.stops
  stays m' ran := by
    obtain ⟨m', running⟩ := h.stays m' ran
    exact run_running le running

theorem bind {next : Frame → Run Frame} (h : Follows host program bound part m lines frame middle)
    (h' : ∀ frame' m', part.run m = (.ok frame', m') →
      Follows host program bound (next frame') m' middle frame' after) :
    Follows host program bound (part >>= next) m lines frame after where
  goes frame'' m'' ran := by
    obtain ⟨frame', m', first, second⟩ := Stateful.bind_eq_ok.mp ran
    obtain ⟨n, goes⟩ := h.goes frame' m' first
    obtain ⟨k, goes'⟩ := (h' frame' m' first).goes frame'' m'' second
    exact ⟨n + k, fun steps => by rw [Nat.add_assoc, goes, goes']⟩
  stops f m'' ran := by
    rcases Stateful.bind_eq_error.mp ran with first | ⟨frame', m', first, second⟩
    · exact h.stops f m'' first
    · obtain ⟨n, goes⟩ := h.goes frame' m' first
      obtain ⟨k, stop⟩ := (h' frame' m' first).stops f m'' second
      exact ⟨n + k, by rw [goes, stop]⟩
  stays m'' ran := by
    rcases Stateful.bind_eq_error.mp ran with first | ⟨frame', m', first, second⟩
    · exact h.stays m'' first
    · obtain ⟨n, goes⟩ := h.goes frame' m' first
      obtain ⟨m'', running⟩ := (h' frame' m' first).stays m'' second
      rw [← goes] at running
      exact run_running (Nat.le_add_left ..) running

theorem behind {n : Nat} (h : Follows host program bound part m lines frame middle)
    (passes : ∀ frame steps, run host program (n + steps) middle frame =
      run host program steps after frame) : Follows host program bound part m lines frame after := by
  have passed : Follows host program bound (part >>= pure) m lines frame after := by
    refine h.bind fun frame' m' _ => ?_
    have rest : Follows host program bound (pure frame') m' after frame' after := nothing
    exact (rest.ahead (passes frame')).mono (Nat.le_add_left ..)
  rwa [bind_pure] at passed

theorem line {line : Line} (steps : step host program frame after line = part >>= fun frame' =>
    pure (after, frame')) : Follows host program bound part m (line :: after) frame after where
  goes frame' m' ran := by
    refine ⟨1, fun count => ?_⟩
    rw [Nat.add_comm, run, steps, bind_assoc, Stateful.run_bind_ok ran, pure_bind]
  stops f m' ran := ⟨1, by rw [run, steps, bind_assoc, Stateful.run_bind_error ran]⟩
  stays m' ran := by
    cases bound with
    | zero => exact ⟨m, rfl⟩
    | succ bound => exact ⟨m', by rw [run, steps, bind_assoc, Stateful.run_bind_error ran]⟩

theorem choose {line : Line} {rest ahead aside : List Line} {test : Test}
    {thenPart elsePart : Frame → Run Frame}
    (decides : ∀ holds frame', test.eval frame = .ok (holds, frame') →
      step host program frame rest line = pure (if holds then ahead else aside, frame'))
    (faults : ∀ f, test.eval frame = .error f → step host program frame rest line = Run.fault f)
    (h : ∀ frame', Follows host program bound (thenPart frame') m ahead frame' after)
    (h' : ∀ frame', Follows host program bound (elsePart frame') m aside frame' after) :
    Follows host program bound (Op.choose test thenPart elsePart frame) m (line :: rest) frame after := by
  have passes {holds : Bool} {frame' : Frame} (eval : test.eval frame = .ok (holds, frame'))
      (steps : Nat) : run host program (1 + steps) (line :: rest) frame =
        run host program steps (if holds then ahead else aside) frame' := by
    rw [Nat.add_comm, run, decides holds frame' eval, pure_bind]
  rw [Op.choose]
  cases eval : test.eval frame with
  | error f =>
      refine ⟨?_, ?_, ?_⟩
      · intro frame' m' ran
        cases ran
      · intro f' m' ran
        cases ran
        exact ⟨1, by rw [run, faults f eval]; rfl⟩
      · intro m' ran
        cases ran
  | ok tested =>
      obtain ⟨holds, frame'⟩ := tested
      cases holds with
      | true => exact ((h frame').ahead (passes eval)).mono (Nat.le_add_left ..)
      | false => exact ((h' frame').ahead (passes eval)).mono (Nat.le_add_left ..)

end Follows

section Steps

variable {test : Test} {label : Nat} {lines rest : List Line} {frame frame' : Frame} {holds : Bool}

theorem goTo_eq (found : Line.seek label program = some lines) : goTo program label = .ok lines := by
  rw [goTo, found]

theorem jump_eq {operands : List Value} {mnemonic : String} (found : Line.seek label program = some lines)
    (taken : test.take frame = .ok (operands, frame')) :
    jump program test mnemonic label rest frame =
      .ok (if Line.condition mnemonic operands then lines else rest, frame') := by
  unfold jump
  rw [taken, goTo_eq found]
  dsimp only [bind, Except.bind]
  split <;> rfl

theorem jump_error {f : Fault} (eval : test.eval frame = .error f) (mnemonic : String) :
    jump program test mnemonic label rest frame = .error f := by
  unfold jump
  rw [Test.take_error eval]
  rfl

theorem step_jumpIf (found : Line.seek label program = some lines)
    (eval : test.eval frame = .ok (holds, frame')) :
    step host program frame rest (.jumpIf test label) = pure (if holds then lines else rest, frame') := by
  obtain ⟨operands, taken, condition, -⟩ := Test.take_eq eval
  rw [step, jump_eq found taken, condition]
  rfl

theorem step_jumpUnless (found : Line.seek label program = some lines)
    (eval : test.eval frame = .ok (holds, frame')) :
    step host program frame rest (.jumpUnless test label) =
      pure (if holds then rest else lines, frame') := by
  obtain ⟨operands, taken, -, condition⟩ := Test.take_eq eval
  rw [step, jump_eq found taken, condition]
  cases holds <;> rfl

theorem run_mark (steps : Nat) : run host program (1 + steps) (.mark label :: rest) frame =
    run host program steps rest frame := by
  rw [Nat.add_comm, run]
  rfl

theorem run_jump (found : Line.seek label program = some lines) (steps : Nat) :
    run host program (1 + steps) (.jump label :: rest) frame = run host program steps lines frame := by
  rw [Nat.add_comm, run, step, goTo_eq found]
  rfl

theorem run_declares (locals : List Declaration) (steps : Nat) :
    run host program (locals.length + steps) (locals.map .declare ++ rest) frame =
      run host program steps rest frame := by
  induction locals with
  | nil => rw [List.length_nil, Nat.zero_add, List.map_nil, List.nil_append]
  | cons d locals ih =>
      rw [List.length_cons, Nat.add_right_comm, List.map_cons, List.cons_append, run]
      exact ih

end Steps

theorem follows_release (bound : Nat) (m : Machine) (locals : List Declaration) (frame : Frame)
    (after : List Line) : Follows host program bound (Run.ofExcept (frame.release locals)) m
      (locals.map .release ++ after) frame after := by
  induction locals generalizing frame m with
  | nil => exact .nothing
  | cons d locals ih =>
      have released : Run.ofExcept (frame.release (d :: locals)) = _ :=
        congrFun (Frame.release_cons d locals) frame
      rw [released, List.map_cons, List.cons_append]
      exact (Follows.line rfl).bind fun frame' m' _ => ih m' frame'

/-- The line of an instruction without regions does what the instruction does, for fuel bounds loops
only. -/
theorem follows_plain {op : Op} (plain : op.isPlain = true) (fuel bound : Nat) (m : Machine) (frame : Frame)
    (after : List Line) :
    Follows host program bound (op.exec host fuel frame) m (.plain op :: after) frame after := by
  have same : op.exec host fuel frame = op.exec host 0 frame := by
    cases op <;> first | rfl | cases plain
  rw [same]
  exact .line rfl

/-- The lines of a loop do what its rounds do. Every round takes a step at least, so that a run that is short
of rounds is short of steps. -/
theorem follows_rounds {fuel : Nat} {condition body : List Op} {test : Test} {head last : Nat}
    {lines inside rest after : List Line} (back : Line.seek head program = some (.mark head :: lines))
    (out : Line.seek last program = some (.mark last :: after))
    (tests : ∀ frame m, Follows host program fuel (Op.execAll host fuel condition frame) m lines frame
      (.jumpUnless test last :: inside))
    (goesOn : ∀ frame m, Follows host program fuel (Op.execAll host fuel body frame) m inside frame
      (.jump head :: rest)) {bound : Nat} (le : bound ≤ fuel) (frame : Frame) (m : Machine) :
    Follows host program bound (Op.rounds host fuel condition test body bound frame) m (.mark head :: lines)
      frame after := by
  induction bound generalizing frame m with
  | zero =>
      refine ⟨?_, ?_, fun _ _ => ⟨m, rfl⟩⟩
      · intro frame' m' ran
        cases ran
      · intro f m' ran
        cases ran
  | succ bound ih =>
      have le := Nat.le_of_succ_le le
      rw [Op.rounds, Nat.add_comm]
      refine .ahead run_mark (((tests frame m).mono le).bind ?_)
      intro frame' m' _
      refine .choose (fun _ _ eval => step_jumpUnless out eval) ?_ ?_ ?_
      · intro f eval
        rw [step, jump_error eval]
        rfl
      · intro frame'
        refine ((goesOn frame' m').mono le).bind ?_
        intro frame'' m'' _
        exact ((ih le frame'' m'').ahead (run_jump back)).mono (Nat.le_add_left ..)
      · intro frame'
        exact (Follows.nothing.ahead run_mark).mono (Nat.le_add_left ..)

end Flat

namespace Op

variable {host : Host} {program : List Line}

mutual

/-- The flat code of an instruction, anywhere in a program that marks no label twice, does what the
instruction does. -/
theorem flatten_follows (once : (Line.marks program).Nodup) (fuel : Nat) : ∀ (op : Op) (free : Nat)
    (after : List Line), ((op.flatten free).1 ++ after) <:+ program → ∀ frame m,
      Flat.Follows host program fuel (op.exec host fuel frame) m ((op.flatten free).1 ++ after) frame after
  | .branch test thenOps elseOps, free, after, suffix => by
      intro frame m
      rw [flatten] at suffix ⊢
      simp only [List.cons_append, List.append_assoc, List.nil_append] at suffix ⊢
      have elsePart := (List.suffix_cons ..).trans suffix
      have thenMark := (List.suffix_cons ..).trans ((List.suffix_append ..).trans elsePart)
      have thenPart := (List.suffix_cons ..).trans thenMark
      have last := (List.suffix_append ..).trans thenPart
      rw [exec_branch]
      refine .choose (fun _ _ eval => Flat.step_jumpIf (Line.seek_suffix once thenMark) eval) ?_ ?_ ?_
      · intro f eval
        rw [Flat.step, Flat.jump_error eval]
        rfl
      · intro frame'
        have arm := flattenAll_follows once fuel thenOps _ _ thenPart frame' m
        exact ((arm.behind fun _ => Flat.run_mark).ahead Flat.run_mark).mono (Nat.le_add_left ..)
      · intro frame'
        have arm := flattenAll_follows once fuel elseOps _ _ elsePart frame' m
        exact (arm.behind fun _ => Flat.run_jump (Line.seek_suffix once last)).behind
          fun _ => Flat.run_mark
  | .loop condition test body, free, after, suffix => by
      intro frame m
      rw [flatten] at suffix ⊢
      simp only [List.cons_append, List.append_assoc, List.nil_append] at suffix ⊢
      have conditionPart := (List.suffix_cons ..).trans suffix
      have bodyPart := (List.suffix_cons ..).trans ((List.suffix_append ..).trans conditionPart)
      have last := (List.suffix_cons ..).trans ((List.suffix_append ..).trans bodyPart)
      rw [exec_loop]
      exact Flat.follows_rounds (Line.seek_suffix once suffix) (Line.seek_suffix once last)
        (flattenAll_follows once fuel condition _ _ conditionPart)
        (flattenAll_follows once fuel body _ _ bodyPart) le_rfl frame m
  | .scope locals body, free, after, suffix => by
      intro frame m
      rw [flatten] at suffix ⊢
      simp only [List.append_assoc] at suffix ⊢
      have bodyPart := (List.suffix_append ..).trans suffix
      refine Flat.Follows.mono (Flat.Follows.ahead (Flat.run_declares locals) ?_) (Nat.le_add_left ..)
      refine (flattenAll_follows once fuel body _ _ bodyPart frame m).bind fun frame' m' _ => ?_
      exact Flat.follows_release fuel m' locals frame' after
  | .push _, _, after, _ | .dup, _, after, _ | .pop, _, after, _ | .swap, _, after, _
  | .load _, _, after, _ | .store _, _, after, _ | .increment .., _, after, _
  | .invoke _, _, after, _ | .suspend _, _, after, _ | .getStatic _, _, after, _
  | .convert .., _, after, _ | .checkCast _, _, after, _ | .box _, _, after, _ =>
      fun frame m => Flat.follows_plain rfl fuel fuel m frame after

theorem flattenAll_follows (once : (Line.marks program).Nodup) (fuel : Nat) : ∀ (ops : List Op)
    (free : Nat) (after : List Line), ((flattenAll free ops).1 ++ after) <:+ program → ∀ frame m,
      Flat.Follows host program fuel (execAll host fuel ops frame) m ((flattenAll free ops).1 ++ after)
        frame after
  | [], _, _, _ => fun _ _ => .nothing
  | op :: rest, free, after, suffix => by
      intro frame m
      rw [flattenAll, List.append_assoc] at suffix ⊢
      refine (flatten_follows once fuel op free _ suffix frame m).bind fun frame' m' _ => ?_
      exact flattenAll_follows once fuel rest _ after ((List.suffix_append ..).trans suffix) frame' m'

end

end Op

/-- A run that never ends, if another that ends in the same ways never does. -/
theorem Flat.stays_of {run other : Nat → Run Frame} {m : Machine}
    (ends : ∀ outcome m', outcome ≠ .error .outOfFuel → (∃ n, (run n).run m = (outcome, m')) →
      ∃ n, (other n).run m = (outcome, m'))
    (spent : ∀ n, ∃ m', (other n).run m = (.error .outOfFuel, m')) (n : Nat) :
    ∃ m', (run n).run m = (.error .outOfFuel, m') := by
  rcases ran : (run n).run m with ⟨outcome, m'⟩
  by_cases ended : outcome = .error .outOfFuel
  · exact ⟨m', by rw [ended]⟩
  · obtain ⟨k, ran⟩ := ends outcome m' ended ⟨n, ran⟩
    obtain ⟨m'', spent⟩ := spent k
    rw [spent] at ran
    cases ran
    exact absurd rfl ended

namespace Flat.Follows

variable {host : Host} {program : List Line} {part : Nat → Run Frame} {m m' : Machine} {frame : Frame}
  {outcome : Except Stop Frame}

/-- Lines that follow code up to any bound end as the code ends within some fuel. -/
theorem ends_iff (h : ∀ bound, Follows host program bound (part bound) m program frame [])
    (ended : outcome ≠ .error .outOfFuel) :
    (∃ fuel, (part fuel).run m = (outcome, m')) ↔
      ∃ steps, (Flat.run host program steps program frame).run m = (outcome, m') := by
  have reaches {fuel : Nat} {outcome : Except Stop Frame} {m' : Machine}
      (ran : (part fuel).run m = (outcome, m')) (ended : outcome ≠ .error .outOfFuel) :
      ∃ steps, (Flat.run host program steps program frame).run m = (outcome, m') := by
    rcases outcome with (f | _) | frame'
    · exact (h fuel).stops f m' ran
    · exact absurd rfl ended
    · obtain ⟨n, goes⟩ := (h fuel).goes frame' m' ran
      exact ⟨n + 0, by rw [goes, run_nil]; rfl⟩
  constructor
  · rintro ⟨fuel, ran⟩
    exact reaches ran ended
  · rintro ⟨steps, ran⟩
    -- With as much fuel as there are steps the code ends, since it would stay for as many steps.
    rcases other : (part steps).run m with ⟨outcome', m''⟩
    have ended' : outcome' ≠ .error .outOfFuel := by
      rintro rfl
      obtain ⟨_, stays⟩ := (h steps).stays m'' other
      rw [ran] at stays
      cases stays
      exact ended rfl
    obtain ⟨steps', ran'⟩ := reaches other ended'
    have same := run_mono (Nat.le_max_left steps steps') ran ended
    rw [run_mono (Nat.le_max_right steps steps') ran' ended'] at same
    cases same
    exact ⟨steps, other⟩

end Flat.Follows

/-- The listing of a sequence has the meaning of the sequence: with `k` branches and loops in it at any
depth it marks the labels below `2 * k`, each of them once, jumps to no others, and has no regions left; and
from every frame, with every host, its lines end with a frame or a fault exactly when the instructions do,
with the same one, and take any number of steps exactly when the instructions use up any fuel. -/
theorem Sequence.lines_correct (s : Sequence) :
    (Line.marks s.lines).Perm (List.range (2 * Op.forksAll s.ops)) ∧
    (∀ line ∈ s.lines, ∀ label, line.target? = some label → Line.mark label ∈ s.lines) ∧
    (∀ op, Line.plain op ∈ s.lines → op.isPlain = true) ∧
    ∀ host frame (m : Machine),
      (∀ outcome m', outcome ≠ .error .outOfFuel →
        ((∃ fuel, (Op.execAll host fuel s.ops frame).run m = (outcome, m')) ↔
          ∃ steps, (Flat.run host s.lines steps s.lines frame).run m = (outcome, m'))) ∧
      ((∀ fuel, ∃ m', (Op.execAll host fuel s.ops frame).run m = (.error .outOfFuel, m')) ↔
        ∀ steps, ∃ m', (Flat.run host s.lines steps s.lines frame).run m = (.error .outOfFuel, m')) := by
  obtain ⟨-, labelled⟩ := Op.flattenAll_labelled 0 s.ops
  have marks : (Line.marks s.lines).Perm (List.range (2 * Op.forksAll s.ops)) := by
    rw [List.range_eq_range']
    exact labelled.marks
  have once : (Line.marks s.lines).Nodup := marks.nodup_iff.mpr List.nodup_range
  refine ⟨marks, labelled.targets, labelled.plain, fun host frame m => ?_⟩
  have follows (fuel : Nat) : Flat.Follows host s.lines fuel (Op.execAll host fuel s.ops frame) m s.lines
      frame [] := by
    have lines : (Op.flattenAll 0 s.ops).1 ++ [] = s.lines := List.append_nil _
    have suffix : (Op.flattenAll 0 s.ops).1 ++ [] <:+ s.lines := lines ▸ List.suffix_rfl
    have whole : Flat.Follows host s.lines fuel _ m _ frame [] :=
      Op.flattenAll_follows once fuel s.ops 0 [] suffix frame m
    rwa [lines] at whole
  have ends (outcome : Except Stop Frame) (m' : Machine) (ended : outcome ≠ .error .outOfFuel) :
      (∃ fuel, (Op.execAll host fuel s.ops frame).run m = (outcome, m')) ↔
        ∃ steps, (Flat.run host s.lines steps s.lines frame).run m = (outcome, m') :=
    Flat.Follows.ends_iff follows ended
  refine ⟨ends, ?_, ?_⟩
  · exact fun spent => Flat.stays_of (fun outcome m' ended => (ends outcome m' ended).mpr) spent
  · exact fun spent => Flat.stays_of (fun outcome m' ended => (ends outcome m' ended).mp) spent

end MessageCode
