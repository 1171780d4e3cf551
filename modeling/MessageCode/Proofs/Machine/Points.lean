import MessageCode.Proofs.Code.Recorded
import MessageCode.Proofs.Machine.Exec

/-!
The points of a run: what is still to be run of the code of a region, and the frame and the machine
at that point.
-/

namespace MessageCode

/-- A point between two instructions of a region. -/
structure Point where
  code : List Recorded
  frame : Frame
  machine : Machine

namespace Recorded

def exec (host : Host) (fuel : Nat) (r : Recorded) : Frame → Run Frame :=
  Op.execAll host fuel r.op?.toList

def execAll (host : Host) (fuel : Nat) (code : List Recorded) : Frame → Run Frame :=
  Op.execAll host fuel (ops code)

theorem execAll_nil (host : Host) (fuel : Nat) : execAll host fuel [] = pure := rfl

theorem execAll_cons (host : Host) (fuel : Nat) (r : Recorded) (rest : List Recorded) :
    execAll host fuel (r :: rest) = fun frame => r.exec host fuel frame >>= execAll host fuel rest :=
  funext (Op.execAll_append host fuel _ _)

@[simp] theorem execAll_singleton (host : Host) (fuel : Nat) (r : Recorded) :
    execAll host fuel [r] = r.exec host fuel := by
  rw [execAll_cons, execAll_nil]
  exact funext fun frame => bind_pure _

section

variable (host : Host) (fuel : Nat)

theorem exec_plain (before : List NativeType) (op : Op) :
    (plain before op).exec host fuel = op.exec host fuel :=
  funext (Op.execAll_singleton host fuel op)

theorem exec_declare (l : Local) : (declare l).exec host fuel = pure := rfl

theorem exec_branch (before : List NativeType) (test : Test) (thenCode elseCode : List Recorded) :
    (branch before test thenCode elseCode).exec host fuel =
      Op.choose test (execAll host fuel thenCode) (execAll host fuel elseCode) :=
  funext (Op.execAll_singleton host fuel _)

theorem exec_loop (before : List NativeType) (condition : List Recorded) (test : Test)
    (body : List Recorded) :
    (loop before condition test body).exec host fuel =
      Op.rounds host fuel (ops condition) test (ops body) fuel := by
  rw [← Op.exec_loop]
  exact funext (Op.execAll_singleton host fuel _)

theorem exec_scope (before : List NativeType) (locals : List Declaration) (body : List Recorded) :
    (scope before locals body).exec host fuel = fun frame =>
      execAll host fuel body frame >>= fun frame => Run.ofExcept (frame.release locals) :=
  funext (Op.execAll_singleton host fuel _)

end

end Recorded

/-- The points that running code comes to, in the regions that it enters too. Loops go round any
number of times. -/
inductive Reaches (host : Host) (fuel : Nat) : List Recorded → Frame → Machine → Point → Prop
  | here (code frame m) : Reaches host fuel code frame m ⟨code, frame, m⟩
  | next {r rest frame m frame' m' p} : (r.exec host fuel frame).run m = (.ok frame', m') →
      Reaches host fuel rest frame' m' p → Reaches host fuel (r :: rest) frame m p
  | thenArm {before test thenCode elseCode rest frame frame' m p} :
      test.eval frame = .ok (true, frame') → Reaches host fuel thenCode frame' m p →
      Reaches host fuel (.branch before test thenCode elseCode :: rest) frame m p
  | elseArm {before test thenCode elseCode rest frame frame' m p} :
      test.eval frame = .ok (false, frame') → Reaches host fuel elseCode frame' m p →
      Reaches host fuel (.branch before test thenCode elseCode :: rest) frame m p
  | condition {before condition test body rest frame m p} :
      Reaches host fuel condition frame m p →
      Reaches host fuel (.loop before condition test body :: rest) frame m p
  | body {before condition test body rest frame m frame₁ m₁ frame₂ p} :
      (Recorded.execAll host fuel condition frame).run m = (.ok frame₁, m₁) →
      test.eval frame₁ = .ok (true, frame₂) → Reaches host fuel body frame₂ m₁ p →
      Reaches host fuel (.loop before condition test body :: rest) frame m p
  | round {before condition test body rest frame m frame₁ m₁ frame₂ frame₃ m₃ p} :
      (Recorded.execAll host fuel condition frame).run m = (.ok frame₁, m₁) →
      test.eval frame₁ = .ok (true, frame₂) →
      (Recorded.execAll host fuel body frame₂).run m₁ = (.ok frame₃, m₃) →
      Reaches host fuel (.loop before condition test body :: rest) frame₃ m₃ p →
      Reaches host fuel (.loop before condition test body :: rest) frame m p
  | scope {before locals body rest frame m p} : Reaches host fuel body frame m p →
      Reaches host fuel (.scope before locals body :: rest) frame m p

end MessageCode
