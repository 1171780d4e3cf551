import MessageCode.Proofs.Machine.Discipline
import MessageCode.Proofs.Machine.Mirror

/-!
Splicing. A finished sequence inside larger code, on top of other values and with its locals renumbered,
goes as it goes alone.
-/

namespace MessageCode

open Stateful

theorem Frame.finish_run {left : List Value} {output : Option NativeType}
    (height : left.length = output.toList.length) (locals : List Value) (m : Machine) :
    ∃ result, ((Frame.mk left locals).finish output).run m = (.ok result, m) ∧
      left = result.toList := by
  cases output with
  | none =>
      obtain rfl := List.length_eq_zero_iff.mp height
      exact ⟨none, rfl, rfl⟩
  | some t =>
      obtain ⟨w, rfl⟩ := List.length_eq_one_iff.mp height
      exact ⟨some w, rfl, rfl⟩

/-- Finished code works on top of its inputs. -/
theorem Finished.confined {use : LocalUse} {s : Sequence} {code : List Recorded}
    (h : Finished use s code) (host : Host) (fuel : Nat) :
    Confined host s.inputs.length s.output.toList.length (Op.execAll host fuel s.ops) := by
  obtain ⟨ops, checked⟩ := h.checked
  have confined := checked.confined host fuel
  rwa [List.length_reverse, Recorded.execAll, ← ops] at confined

/-- The renumbered instructions of a sequence end on the frame as the sequence ends alone: with the same
fault, or with its output in place of its inputs and the locals before its own unchanged. -/
def Sequence.RunsAlone (host : Host) (fuel : Nat) (s : Sequence) (offset : Nat)
    (inputs below locals : List Value) (m : Machine) : Prop :=
  Alike (Op.execAll host fuel (Op.relocateAll offset s.ops) ⟨inputs.reverse ++ below, locals⟩)
    (s.runOn host fuel inputs) m fun frame result _ =>
      frame.stack = result.toList ++ below ∧ frame.locals.length = locals.length ∧
        ∀ i, i < offset → frame.locals[i]? = locals[i]?

/-- Finished code goes as it goes alone, if the slots that it may use at the start are null. -/
theorem Finished.runsAlone {use : LocalUse} {s : Sequence} {code : List Recorded}
    (h : Finished use s code) {trust : Trust} (earned : trust.Earned)
    (covered : ∀ trace, Path code trace → Along (Covered trust s.maxLocals) [] trace) (host : Host)
    (fuel : Nat) {offset : Nat} {inputs : List Value} (count : inputs.length = s.inputs.length)
    (below : List Value) {locals : List Value} (room : offset + s.maxLocals ≤ locals.length)
    (null : ∀ i, trust [] i → i < s.maxLocals ∧ locals[i + offset]? = some .null) (m : Machine) :
    s.RunsAlone host fuel offset inputs below locals m := by
  let fresh := List.replicate s.maxLocals Value.null
  have alone : fresh.length = s.maxLocals := List.length_replicate
  have same : ∀ i, trust [] i → locals[i + offset]? = fresh[i]? := by
    intro i use
    obtain ⟨bound, slot⟩ := null i use
    rw [slot, List.getElem?_replicate_of_lt bound]
  have confined := h.confined host fuel
  have inputsHeight : (Frame.mk inputs.reverse fresh).stack.length = s.inputs.length := by
    rw [List.length_reverse, count]
  have relocated := h.relocated earned covered host fuel (inputs.reverse ++ below) alone room same m
  have above : Op.execAll host fuel s.ops ⟨inputs.reverse ++ below, fresh⟩ = _ :=
    confined.above inputsHeight below
  rw [above] at relocated
  -- Without the values below, the code leaves the output of the sequence and nothing else.
  have height : ∀ frame m', (Op.execAll host fuel s.ops ⟨inputs.reverse, fresh⟩).run m =
      (.ok frame, m') → frame.stack.length = s.output.toList.length :=
    fun _ _ run => confined.height inputsHeight run
  unfold Sequence.RunsAlone Sequence.runOn
  rw [if_neg (not_not.mpr count)]
  refine (relocated.of_map.also height).after ?_
  rintro frame' ⟨left, locals'⟩ m' ⟨⟨stack, length, before⟩, height⟩
  obtain ⟨result, finish, rfl⟩ := Frame.finish_run height locals' m'
  exact ⟨result, finish, stack, length, before⟩

/-- Code that stores to locals before it uses their values goes as it goes alone, whatever the slots
hold that are taken for it. -/
theorem Finished.runsAlone_of_storesFirst {use : LocalUse} {s : Sequence} {code : List Recorded}
    (h : Finished use s code) (stores : StoresFirst s.maxLocals code) (host : Host) (fuel : Nat)
    {offset : Nat} {inputs : List Value} (count : inputs.length = s.inputs.length)
    (below : List Value) {locals : List Value} (room : offset + s.maxLocals ≤ locals.length)
    (m : Machine) : s.RunsAlone host fuel offset inputs below locals m := by
  refine h.runsAlone Trust.stored_earned stores host fuel count below room ?_ m
  rintro i ⟨l, -, mem⟩
  cases mem

/-- Appending a finished sequence keeps its meaning: where the spliced code is reached with the slots
that are not in use set to null, it ends as the sequence ends alone, and it leaves the values below its
inputs and the locals in use as they are. -/
theorem Finished.append_keeps_meaning {use : LocalUse} {s : Sequence} {code : List Recorded}
    (h : Finished use s code) (own : UsesOwn code) {a a' : Assembly}
    (appended : (Assembler.append s : Assembler EmitError Unit).run a = (.ok (), a'))
    (host : Host) (fuel : Nat) {inputs : List Value} (count : inputs.length = s.inputs.length)
    (below : List Value) {locals : List Value} (room : a'.maxLocals ≤ locals.length)
    (null : ∀ i v, a.nextLocal ≤ i → locals[i]? = some v → v = .null) (m : Machine) :
    a'.ops = a.ops ++ Op.relocateAll a.nextLocal s.ops ∧
      s.RunsAlone host fuel a.nextLocal inputs below locals m := by
  obtain ⟨found, rest, -, -, rfl⟩ := Assembler.append_eq_ok.mp appended
  have room : a.nextLocal + s.maxLocals ≤ locals.length := (le_max_right ..).trans room
  refine ⟨rfl, h.runsAlone (Trust.slots_earned _) (h.usesSlots own) host fuel count below room ?_ m⟩
  intro i bound
  have inRange : i + a.nextLocal < locals.length := by
    have bound : i < s.maxLocals := bound
    omega
  have slot := List.getElem?_eq_getElem inRange
  exact ⟨bound, slot.trans (congrArg _ (null _ _ (Nat.le_add_left ..) slot))⟩

def Sequence.unset : Local := ⟨0, .ref .object⟩

def Sequence.blank : Sequence :=
  { ops := [.load unset, .branch .isNull [.push (.int 1)] [.push (.int 2)]]
    inputs := []
    output := some .int
    nonNull := true
    maxLocals := 1 }

def Sequence.blankRecord : List Recorded :=
  [.declare unset, .plain [] (.load unset),
    .branch [.ref .object] .isNull [.plain [] (.push (.int 1))] [.plain [] (.push (.int 2))]]

theorem Sequence.blank_finished : Finished .any blank blankRecord := by
  have declared : Assembled .any (.start []) [] [.declare unset] _ [unset] :=
    .declare "unset" (.ref .object) (.start _ _) rfl
  have loaded := declared.call (.load unset) trivial rfl
  have arm : ∀ (a : Assembly) n, a.stack = [] → Assembled .any a.fork [unset]
      [.plain [] (.push (.int n))] (a.fork.put [.push (.int n)] [.int]) [unset] := by
    intro a n empty
    have begun : Assembled .any a.fork [unset] [] a.fork [unset] := .start _ _
    have pushed := begun.call (.push (.int n)) trivial rfl
    rw [Assembly.fork, empty] at pushed ⊢
    exact pushed
  exact ⟨_, _, loaded.branch .isNull rfl (arm _ 1 rfl) (arm _ 2 rfl) rfl, .inl ⟨true, rfl⟩⟩

/-- Appended behind a declared local and above a flag, the sequence finds its own local null. -/
theorem Sequence.blank_keeps_meaning :
    ∃ a', (Assembler.append blank : Assembler EmitError Unit).run
        ((Assembly.start [.bool]).declare ⟨"count", ⟨0, .int⟩⟩) = (.ok (), a') ∧
      a'.maxLocals = 2 ∧
      blank.RunsAlone (.ofSchema ⟨[], [], []⟩) 0 1 [] [.bool true] [.int 5, .null] Machine.start ∧
      ((blank.runOn (.ofSchema ⟨[], [], []⟩) 0 []).run Machine.start).1 = .ok (some (.int 1)) := by
  have own : UsesOwn blankRecord := by
    rintro e mem -
    rcases List.mem_cons.mp mem with rfl | mem
    · exact List.mem_cons_self
    · cases List.mem_singleton.mp mem
      exact List.mem_cons_self
  have null : ∀ i v, 1 ≤ i → ([.int 5, .null] : List Value)[i]? = some v → v = .null := by
    rintro (_ | _ | _ | i) v le slot
    · cases le
    · cases slot
      rfl
    · cases slot
    · cases slot
  have appended : (Assembler.append blank : Assembler EmitError Unit).run
      ((Assembly.start [.bool]).declare ⟨"count", ⟨0, .int⟩⟩) = (.ok (), _) := rfl
  obtain ⟨-, alone⟩ := Finished.append_keeps_meaning blank_finished own appended
    (.ofSchema ⟨[], [], []⟩) 0 (List.length_nil (α := Value)) [.bool true] (le_refl 2) null Machine.start
  exact ⟨_, appended, rfl, alone, rfl⟩

end MessageCode
