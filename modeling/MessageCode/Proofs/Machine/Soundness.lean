import MessageCode.Proofs.Machine.Sound

/-!
Type soundness. Finished code that uses the values of locals only after it stored to them runs on
values of the types that were tracked: every slot holds a value of its type at every point, and so
does the result, provided that the host keeps to the types of the operations that the code calls.
-/

namespace MessageCode

theorem Sound.cons {host : Host} {fuel size : Nat} {stack next after : List NativeType}
    {r : Recorded} {rest : List Recorded}
    (h : Sound host size r.op?.toList (Path [r]) stack next (r.exec host fuel))
    (h' : Sound host size (Recorded.ops rest) (Path rest) next after
      (Recorded.execAll host fuel rest)) :
    Sound host size (Recorded.ops (r :: rest)) (Path (r :: rest)) stack after
      (Recorded.execAll host fuel (r :: rest)) := by
  rw [Recorded.execAll_cons]
  refine ((h.mono (fun _ => id) (Op.within_append_left _ _)).bind
    (h'.mono (fun _ => id) (Op.within_append_right _ _)) (Path.exists_of_code rest)).mono ?_
    (Op.within_refl _)
  rintro trace ⟨first, second, rfl, path, path'⟩
  exact path.append path'

namespace Checked

variable {host : Host} {fuel size : Nat} {stack after : List NativeType} {code : List Recorded}

/-- Code whose record is consistent keeps to the types of the record. -/
theorem sound (h : Checked stack code after) (honours : host.Honours (Recorded.ops code)) :
    Sound host size (Recorded.ops code) (Path code) stack after
      (Recorded.execAll host fuel code) := by
  induction h with
  | done fits =>
      exact (Sound.pure.widen (.refl _) fits).mono (fun _ => Path.nil_iff.mpr) (Op.within_refl _)
  | plain fits effect _ ih =>
      refine .cons ?_ (ih (honours.mono (Op.within_append_right _ _)))
      rw [Recorded.exec_plain]
      exact ((effect.sound (honours.mono (Op.within_append_left _ _))).widen fits (.refl _)).mono
        (fun _ => Path.plain_iff.mpr) (Op.within_refl _)
  | declare _ ih =>
      refine .cons ?_ (ih (honours.mono (Op.within_append_right _ _)))
      rw [Recorded.exec_declare]
      exact .declare
  | @branch _ _ _ _ _ test thenCode elseCode _ fits operands _ _ _ thenIh elseIh ih =>
      have here := honours.mono (Op.within_append_left _ _)
      have inThen := Op.within_thenOps test (Recorded.ops thenCode) (Recorded.ops elseCode)
      have inElse := Op.within_elseOps test (Recorded.ops thenCode) (Recorded.ops elseCode)
      refine .cons ?_ (ih (honours.mono (Op.within_append_right _ _)))
      rw [Recorded.exec_branch]
      refine ((Sound.choose operands ?_ ?_).widen fits (.refl _)).mono
        (fun _ => Path.branch_iff.mpr) (Op.within_refl _)
      · exact (thenIh (here.mono inThen)).mono (fun _ => id) inThen
      · exact (elseIh (here.mono inElse)).mono (fun _ => id) inElse
  | @loop _ _ _ _ condition test body _ fits _ operands _ _ conditionIh bodyIh ih =>
      have here := honours.mono (Op.within_append_left _ _)
      have inCondition := Op.within_condition (Recorded.ops condition) test (Recorded.ops body)
      have inBody := Op.within_body (Recorded.ops condition) test (Recorded.ops body)
      refine .cons ?_ (ih (honours.mono (Op.within_append_right _ _)))
      rw [Recorded.exec_loop]
      refine (Sound.rounds operands ?_ ?_ _).widen fits (.refl _)
      · exact (conditionIh (here.mono inCondition)).mono (fun _ => id) inCondition
      · exact (bodyIh (here.mono inBody)).mono (fun _ => id) inBody
  | @scope _ _ _ _ locals body _ fits _ _ bodyIh ih =>
      have here := honours.mono (Op.within_append_left _ _)
      have inBody := Op.within_scope locals (Recorded.ops body)
      refine .cons ?_ (ih (honours.mono (Op.within_append_right _ _)))
      rw [Recorded.exec_scope]
      refine (((bodyIh (here.mono inBody)).mono (fun _ => id) inBody).bind (.release _)
        ⟨_, rfl⟩).widen fits (.refl _) |>.mono ?_ (Op.within_refl _)
      rintro trace ⟨first, second, rfl, path, rfl⟩
      exact Path.scope_iff.mpr ⟨first, path, rfl⟩

/-- The node at the head of code keeps to the types of the record. -/
theorem head_sound {next : List NativeType} {r : Recorded} {rest : List Recorded}
    (h : Checked stack [r] next) (honours : host.Honours (Recorded.ops (r :: rest))) :
    Sound host size (Recorded.ops [r]) (Path [r]) stack next (r.exec host fuel) := by
  rw [← Recorded.execAll_singleton]
  refine h.sound (honours.mono ?_)
  rw [Recorded.ops, Recorded.ops, Recorded.ops, List.append_nil]
  exact Op.within_append_left _ _

end Checked

/-- The code can be run on the frame: its record is consistent with the types of the values, the
host keeps to the types that it names, and its paths are secure. -/
def Ready (host : Host) (size : Nat) (code : List Recorded) (frame : Frame) : Prop :=
  ∃ past stack after, Frame.Typed size past stack frame ∧ Checked stack code after ∧
    host.Honours (Recorded.ops code) ∧ ∀ trace, Path code trace → Along (Secure size) past trace

namespace Ready

variable {host : Host} {fuel size : Nat} {rest thenCode elseCode first second : List Recorded}
  {r : Recorded} {before : List NativeType} {test : Test} {locals : List Declaration}
  {frame frame' : Frame} {m m' : Machine}

/-- The first node of ready code can be run alone, and whatever it leaves the rest is ready for. -/
theorem uncons (h : Ready host size (r :: rest) frame) (fuel : Nat) :
    ∃ past stack next, Frame.Typed size past stack frame ∧
      Sound host size (Recorded.ops [r]) (Path [r]) stack next (r.exec host fuel) ∧
      (∀ trace, Path [r] trace → Along (Secure size) past trace) ∧
      ∀ trace frame', Path [r] trace → Frame.Typed size (past ++ trace) next frame' →
        Ready host size rest frame' := by
  obtain ⟨past, stack, after, typed, checked, honours, secure⟩ := h
  obtain ⟨next, head, checked⟩ := checked.uncons
  obtain ⟨other, path'⟩ := Path.exists_of_code rest
  refine ⟨past, stack, next, typed, head.head_sound honours, ?_, ?_⟩
  · exact fun trace path => (along_append.mp (secure _ (path.append path'))).1
  · intro trace frame' path typed
    exact ⟨past ++ trace, next, after, typed, checked,
      honours.mono (Op.within_append_right _ _),
      fun other path' => (along_append.mp (secure _ (path.append path'))).2⟩

theorem next (h : Ready host size (r :: rest) frame)
    (run : (r.exec host fuel frame).run m = (.ok frame', m')) : Ready host size rest frame' := by
  obtain ⟨past, stack, next, typed, sound, secure, ready⟩ := h.uncons fuel
  obtain ⟨trace, path, typed⟩ := sound.typed secure typed run
  exact ready trace frame' path typed

theorem faults (h : Ready host size (r :: rest) frame) {f : Fault}
    (run : (r.exec host fuel frame).run m = (.error (.fault f), m')) :
    host.Admits (Recorded.ops [r]) f := by
  obtain ⟨past, stack, next, typed, sound, secure, -⟩ := h.uncons fuel
  exact sound.faults secure typed run

theorem arm (h : Ready host size (.branch before test thenCode elseCode :: rest) frame) {holds : Bool}
    (tested : test.eval frame = .ok (holds, frame')) :
    Ready host size (if holds then thenCode else elseCode) frame' := by
  obtain ⟨past, stack, after, typed, checked, honours, secure⟩ := h
  have here := honours.mono (Op.within_append_left _ _)
  cases checked with
  | branch fits operands thenChecked elseChecked checked =>
      obtain ⟨b, frame₁, eval, typed⟩ :=
        Frame.Typed.eval ⟨typed.stack.widen fits, typed.locals, typed.size⟩ operands
      cases eval.symm.trans tested
      obtain ⟨other, path'⟩ := Path.exists_of_code rest
      cases holds with
      | true =>
          exact ⟨past, _, _, typed, thenChecked, here.mono (Op.within_thenOps _ _ _),
            fun trace path => (along_append.mp (secure _ (.thenArm path path'))).1⟩
      | false =>
          exact ⟨past, _, _, typed, elseChecked, here.mono (Op.within_elseOps _ _ _),
            fun trace path => (along_append.mp (secure _ (.elseArm path path'))).1⟩

theorem condition (h : Ready host size (.loop before first test second :: rest) frame) :
    Ready host size first frame := by
  obtain ⟨past, stack, after, typed, checked, honours, secure⟩ := h
  cases checked with
  | loop fits conditionChecked operands bodyChecked checked =>
      obtain ⟨other, path'⟩ := Path.exists_of_code rest
      refine ⟨past, _, _, ⟨typed.stack.widen fits, typed.locals, typed.size⟩, conditionChecked,
        ?_, ?_⟩
      · exact (honours.mono (Op.within_append_left _ _)).mono (Op.within_condition _ _ _)
      · exact fun trace path => (along_append.mp (secure _ (.exit path path'))).1

/-- After its test held, a loop is ready to go on with its body and then from its start. -/
theorem round (h : Ready host size (.loop before first test second :: rest) frame) {frame₁ : Frame}
    (run : (Recorded.execAll host fuel first frame).run m = (.ok frame₁, m'))
    (holds : test.eval frame₁ = .ok (true, frame')) :
    Ready host size second frame' ∧ ∀ {frame₃ m₃},
      (Recorded.execAll host fuel second frame').run m' = (.ok frame₃, m₃) →
      Ready host size (.loop before first test second :: rest) frame₃ := by
  obtain ⟨past, stack, after, typed, checked, honours, secure⟩ := h
  have here := honours.mono (Op.within_append_left _ _)
  cases checked with
  | loop fits conditionChecked operands bodyChecked checked =>
      obtain ⟨other, path'⟩ := Path.exists_of_code rest
      have start := typed.stack.widen fits
      obtain ⟨trace, path, typed⟩ := (conditionChecked.sound (here.mono (Op.within_condition _ _ _))).typed
        (fun trace path => (along_append.mp (secure _ (.exit path path'))).1)
        ⟨start, typed.locals, typed.size⟩ run
      obtain ⟨b, frame₂, eval, typed⟩ := typed.eval operands
      rw [eval] at holds
      cases holds
      have again : ∀ trace', Path second trace' → ∀ other,
          Path (.loop before first test second :: rest) other →
          Along (Secure size) (past ++ trace) (trace' ++ other) :=
        fun trace' path' other more => (along_append.mp (secure _ (.round path path' more))).2
      have bodySecure : ∀ trace', Path second trace' →
          Along (Secure size) (past ++ trace) trace' :=
        fun trace' path'' => (along_append.mp (again trace' path'' _ (.exit path path'))).1
      have bodyHonours := here.mono (Op.within_body _ _ _)
      refine ⟨⟨_, _, _, typed, bodyChecked, bodyHonours, bodySecure⟩, fun run' => ?_⟩
      obtain ⟨trace', path'', typed⟩ := (bodyChecked.sound bodyHonours).typed bodySecure typed run'
      exact ⟨_, _, _, typed, .loop (.refl _) conditionChecked operands bodyChecked checked, honours,
        fun other more => (along_append.mp (again trace' path'' other more)).2⟩

theorem scope (h : Ready host size (.scope before locals first :: rest) frame) :
    Ready host size first frame := by
  obtain ⟨past, stack, after, typed, checked, honours, secure⟩ := h
  cases checked with
  | scope fits bodyChecked checked =>
      obtain ⟨other, path'⟩ := Path.exists_of_code rest
      refine ⟨past, _, _, ⟨typed.stack.widen fits, typed.locals, typed.size⟩, bodyChecked, ?_, ?_⟩
      · exact (honours.mono (Op.within_append_left _ _)).mono (Op.within_scope _ _)
      · exact fun trace path => (along_append.mp (secure _ (.scope path path'))).1

end Ready

/-- Every point that ready code comes to is ready. -/
theorem Reaches.ready {host : Host} {fuel size : Nat} {code : List Recorded} {start : Frame}
    {m : Machine} {p : Point} (h : Reaches host fuel code start m p)
    (ready : Ready host size code start) : Ready host size p.code p.frame := by
  induction h with
  | here code frame m => exact ready
  | next run _ ih => exact ih (ready.next run)
  | thenArm holds _ ih => exact ih (ready.arm holds)
  | elseArm holds _ ih => exact ih (ready.arm holds)
  | condition _ ih => exact ih ready.condition
  | body run holds _ ih => exact ih (ready.round run holds).1
  | round run holds run' _ ih => exact ih ((ready.round run holds).2 run')
  | scope _ ih => exact ih ready.scope

/-- The values on the stack at the point have the types tracked there, and the next instruction
faults in no way of its own. -/
def Point.Typed (host : Host) (fuel : Nat) (p : Point) : Prop :=
  ∀ r rest, p.code = r :: rest →
    (∀ before, r.before? = some before → Conform p.frame.stack before) ∧
    ∀ f m', (r.exec host fuel p.frame).run p.machine = (.error (.fault f), m') →
      host.Admits r.op?.toList f

theorem Ready.typed {host : Host} {size : Nat} {p : Point} (h : Ready host size p.code p.frame)
    (fuel : Nat) : p.Typed host fuel := by
  intro r rest code
  rw [code] at h
  constructor
  · intro before recorded
    obtain ⟨past, stack, after, typed, checked, -⟩ := h
    exact typed.stack.widen (checked.before?_fits recorded)
  · intro f m' run
    have admits := h.faults run
    rwa [Recorded.ops, Recorded.ops, List.append_nil] at admits

theorem Frame.Typed.finish {size : Nat} {past : List LocalEvent} {output : Option NativeType}
    {frame : Frame} (h : frame.Typed size past output.toList) :
    ∃ result, frame.finish output = pure result ∧ Conform result.toList output.toList := by
  obtain ⟨stack, locals⟩ := frame
  cases output with
  | none => exact ⟨none, rfl, .nil⟩
  | some type =>
      obtain _ | ⟨conforms, _ | _⟩ := h.stack
      exact ⟨some _, rfl, .cons conforms .nil⟩

/-- Finished code that uses the values of locals only after it stored to them keeps to its types, on
inputs of its types and with a host that honours them: at every point, in its faults, and in its
result. -/
theorem Finished.type_sound {s : Sequence} {code : List Recorded} (h : Finished .visible s code)
    (assigned : UsesAssigned code) {host : Host} (honours : host.Honours s.ops) (fuel : Nat)
    {inputs : List Value} (conform : Conform inputs s.inputs) (m : Machine) :
    (∀ p, Reaches host fuel code ⟨inputs.reverse, List.replicate s.maxLocals .null⟩ m p →
      p.Typed host fuel) ∧
    (∀ f m', (s.runOn host fuel inputs).run m = (.error (.fault f), m') → host.Admits s.ops f) ∧
    ∀ result m', (s.runOn host fuel inputs).run m = (.ok result, m') →
      Conform result.toList s.output.toList := by
  obtain ⟨ops, checked⟩ := h.checked
  have secure : ∀ trace, Path code trace → Along (Secure s.maxLocals) [] trace :=
    fun trace path => h.secure assigned path
  have start : Frame.Typed s.maxLocals [] s.inputs.reverse
      ⟨inputs.reverse, List.replicate s.maxLocals .null⟩ :=
    ⟨by exact List.forall₂_reverse_iff.mpr conform, Holds.of_start _, List.length_replicate ..⟩
  rw [ops] at honours ⊢
  have sound : Sound host s.maxLocals (Recorded.ops code) (Path code) s.inputs.reverse
      s.output.toList (Recorded.execAll host fuel code) := checked.sound honours
  have exec : s.runOn host fuel inputs = (do
      let frame ← Recorded.execAll host fuel code
        ⟨inputs.reverse, List.replicate s.maxLocals .null⟩
      frame.finish s.output) := by
    rw [Sequence.runOn, if_neg (not_not.mpr conform.length_eq), ops]
    rfl
  rw [exec]
  refine ⟨?_, ?_, ?_⟩
  · intro p reach
    exact (reach.ready ⟨[], _, _, start, checked, honours, secure⟩).typed fuel
  · intro f m' run
    rcases Stateful.bind_eq_error.mp run with run | ⟨frame, m₁, run, run'⟩
    · exact sound.faults secure start run
    · obtain ⟨trace, -, left⟩ := sound.typed secure start run
      obtain ⟨result, finish, -⟩ := left.finish
      rw [finish] at run'
      cases run'
  · intro result m' run
    obtain ⟨frame, m₁, run, run'⟩ := Stateful.bind_eq_ok.mp run
    obtain ⟨trace, -, left⟩ := sound.typed secure start run
    obtain ⟨result', finish, conforms⟩ := left.finish
    rw [finish] at run'
    cases run'
    exact conforms

def Sequence.kept : Local := ⟨0, .int⟩

def Sequence.successor : Sequence :=
  { ops := [.store kept, .increment kept 1, .load kept]
    inputs := [.int]
    output := some .int
    nonNull := true
    maxLocals := 1 }

def Sequence.successorRecord : List Recorded :=
  [.declare kept, .plain [.int] (.store kept), .plain [] (.increment kept 1), .plain [] (.load kept)]

theorem Sequence.successor_finished : Finished .visible successor successorRecord := by
  have declared : Assembled .visible (.start [.int]) [] [.declare kept] _ [kept] :=
    .declare "kept" .int (.start _ _) rfl
  have seen : kept ∈ [kept] := List.mem_singleton_self kept
  have stored := declared.call (.store kept) (LocalUse.allows_of_target rfl seen) rfl
  have counted := stored.call (.increment kept 1) (LocalUse.allows_of_target rfl seen) rfl
  exact ⟨_, _, counted.call (.load kept) (LocalUse.allows_of_target rfl seen) rfl, .inl ⟨true, rfl⟩⟩

theorem Sequence.successor_assigned : UsesAssigned successorRecord := by
  intro trace path
  obtain ⟨_, rest, rfl, declared, path⟩ := path.of_cons
  obtain ⟨_, rest, rfl, stored, path⟩ := path.of_cons
  obtain ⟨_, rest, rfl, counted, loaded⟩ := path.of_cons
  cases Path.declare_iff.mp declared
  cases Path.plain_iff.mp stored
  cases Path.plain_iff.mp counted
  cases Path.plain_iff.mp loaded
  refine ⟨nofun, nofun, ?_, ?_, trivial⟩
  · rintro l ⟨⟩
    exact ⟨[.declare kept], [], rfl, nofun⟩
  · rintro l ⟨⟩
    exact ⟨[.declare kept], [.increment kept], rfl, by simp⟩

theorem Sequence.successor_honoured (host : Host) : host.Honours successor.ops :=
  ⟨nofun, nofun⟩

/-- The successor of an integer has the declared type. -/
theorem Sequence.successor_sound :
    ∃ result m', (successor.runOn (.ofSchema ⟨[], [], []⟩) 0 [.int 4]).run Machine.start
      = (.ok result, m') ∧ Conform result.toList [.int] := by
  have conform : Conform [.int 4] successor.inputs := .cons rfl .nil
  obtain ⟨-, -, result⟩ := Finished.type_sound successor_finished successor_assigned
    (successor_honoured (.ofSchema ⟨[], [], []⟩)) 0 conform Machine.start
  exact ⟨_, _, rfl, result _ _ rfl⟩

end MessageCode
