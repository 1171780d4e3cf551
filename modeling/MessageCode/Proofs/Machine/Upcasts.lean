import MessageCode.Proofs.Machine.Soundness

/-!
Casts to supertypes. What the assembler holds to be a subtype is one for the class checks of the
machine. So the check that it leaves out of a cast to a supertype would have passed, wherever it stood,
and what is left by either arm of a branch belongs to the types that are tracked after it.
-/

namespace MessageCode

/-- An instance of a type is an instance of every type that it can stand for. -/
theorem Value.isInstance_of_assignable {v : Value} {r s : RefType} (h : v.isInstance r = true)
    (fits : r.assignableTo s = true) : v.isInstance s = true :=
  Value.Conforms.of_assignable (a := .ref r) (b := .ref s) h fits

/-- A check for a supertype of the type on top passes on every stack of the tracked types. -/
theorem Op.exec_upcast {host : Host} {fuel : Nat} {t : NativeType} {r : RefType}
    {stack : List NativeType} (up : t.assignableTo (.ref r) = true) {frame : Frame}
    (conform : Conform frame.stack (t :: stack)) :
    (Op.checkCast r).exec host fuel frame = pure frame := by
  obtain ⟨values, locals⟩ := frame
  obtain _ | ⟨conforms, _⟩ := conform
  have passes : Value.isInstance r _ = true := conforms.of_assignable up
  rw [exec_checkCast, if_pos passes]

/-- Two steps that are one and the same on frames of the types, if the paths are secure. -/
def Coincide (size : Nat) (paths : List LocalEvent → Prop) (before : List NativeType)
    (step step' : Frame → Run Frame) : Prop :=
  ∀ past frame, (∀ trace, paths trace → Along (Secure size) past trace) →
    frame.Typed size past before → step frame = step' frame

namespace Coincide

variable {host : Host} {size : Nat} {ops ops' : List Op} {paths paths' : List LocalEvent → Prop}
  {before next types : List NativeType} {step step' more more' : Frame → Run Frame}

theorem refl (step : Frame → Run Frame) : Coincide size paths before step step := fun _ _ _ _ => rfl

theorem widen (h : Coincide size paths before step step') (fits : Fits types before) :
    Coincide size paths types step step' :=
  fun past frame secure typed => h past frame secure ⟨typed.stack.widen fits, typed.locals, typed.size⟩

theorem mono (h : Coincide size paths before step step') (imp : ∀ trace, paths trace → paths' trace) :
    Coincide size paths' before step step' :=
  fun past frame secure typed => h past frame (fun trace path => secure trace (imp trace path)) typed

theorem bind (h : Coincide size paths before step step') (sound : Sound host size ops paths before next step)
    (h' : Coincide size paths' next more more') (some_path : ∃ trace, paths' trace) :
    Coincide size (fun trace => ∃ first second, trace = first ++ second ∧ paths first ∧ paths' second) before
      (fun frame => step frame >>= more) (fun frame => step' frame >>= more') := by
  intro past frame secure typed
  have split : ∀ {first second}, paths first → paths' second →
      Along (Secure size) past first ∧ Along (Secure size) (past ++ first) second :=
    fun path path' => along_append.mp (secure _ ⟨_, _, rfl, path, path'⟩)
  obtain ⟨other, path'⟩ := some_path
  have firstSecure : ∀ trace, paths trace → Along (Secure size) past trace :=
    fun trace path => (split path path').1
  refine Stateful.ext fun m => ?_
  beta_reduce
  rw [← h past frame firstSecure typed]
  rcases run : (step frame).run m with ⟨e | frame', m'⟩
  · rw [Stateful.run_bind_error run, Stateful.run_bind_error run]
  · obtain ⟨trace, path, typed'⟩ := sound.typed firstSecure typed run
    rw [Stateful.run_bind_ok run, Stateful.run_bind_ok run,
      h' _ frame' (fun other path' => (split path path').2) typed']

theorem choose {test : Test} {found : List NativeType} (operands : Fits found test.operands.reverse)
    (h : Coincide size paths before step step') (h' : Coincide size paths' before more more') :
    Coincide size (fun trace => paths trace ∨ paths' trace) (found ++ before)
      (Op.choose test step more) (Op.choose test step' more') := by
  intro past frame secure typed
  obtain ⟨b, frame', eval, typed⟩ := typed.eval operands
  rw [Op.choose, Op.choose, eval]
  cases b with
  | true => exact h past frame' (fun trace path => secure trace (.inl path)) typed
  | false => exact h' past frame' (fun trace path => secure trace (.inr path)) typed

theorem rounds {fuel : Nat} {tracked found : List NativeType} {condition body : List Recorded}
    {test : Test} {conditionOps bodyOps : List Op} (operands : Fits found test.operands.reverse)
    (soundCondition : Sound host size ops (Path condition) before (found ++ before)
      (Recorded.execAll host fuel condition))
    (soundBody : Sound host size ops' (Path body) before before (Recorded.execAll host fuel body))
    (h : Coincide size (Path condition) before (Recorded.execAll host fuel condition)
      (Op.execAll host fuel conditionOps))
    (h' : Coincide size (Path body) before (Recorded.execAll host fuel body)
      (Op.execAll host fuel bodyOps)) (bound : Nat) :
    Coincide size (Path [.loop tracked condition test body]) before
      (Op.rounds host fuel (Recorded.ops condition) test (Recorded.ops body) bound)
      (Op.rounds host fuel conditionOps test bodyOps bound) := by
  induction bound with
  | zero => exact refl _
  | succ bound ih =>
      obtain ⟨first, path⟩ := Path.exists_of_code condition
      have again := h'.bind soundBody ih ⟨first, Path.loop_iff.mpr (.inl path)⟩
      have stop : Coincide size (· = []) before Pure.pure Pure.pure := refl _
      exact (h.bind soundCondition (choose operands again stop) ⟨[], .inr rfl⟩).mono fun _ => Path.of_round

theorem cons {fuel : Nat} {r : Recorded} {rest : List Recorded}
    (h : Coincide size (Path [r]) before (r.exec host fuel) step)
    (sound : Sound host size ops (Path [r]) before next (r.exec host fuel))
    (h' : Coincide size (Path rest) next (Recorded.execAll host fuel rest) more) :
    Coincide size (Path (r :: rest)) before (Recorded.execAll host fuel (r :: rest))
      (fun frame => step frame >>= more) := by
  rw [Recorded.execAll_cons]
  refine (h.bind sound h' (Path.exists_of_code rest)).mono ?_
  rintro trace ⟨first, second, rfl, path, path'⟩
  exact path.append path'

end Coincide

/-- The instructions of the code with class checks put back, at any points and in regions too, each for
a supertype of the type that is tracked on top there. -/
inductive Rechecked : List NativeType → List Recorded → List Op → List NativeType → Prop
  | done {stack after} : Fits stack after → Rechecked stack [] [] after
  | upcast {t stack code ops after} (r : RefType) : t.assignableTo (.ref r) = true →
      Rechecked (t :: stack) code ops after → Rechecked (t :: stack) code (.checkCast r :: ops) after
  | plain {stack before next after op code ops} : Fits stack before → op.Effect before next →
      Rechecked next code ops after → Rechecked stack (.plain before op :: code) (op :: ops) after
  | declare {stack l code ops after} : Rechecked stack code ops after →
      Rechecked stack (.declare l :: code) ops after
  | branch {stack found rest next after test thenCode thenOps elseCode elseOps code ops} :
      Fits stack (found ++ rest) → Fits found test.operands.reverse →
      Rechecked rest thenCode thenOps next → Rechecked rest elseCode elseOps next →
      Rechecked next code ops after →
      Rechecked stack (.branch (found ++ rest) test thenCode elseCode :: code)
        (.branch test thenOps elseOps :: ops) after
  | loop {stack before found after condition conditionOps test body bodyOps code ops} :
      Fits stack before → Rechecked before condition conditionOps (found ++ before) →
      Fits found test.operands.reverse → Rechecked before body bodyOps before →
      Rechecked before code ops after →
      Rechecked stack (.loop before condition test body :: code)
        (.loop conditionOps test bodyOps :: ops) after
  | scope {stack before next after locals body bodyOps code ops} : Fits stack before →
      Rechecked before body bodyOps next → Rechecked next code ops after →
      Rechecked stack (.scope before locals body :: code) (.scope locals bodyOps :: ops) after

namespace Rechecked

variable {stack after : List NativeType} {code : List Recorded} {ops : List Op}

theorem checked (h : Rechecked stack code ops after) : Checked stack code after := by
  induction h with
  | done fits => exact .done fits
  | upcast _ _ _ ih => exact ih
  | plain fits effect _ ih => exact .plain fits effect ih
  | declare _ ih => exact .declare ih
  | branch fits operands _ _ _ thenIh elseIh ih => exact .branch fits operands thenIh elseIh ih
  | loop fits _ operands _ _ conditionIh bodyIh ih => exact .loop fits conditionIh operands bodyIh ih
  | scope fits _ _ bodyIh ih => exact .scope fits bodyIh ih

/-- The checks that are put back change no run. -/
theorem coincide {host : Host} {fuel size : Nat} (h : Rechecked stack code ops after)
    (honours : host.Honours (Recorded.ops code)) :
    Coincide size (Path code) stack (Recorded.execAll host fuel code) (Op.execAll host fuel ops) := by
  induction h with
  | done fits => exact .refl _
  | upcast r up _ ih =>
      intro past frame secure typed
      rw [Op.execAll_cons, Op.exec_upcast up typed.stack, pure_bind]
      exact ih honours past frame secure typed
  | plain fits effect _ ih =>
      have head : Checked _ [.plain _ _] _ := .plain fits effect (.done (.refl _))
      refine .cons ?_ (head.head_sound honours) (ih (honours.mono (Op.within_append_right _ _)))
      rw [Recorded.exec_plain]
      exact .refl _
  | @declare stack l _ _ _ _ ih =>
      have head : Checked stack [.declare l] stack := .declare (.done (.refl _))
      have rest := Coincide.cons (.refl _) (head.head_sound honours)
        (ih (honours.mono (Op.within_append_right _ _)))
      simpa only [Recorded.exec_declare, pure_bind] using rest
  | @branch _ _ _ _ _ test thenCode _ elseCode _ _ _ fits operands thenArm elseArm _ thenIh elseIh ih =>
      have here := honours.mono (Op.within_append_left _ _)
      have head : Checked _ [.branch _ test thenCode elseCode] _ :=
        .branch fits operands thenArm.checked elseArm.checked (.done (.refl _))
      refine .cons ?_ (head.head_sound honours) (ih (honours.mono (Op.within_append_right _ _)))
      rw [Recorded.exec_branch]
      exact ((Coincide.choose operands (thenIh (here.mono (Op.within_thenOps _ _ _)))
        (elseIh (here.mono (Op.within_elseOps _ _ _)))).widen fits).mono fun _ => Path.branch_iff.mpr
  | @loop _ _ _ _ condition _ test body _ _ _ fits conditionCode operands bodyCode _ conditionIh bodyIh
      ih =>
      have here := honours.mono (Op.within_append_left _ _)
      have inCondition := here.mono (Op.within_condition _ _ _)
      have inBody := here.mono (Op.within_body _ _ _)
      have head : Checked _ [.loop _ condition test body] _ :=
        .loop fits conditionCode.checked operands bodyCode.checked (.done (.refl _))
      refine .cons ?_ (head.head_sound honours) (ih (honours.mono (Op.within_append_right _ _)))
      rw [Recorded.exec_loop, Op.exec_loop]
      exact (Coincide.rounds operands (conditionCode.checked.sound inCondition)
        (bodyCode.checked.sound inBody) (conditionIh inCondition) (bodyIh inBody) fuel).widen fits
  | @scope _ _ next _ locals body _ _ _ fits bodyCode _ bodyIh ih =>
      have here := honours.mono (Op.within_append_left _ _)
      have inBody := here.mono (Op.within_scope _ _)
      have head : Checked _ [.scope _ locals body] _ :=
        .scope fits bodyCode.checked (.done (.refl _))
      refine .cons ?_ (head.head_sound honours) (ih (honours.mono (Op.within_append_right _ _)))
      rw [Recorded.exec_scope]
      have release : Coincide size (· = locals.map fun d => .release d.slot) next
          (fun frame => Run.ofExcept (frame.release locals)) _ := .refl _
      refine (((bodyIh inBody).bind (bodyCode.checked.sound inBody) release ⟨_, rfl⟩).widen fits).mono ?_
      rintro trace ⟨first, second, rfl, path, rfl⟩
      exact Path.scope_iff.mpr ⟨first, path, rfl⟩

end Rechecked

/-- Assignability between reference types is sound for class checks, so no run can tell whether the checks
for supertypes are left out. An instance of a type is an instance of every type that it can stand for. A
cast that writes nothing is a cast to a supertype of the type on top, changes nothing, and its check would
pass on every stack of the tracked types. A finished sequence runs in the same way with such checks put
back anywhere. What belongs to a slot of either arm of a branch belongs to the slot that is tracked after
the branch. -/
theorem RefType.assignableTo_sound :
    (∀ (r s : RefType) (v : Value), r.assignableTo s = true → v.isInstance r = true →
      v.isInstance s = true) ∧
    (∀ (r : RefType) (a a' : Assembly),
      (Assembler.checkCast r : Assembler EmitError Unit).run a = (.ok (), a') → a'.ops = a.ops →
      a' = a ∧ (∃ t rest, a.stack = t :: rest ∧ t.assignableTo (.ref r) = true) ∧
        ∀ (host : Host) (fuel : Nat) (frame : Frame), Conform frame.stack a.stack →
          (Op.checkCast r).exec host fuel frame = pure frame) ∧
    (∀ (s : Sequence) (code : List Recorded) (ops : List Op) (host : Host),
      Finished .visible s code → UsesAssigned code →
      Rechecked s.inputs.reverse code ops s.output.toList → host.Honours s.ops →
      ∀ (fuel : Nat) (inputs : List Value), Conform inputs s.inputs →
        { s with ops }.runOn host fuel inputs = s.runOn host fuel inputs) ∧
    ∀ (test : Test) (thenArm elseArm a a' : Assembly),
      (Assembler.joinArms test thenArm elseArm : Assembler EmitError Unit).run a = (.ok (), a') →
      List.Forall₂ (fun t slot => ∀ v : Value, v.Conforms t → v.Conforms slot)
        thenArm.stack a'.stack ∧
      List.Forall₂ (fun t slot => ∀ v : Value, v.Conforms t → v.Conforms slot)
        elseArm.stack a'.stack := by
  refine ⟨fun r s v fits h => Value.isInstance_of_assignable h fits, ?_, ?_, ?_⟩
  · intro r a a' cast silent
    obtain ⟨t, rest, stack, -, rfl⟩ := Assembler.checkCast_eq_ok.mp cast
    split at silent
    · rename_i up
      rw [if_pos up]
      refine ⟨rfl, ⟨t, rest, stack, up.1⟩, fun host fuel frame conform => ?_⟩
      rw [stack] at conform
      exact Op.exec_upcast up.1 conform
    · simp at silent
  · intro s code ops host finished assigned rechecked honours fuel inputs conform
    obtain ⟨same, -⟩ := finished.checked
    rw [same] at honours
    have start : Frame.Typed s.maxLocals [] s.inputs.reverse
        ⟨inputs.reverse, List.replicate s.maxLocals .null⟩ :=
      ⟨List.forall₂_reverse_iff.mpr conform, Holds.of_start _, List.length_replicate ..⟩
    have runs : Recorded.execAll host fuel code _ = Op.execAll host fuel ops _ :=
      rechecked.coincide honours [] _ (fun trace path => finished.secure assigned path) start
    rw [Sequence.runOn, Sequence.runOn, same, ← runs]
    rfl
  · intro test thenArm elseArm a a' joined
    obtain ⟨stack, merged, rfl⟩ := Assembler.joinArms_eq_ok.mp joined
    obtain ⟨thenFits, elseFits⟩ := Assembler.mergeSlots_eq_some merged
    exact ⟨thenFits.imp fun _ _ fits v conforms => conforms.of_assignable fits,
      elseFits.imp fun _ _ fits v conforms => conforms.of_assignable fits⟩

def Sequence.anyBoxed : Local := ⟨0, .boxed .any⟩

/-- Takes a boxed integer and stores it as a boxed value; the cast in between wrote nothing. -/
def Sequence.widened : Sequence :=
  { ops := [.store anyBoxed, .load anyBoxed]
    inputs := [.boxed .int]
    output := some (.boxed .any)
    nonNull := false
    maxLocals := 1 }

def Sequence.widenedRecord : List Recorded :=
  [.declare anyBoxed, .plain [.boxed .int] (.store anyBoxed), .plain [] (.load anyBoxed)]

theorem Sequence.widened_finished : Finished .visible widened widenedRecord := by
  have declared : Assembled .visible (.start [.boxed .int]) [] [.declare anyBoxed] _ [anyBoxed] :=
    .declare "boxed" (.boxed .any) (.start _ _) rfl
  have cast := declared.call (.checkCast (.boxed .any)) (LocalUse.allows_of_none rfl) rfl
  have seen : anyBoxed ∈ [anyBoxed] := List.mem_singleton_self anyBoxed
  have stored := cast.call (.store anyBoxed) (LocalUse.allows_of_target rfl seen) rfl
  exact ⟨_, _, stored.call (.load anyBoxed) (LocalUse.allows_of_target rfl seen) rfl, .inl ⟨false, rfl⟩⟩

theorem Sequence.widened_assigned : UsesAssigned widenedRecord := by
  intro trace path
  obtain ⟨_, rest, rfl, declared, path⟩ := path.of_cons
  obtain ⟨_, rest, rfl, stored, loaded⟩ := path.of_cons
  cases Path.declare_iff.mp declared
  cases Path.plain_iff.mp stored
  cases Path.plain_iff.mp loaded
  refine ⟨nofun, nofun, ?_, trivial⟩
  rintro l ⟨⟩
  exact ⟨[.declare anyBoxed], [], rfl, nofun⟩

/-- A boxed integer is a boxed value for class checks too. So the cast of one wrote nothing, with the check
put back before the store it is given back as it is without, and it may come of a branch whose other arm
gives any boxed value. -/
theorem Sequence.widened_rechecked :
    (Value.ref 0 (.boxed (.int 7))).isInstance (.boxed .any) = true ∧
    (Op.checkCast (.boxed .any)).exec (.ofSchema ⟨[], [], []⟩) 0 ⟨[.ref 0 (.boxed (.int 7))], []⟩ =
      pure ⟨[.ref 0 (.boxed (.int 7))], []⟩ ∧
    { widened with ops := [.checkCast (.boxed .any), .store anyBoxed, .load anyBoxed] }.runOn
        (.ofSchema ⟨[], [], []⟩) 0 [.ref 0 (.boxed (.int 7))] =
      widened.runOn (.ofSchema ⟨[], [], []⟩) 0 [.ref 0 (.boxed (.int 7))] ∧
    List.Forall₂ (fun t slot => ∀ v : Value, v.Conforms t → v.Conforms slot)
      [.boxed .int] [.boxed .any] := by
  obtain ⟨instances, casts, runs, merges⟩ := RefType.assignableTo_sound
  have conform : Conform [.ref 0 (.boxed (.int 7))] widened.inputs := .cons rfl .nil
  have rechecked : Rechecked widened.inputs.reverse widenedRecord
      [.checkCast (.boxed .any), .store anyBoxed, .load anyBoxed] widened.output.toList :=
    .declare (.upcast (.boxed .any) rfl (.plain (.refl _) (.store anyBoxed [] rfl)
      (.plain (.refl _) (.load anyBoxed []) (.done (.refl _)))))
  refine ⟨instances (.boxed .int) (.boxed .any) _ rfl rfl, ?_, ?_, ?_⟩
  · exact (casts (.boxed .any) (.start [.boxed .int]) _ rfl rfl).2.2 _ 0 _ conform
  · exact runs widened widenedRecord _ (.ofSchema ⟨[], [], []⟩) widened_finished widened_assigned
      rechecked ⟨nofun, nofun⟩ 0 _ conform
  · exact (merges .isTrue (.start [.boxed .int]) (.start [.boxed .any]) (.start []) _ rfl).1

end MessageCode
