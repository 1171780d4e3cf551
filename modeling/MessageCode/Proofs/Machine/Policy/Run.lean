import MessageCode.Proofs.Machine.Points
import MessageCode.Proofs.Machine.Policy.Native

/-!
Runs under a policy. Code on a frame of which the policy holds comes to such frames only, at every point
of the run.
-/

namespace MessageCode

open Stateful

theorem StaticField.eq_extension_of_load {s : Schema} {f : StaticField} {object : Object}
    (loaded : StaticField.load s f = .ok object) : ∃ owner name, object = .extension owner name := by
  have found : ∀ owner, (if (s.extensionById? owner f.name).isSome then
      Except.ok (Object.extension owner f.name)
      else .error (Fault.unknownField (owner ++ "." ++ f.name))) = .ok object →
      ∃ owner name, object = .extension owner name := by
    intro owner h
    split at h
    · cases h
      exact ⟨owner, f.name, rfl⟩
    · cases h
  unfold StaticField.load at loaded
  dsimp only at loaded
  split at loaded
  · exact found _ loaded
  · exact found _ loaded
  · cases loaded

namespace Policy

variable {P : Policy} {st st' : Store}

structure Allows (P : Policy) (st : Store) (frame : Frame) : Prop where
  stack : ∀ v ∈ frame.stack, P.value st v
  locals : ∀ v ∈ frame.locals, P.value st v

/-- The operations and the static fields of the host keep to the policy. -/
structure Hosts (P : Policy) (host : Host) : Prop where
  call : ∀ c st, P.Operands st c → P.Kept st (host.call c) P.value
  static : ∀ f object, host.static f = .ok object → ∀ st id, P.value st (.ref id object)

theorem Upholds.hosts {s : Schema} (h : P.Upholds s) : P.Hosts (.ofSchema s) where
  call _ _ operands := Native.invoke_kept h operands
  static f object loaded st id := by
    obtain ⟨owner, name, rfl⟩ := StaticField.eq_extension_of_load loaded
    exact P.plain rfl

namespace Allows

variable {frame frame' : Frame} {v : Value} {op : String}

theorem mono (h : P.Allows st frame) (le : P.later st st') : P.Allows st' frame :=
  ⟨fun v mem => P.mono le (h.stack v mem), fun v mem => P.mono le (h.locals v mem)⟩

theorem push (h : P.Allows st frame) (fine : P.value st v) : P.Allows st (frame.push v) := by
  refine ⟨fun w mem => ?_, h.locals⟩
  rcases List.mem_cons.mp mem with rfl | mem
  · exact fine
  · exact h.stack w mem

theorem cons {stack locals : List Value} (h : P.Allows st ⟨v :: stack, locals⟩) :
    P.value st v ∧ P.Allows st ⟨stack, locals⟩ :=
  ⟨h.stack v List.mem_cons_self, fun w mem => h.stack w (List.mem_cons_of_mem _ mem), h.locals⟩

theorem pop (h : P.Allows st frame) (taken : frame.pop op = .ok (v, frame')) :
    P.value st v ∧ P.Allows st frame' := by
  obtain ⟨stack, locals⟩ := frame
  cases stack with
  | nil => cases taken
  | cons w rest =>
      cases taken
      exact h.cons

theorem top (h : P.Allows st frame) (found : frame.top op = .ok v) : P.value st v := by
  obtain ⟨stack, locals⟩ := frame
  cases stack with
  | nil => cases found
  | cons w rest =>
      cases found
      exact h.stack v List.mem_cons_self

theorem popMany {count : Nat} {args : List Value} (h : P.Allows st frame)
    (taken : frame.popMany op count = .ok (args, frame')) :
    (∀ v ∈ args, P.value st v) ∧ P.Allows st frame' := by
  induction count generalizing frame frame' args with
  | zero =>
      cases taken
      exact ⟨nofun, h⟩
  | succ count ih =>
      rw [Frame.popMany] at taken
      obtain ⟨⟨v, left⟩, first, taken⟩ := Fallible.bind_eq_ok.mp taken
      obtain ⟨fine, h⟩ := h.pop first
      obtain ⟨⟨deeper, left'⟩, more, taken⟩ := Fallible.bind_eq_ok.mp taken
      obtain ⟨fine', h⟩ := ih h more
      cases taken
      refine ⟨fun w mem => ?_, h⟩
      rcases List.mem_append.mp mem with mem | mem
      · exact fine' w mem
      · cases List.mem_singleton.mp mem
        exact fine

theorem getLocal {l : Local} (h : P.Allows st frame) (found : frame.getLocal l = .ok v) :
    P.value st v := by
  unfold Frame.getLocal at found
  split at found
  · rename_i slot
    cases found
    exact h.locals _ (List.mem_of_getElem? slot)
  · cases found

theorem setLocal {l : Local} (h : P.Allows st frame) (fine : P.value st v)
    (set : frame.setLocal l v = .ok frame') : P.Allows st frame' := by
  unfold Frame.setLocal at set
  split at set
  · cases set
    refine ⟨h.stack, fun w mem => ?_⟩
    rcases List.mem_or_eq_of_mem_set mem with mem | rfl
    · exact h.locals w mem
    · exact fine
  · cases set

theorem release {ds : List Declaration} (h : P.Allows st frame)
    (released : frame.release ds = .ok frame') : P.Allows st frame' := by
  induction ds generalizing frame with
  | nil =>
      cases released
      exact h
  | cons d ds ih =>
      change (frame.setLocal d.slot .null >>= fun frame => frame.release ds) = _ at released
      obtain ⟨next, set, released⟩ := Fallible.bind_eq_ok.mp released
      exact ih (h.setLocal (P.primitive rfl) set) released

theorem eval {test : Test} {holds : Bool} (h : P.Allows st frame)
    (tested : test.eval frame = .ok (holds, frame')) : P.Allows st frame' := by
  unfold Test.eval at tested
  dsimp only at tested
  obtain ⟨⟨v, left⟩, first, tested⟩ := Fallible.bind_eq_ok.mp tested
  have fine := (h.pop first).2
  have binary : (test = .intEq ∨ test = .intLt) → P.Allows st frame' := by
    intro two
    rcases two with rfl | rfl
    all_goals
      obtain ⟨⟨w, left'⟩, second, tested⟩ := Fallible.bind_eq_ok.mp tested
      have fine := (fine.pop second).2
      cases w <;> cases v <;> cases tested
      exact fine
  cases test with
  | isNull =>
      cases tested
      exact fine
  | nonNull =>
      cases tested
      exact fine
  | isTrue =>
      cases v <;> cases tested
      exact fine
  | isZero =>
      cases v <;> cases tested
      exact fine
  | intEq => exact binary (.inl rfl)
  | intLt => exact binary (.inr rfl)

theorem takeOperands {m : Method} {c : Call} (h : P.Allows st frame)
    (taken : m.takeOperands frame = .ok (c, frame')) : P.Operands st c ∧ P.Allows st frame' := by
  unfold Method.takeOperands at taken
  dsimp only at taken
  obtain ⟨⟨given, left⟩, args, taken⟩ := Fallible.bind_eq_ok.mp taken
  obtain ⟨fine, h⟩ := h.popMany args
  dsimp only at taken
  split at taken
  · cases taken
    exact ⟨⟨fine, nofun⟩, h⟩
  · obtain ⟨⟨v, left'⟩, receiver, taken⟩ := Fallible.bind_eq_ok.mp taken
    obtain ⟨fine', h⟩ := h.pop receiver
    dsimp only at taken
    split at taken
    · cases taken
    · cases taken
      refine ⟨⟨fine, ?_⟩, h⟩
      rintro _ ⟨⟩
      exact fine'

end Allows

namespace Kept

variable {α : Type} {Q : Store → α → Prop}

theorem run_ofExcept (e : Except Fault α) : P.Kept st (Run.ofExcept e) fun _ a => e = .ok a := by
  cases e with
  | ok a => exact pure fun _ _ => rfl
  | error f => exact throw _

theorem run_frame {e : Except Fault Frame} (h : ∀ frame, e = .ok frame → P.Allows st frame) :
    P.Kept st (Run.ofExcept e) P.Allows := by
  cases e with
  | ok frame => exact pure fun _ le => (h frame rfl).mono le
  | error f => exact throw _

theorem run_ofNative {x : Native α} (h : P.Kept st x Q) : P.Kept st (Run.ofNative x) Q := by
  intro m le sound r m' run counts
  rw [Run.run_ofNative] at run
  rcases step : x.run m with ⟨f | a, m₁⟩
  · rw [step] at run
    cases run
    obtain ⟨grows, sound, -⟩ := h m le sound _ _ step counts.error
    exact ⟨grows, sound, nofun⟩
  · rw [step] at run
    cases run
    obtain ⟨grows, sound, holds⟩ := h m le sound _ _ step (.inr ⟨a, rfl⟩)
    refine ⟨grows, sound, ?_⟩
    rintro _ ⟨⟩
    exact holds a rfl

end Kept

theorem load_kept (c : Constant) : P.Kept st (monadLift c.load : Run Value) P.value := by
  cases c with
  | text s => exact Policy.alloc_kept fun _ _ _ => P.plain rfl
  | _ => exact .pure fun _ _ => P.primitive rfl

theorem convert_fine {v w : Value} {target : NativeType} (h : v.convert target = .ok w) :
    P.value st w := by
  cases target <;> cases v <;> cases h <;> exact P.primitive rfl

end Policy

open Policy

variable {P : Policy} {st : Store} {frame : Frame} {host : Host} {fuel : Nat}

namespace Method

theorem perform_kept (hosts : P.Hosts host) (suspends : Bool) {c : Call} (h : P.Operands st c) :
    P.Kept st (perform host suspends c) P.value := by
  have called : ∀ st', P.later st st' → P.Kept st' (Run.ofNative (host.call c)) P.value :=
    fun st' le => .run_ofNative (hosts.call c st' (h.mono le))
  unfold perform
  cases suspends with
  | false => exact called st (P.refl _)
  | true =>
      refine Kept.bind (Q := fun _ _ => True) (.of_store (fun s r s' run => by cases run; rfl)
        fun _ _ _ _ _ _ => trivial) fun _ st' le _ => called st' le

theorem exec_kept (hosts : P.Hosts host) (suspends : Bool) (m : Method) (h : P.Allows st frame) :
    P.Kept st (m.exec host suspends frame) P.Allows := by
  have eq : m.exec host suspends frame = Run.ofExcept (m.takeOperands frame) >>= fun taken =>
      perform host suspends taken.1 >>= fun result =>
        pure (if m.returns.isSome then taken.2.push result else taken.2) := by
    unfold exec perform
    cases suspends <;> simp only [Bool.false_eq_true, if_false, if_true, bind_assoc]
  rw [eq]
  refine (Kept.run_ofExcept _).bind fun taken _ le found => ?_
  obtain ⟨operands, left⟩ := h.takeOperands found
  refine (perform_kept hosts suspends (operands.mono le)).bind fun v _ le' given => ?_
  refine .pure fun _ le'' => ?_
  have kept := left.mono (P.trans (P.trans le le') le'')
  split
  · exact kept.push (P.mono le'' given)
  · exact kept

end Method

namespace Op

theorem choose_kept {test : Test} {thenPart elsePart : Frame → Run Frame} (h : P.Allows st frame)
    (whenHolds : ∀ frame st', P.Allows st' frame → P.Kept st' (thenPart frame) P.Allows)
    (otherwise : ∀ frame st', P.Allows st' frame → P.Kept st' (elsePart frame) P.Allows) :
    P.Kept st (choose test thenPart elsePart frame) P.Allows := by
  unfold choose
  refine (Kept.run_ofExcept _).bind fun tested st' le found => ?_
  obtain ⟨holds, left⟩ := tested
  have fine := (h.eval found).mono le
  cases holds with
  | true => exact whenHolds left st' fine
  | false => exact otherwise left st' fine

theorem rounds_kept {condition body : List Op} {test : Test}
    (tested : ∀ frame st', P.Allows st' frame → P.Kept st' (execAll host fuel condition frame) P.Allows)
    (turned : ∀ frame st', P.Allows st' frame → P.Kept st' (execAll host fuel body frame) P.Allows)
    (bound : Nat) (h : P.Allows st frame) :
    P.Kept st (rounds host fuel condition test body bound frame) P.Allows := by
  induction bound generalizing st frame with
  | zero => exact .throw _
  | succ bound ih =>
      refine (tested frame st h).bind fun frame _ _ h => ?_
      refine choose_kept h (fun frame _ h => ?_) fun _ _ h => .pure fun _ le => h.mono le
      exact (turned frame _ h).bind fun _ _ _ h => ih h

mutual

theorem exec_kept {st : Store} {frame : Frame} (hosts : P.Hosts host) (op : Op) (h : P.Allows st frame) :
    P.Kept st (op.exec host fuel frame) P.Allows := by
  cases op with
  | push c =>
      rw [exec]
      refine (Policy.load_kept c).bind fun v _ le fine => .pure fun _ le' => ?_
      exact (h.mono (P.trans le le')).push (P.mono le' fine)
  | dup =>
      rw [exec]
      refine (Kept.run_ofExcept _).bind fun v _ le found => .pure fun _ le' => ?_
      exact (h.push (h.top found)).mono (P.trans le le')
  | pop =>
      rw [exec]
      refine (Kept.run_ofExcept _).bind fun taken _ le found => .pure fun _ le' => ?_
      exact (h.pop found).2.mono (P.trans le le')
  | swap =>
      obtain ⟨_ | ⟨v, _ | ⟨w, rest⟩⟩, locals⟩ := frame
      · exact .throw _
      · exact .throw _
      · obtain ⟨fine, h⟩ := h.cons
        obtain ⟨fine', h⟩ := h.cons
        exact .pure fun _ le => ((h.push fine).push fine').mono le
  | load l =>
      rw [exec]
      refine (Kept.run_ofExcept _).bind fun v _ le found => .pure fun _ le' => ?_
      exact (h.push (h.getLocal found)).mono (P.trans le le')
  | store l =>
      obtain ⟨_ | ⟨v, rest⟩, locals⟩ := frame
      · exact .throw _
      · obtain ⟨fine, h⟩ := h.cons
        exact .run_frame fun frame' set => h.setLocal fine set
  | increment l delta =>
      rw [exec]
      refine .run_frame fun frame' done => ?_
      obtain ⟨v, slot, done⟩ := Fallible.bind_eq_ok.mp done
      cases v with
      | int n => exact h.setLocal (P.primitive rfl) done
      | _ => cases done
  | invoke m =>
      rw [exec]
      exact m.exec_kept hosts false h
  | suspend m =>
      rw [exec]
      exact m.exec_kept hosts true h
  | getStatic f =>
      rw [exec]
      refine (Kept.run_ofExcept _).bind fun object _ le loaded => ?_
      refine (Policy.alloc_kept fun st' id _ => hosts.static f object loaded st' id).bind
        fun v _ le' fine => .pure fun _ le'' => ?_
      exact (h.mono (P.trans (P.trans le le') le'')).push (P.mono le'' fine)
  | convert source target =>
      obtain ⟨_ | ⟨v, rest⟩, locals⟩ := frame
      · exact .throw _
      · obtain ⟨-, h⟩ := h.cons
        rw [exec_convert]
        refine (Kept.run_ofExcept _).bind fun w _ le converted => .pure fun _ le' => ?_
        exact (h.mono (P.trans le le')).push (Policy.convert_fine converted)
  | checkCast type =>
      obtain ⟨_ | ⟨v, rest⟩, locals⟩ := frame
      · exact .throw _
      · rw [exec_checkCast]
        split
        · exact .pure fun _ le => h.mono le
        · exact .throw _
  | box type =>
      obtain ⟨_ | ⟨v, rest⟩, locals⟩ := frame
      · exact .throw _
      · obtain ⟨fine, h⟩ := h.cons
        rw [exec_box]
        split
        · have wrapped : P.Kept st (monadLift (Machine.alloc (.wrapper v)) : Run Value) P.value :=
            Policy.alloc_kept fun _ _ le => wrapper_iff.mpr (P.mono le fine)
          refine wrapped.bind fun w _ le made => .pure fun _ le' => ?_
          exact (h.mono (P.trans le le')).push (P.mono le' made)
        · exact .throw _
  | branch test thenOps elseOps =>
      rw [exec_branch]
      exact choose_kept h (fun _ _ => execAll_kept hosts thenOps) (fun _ _ => execAll_kept hosts elseOps)
  | loop condition test body =>
      rw [exec_loop]
      exact rounds_kept (fun _ _ => execAll_kept hosts condition) (fun _ _ => execAll_kept hosts body) fuel h
  | scope locals body =>
      rw [exec]
      refine (execAll_kept hosts body h).bind fun frame _ _ h => ?_
      exact .run_frame fun frame' released => h.release released

theorem execAll_kept {st : Store} {frame : Frame} (hosts : P.Hosts host) (ops : List Op)
    (h : P.Allows st frame) : P.Kept st (execAll host fuel ops frame) P.Allows := by
  cases ops with
  | nil => exact .pure fun _ le => h.mono le
  | cons op rest =>
      rw [execAll]
      exact (exec_kept hosts op h).bind fun frame _ _ h => execAll_kept hosts rest h

end

end Op

def Sequence.startFrame (s : Sequence) (inputs : List Value) : Frame :=
  ⟨inputs.reverse, List.replicate s.maxLocals .null⟩

theorem Sequence.startFrame_allows (s : Sequence) {inputs : List Value}
    (h : ∀ v ∈ inputs, P.value st v) : P.Allows st (s.startFrame inputs) := by
  refine ⟨fun v mem => h v (List.mem_reverse.mp mem), fun v mem => ?_⟩
  cases List.eq_of_mem_replicate mem
  exact P.primitive rfl

/-- A run of a sequence keeps to the policy. -/
theorem Sequence.runOn_kept (hosts : P.Hosts host) (fuel : Nat) (s : Sequence) {inputs : List Value}
    (h : ∀ v ∈ inputs, P.value st v) : P.Kept st (s.runOn host fuel inputs) P.value? := by
  unfold Sequence.runOn
  refine .refuse fun _ => (Op.execAll_kept hosts s.ops (s.startFrame_allows h)).bind
    fun frame _ _ h => ?_
  unfold Frame.finish
  split
  · refine (Kept.run_ofExcept _).bind fun taken _ le found => ?_
    exact .pure_some (P.mono le (h.pop found).1)
  · exact .pure_none

/-- Every point that code comes to is one of which the policy holds. -/
theorem Reaches.kept (hosts : P.Hosts host) {code : List Recorded} {frame : Frame} {m : Machine}
    {p : Point} (h : Reaches host fuel code frame m p) (sound : P.sound m.store)
    (allows : P.Allows m.store frame) :
    P.later m.store p.machine.store ∧ P.sound p.machine.store ∧ P.Allows p.machine.store p.frame := by
  have step {code : List Recorded} {frame frame' : Frame} {m m' : Machine} (sound : P.sound m.store)
      (allows : P.Allows m.store frame)
      (run : (Recorded.execAll host fuel code frame).run m = (.ok frame', m')) :
      P.later m.store m'.store ∧ P.sound m'.store ∧ P.Allows m'.store frame' := by
    obtain ⟨grows, sound, holds⟩ := Op.execAll_kept hosts (Recorded.ops code) allows m (P.refl _) sound
      _ _ run (.inr ⟨_, rfl⟩)
    exact ⟨grows, sound, holds _ rfl⟩
  induction h with
  | here code frame m => exact ⟨P.refl _, sound, allows⟩
  | next run _ ih =>
      rw [← Recorded.execAll_singleton] at run
      obtain ⟨grows, sound, allows⟩ := step sound allows run
      obtain ⟨grows', sound, allows⟩ := ih sound allows
      exact ⟨P.trans grows grows', sound, allows⟩
  | thenArm tested _ ih => exact ih sound (allows.eval tested)
  | elseArm tested _ ih => exact ih sound (allows.eval tested)
  | condition _ ih => exact ih sound allows
  | body run tested _ ih =>
      obtain ⟨grows, sound, allows⟩ := step sound allows run
      obtain ⟨grows', sound, allows⟩ := ih sound (allows.eval tested)
      exact ⟨P.trans grows grows', sound, allows⟩
  | round run tested run' _ ih =>
      obtain ⟨grows, sound, allows⟩ := step sound allows run
      obtain ⟨grows', sound, allows⟩ := step sound (allows.eval tested) run'
      obtain ⟨grows'', sound, allows⟩ := ih sound allows
      exact ⟨P.trans grows (P.trans grows' grows''), sound, allows⟩
  | scope _ ih => exact ih sound allows

end MessageCode
