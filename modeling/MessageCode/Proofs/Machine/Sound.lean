import MessageCode.Proofs.Code.Locals
import MessageCode.Proofs.Machine.Conforms
import MessageCode.Proofs.Machine.Points

/-!
Steps that keep to types: they take values of some types and leave values of some types along paths
on which locals are secure, and fault in no way of their own. Every instruction does with the types
that its effect names, and so do tests, loops and scopes made of such steps, as long as the host keeps
to the types of the operations that are called.
-/

namespace MessageCode

def Holds (past : List LocalEvent) (locals : List Value) : Prop :=
  ∀ l, Held past l → ∃ v, locals[l.index]? = some v ∧ v.Conforms l.type

/-- A frame with values of the tracked types, after some events on its locals. -/
structure Frame.Typed (size : Nat) (past : List LocalEvent) (stack : List NativeType)
    (frame : Frame) : Prop where
  stack : Conform frame.stack stack
  locals : Holds past frame.locals
  size : frame.locals.length = size

structure Call.Conforms (c : Call) : Prop where
  args : Conform c.args c.method.params
  receiver : match c.receiver with
    | none => c.method.isStatic = true
    | some v => c.method.isStatic = false ∧ v.isNull = false ∧ v.Conforms (.ref c.method.owner)

namespace Op

def calls (m : Method) : Op → Bool
  | .invoke k => k = m
  | .suspend k => k = m
  | _ => false

def reads (f : StaticField) : Op → Bool
  | .getStatic g => g = f
  | _ => false

def casts (r : RefType) : Op → Bool
  | .checkCast q => q = r
  | _ => false

end Op

namespace Host

/-- The host keeps to the types of the operations and static fields that the code names. -/
structure Honours (host : Host) (ops : List Op) : Prop where
  call : ∀ c, Op.anyOf (Op.calls c.method) ops = true → c.Conforms →
    ∀ t, c.method.returns = some t → ∀ m v m', (host.call c).run m = (.ok v, m') → v.Conforms t
  static : ∀ f, Op.anyOf (Op.reads f) ops = true →
    ∀ object, host.static f = .ok object → ∀ id, (Value.ref id object).Conforms f.type

/-- The faults of code that are not its own doing: those of the host in calls with operands of their
types and in static fields, calls on null, and class checks. -/
inductive Admits (host : Host) (ops : List Op) : Fault → Prop
  | call {c m f m'} : Op.anyOf (Op.calls c.method) ops = true → c.Conforms →
      (host.call c).run m = (.error f, m') → Admits host ops f
  | static {x f} : Op.anyOf (Op.reads x) ops = true → host.static x = .error f → Admits host ops f
  | onNull {m} : Op.anyOf (Op.calls m) ops = true → m.isStatic = false →
      Admits host ops (.nullPointer m.render)
  | cast {r} {v : Value} : Op.anyOf (Op.casts r) ops = true → v.isInstance r = false →
      Admits host ops (.classCast r.render v.typeName)

end Host

/-- Every instruction of some code, at any depth, is one of other code. -/
def Op.Within (part whole : List Op) : Prop :=
  ∀ p : Op → Bool, Op.anyOf p part = true → Op.anyOf p whole = true

theorem Host.Honours.mono {host : Host} {part whole : List Op} (h : host.Honours whole)
    (within : Op.Within part whole) : host.Honours part :=
  ⟨fun c mem => h.call c (within _ mem), fun f mem => h.static f (within _ mem)⟩

theorem Host.Admits.mono {host : Host} {part whole : List Op} {f : Fault} (h : host.Admits part f)
    (within : Op.Within part whole) : host.Admits whole f := by
  cases h with
  | call mem conforms run => exact .call (within _ mem) conforms run
  | static mem missing => exact .static (within _ mem) missing
  | onNull mem onInstance => exact .onNull (within _ mem) onInstance
  | cast mem other => exact .cast (within _ mem) other

namespace Holds

variable {past : List LocalEvent} {locals : List Value} {l : Local}

theorem of_start (locals : List Value) : Holds [] locals := by
  rintro l ⟨earlier, later, same, -⟩
  simp at same

theorem load (h : Holds past locals) : Holds (past ++ [.load l]) locals := by
  intro k held
  rcases held.of_snoc with same | ⟨-, held⟩
  · cases same
  · exact h k held

theorem declare (h : Holds past locals) : Holds (past ++ [.declare l]) locals := by
  intro k held
  rcases held.of_snoc with same | ⟨-, held⟩
  · cases same
  · exact h k held

theorem set_of_ne (h : Holds past locals) {k : Local} (held : Held past k)
    (apart : l.index ≠ k.index) (v : Value) :
    ∃ w, (locals.set l.index v)[k.index]? = some w ∧ w.Conforms k.type := by
  obtain ⟨w, slot, conforms⟩ := h k held
  exact ⟨w, by rw [List.getElem?_set_ne apart, slot], conforms⟩

theorem store (h : Holds past locals) {v : Value} (conforms : v.Conforms l.type)
    (inRange : l.index < locals.length) : Holds (past ++ [.store l]) (locals.set l.index v) := by
  intro k held
  rcases held.of_snoc with same | ⟨spares, held⟩
  · cases same
    exact ⟨v, by simp [inRange], conforms⟩
  · exact h.set_of_ne held spares v

theorem increment (h : Holds past locals) {v : Value} (conforms : v.Conforms l.type)
    (inRange : l.index < locals.length) : Holds (past ++ [.increment l]) (locals.set l.index v) := by
  intro k held
  rcases held.of_snoc with same | ⟨spares, held⟩
  · cases same
  · by_cases same : l.index = k.index
    · cases spares same
      exact ⟨v, by simp [inRange], conforms⟩
    · exact h.set_of_ne held same v

theorem release (h : Holds past locals) : Holds (past ++ [.release l]) (locals.set l.index .null) := by
  intro k held
  rcases held.of_snoc with same | ⟨spares, held⟩
  · cases same
  · exact h.set_of_ne held spares .null

end Holds

theorem Frame.Typed.eval {size : Nat} {past : List LocalEvent} {found before : List NativeType}
    {frame : Frame} {test : Test} (h : frame.Typed size past (found ++ before))
    (operands : Fits found test.operands.reverse) :
    ∃ b frame', test.eval frame = .ok (b, frame') ∧ frame'.Typed size past before := by
  obtain ⟨taken, rest, stack, takes, left⟩ := h.stack.exists_append
  obtain ⟨b, holds⟩ := Test.holds_of_conform (takes.widen operands)
  have height : taken.length = test.operands.length := by
    rw [takes.length_eq, operands.length_eq, List.length_reverse]
  have eval := Test.eval_append height rest frame.locals
  rw [← stack, holds] at eval
  exact ⟨b, ⟨rest, frame.locals⟩, eval, left, h.locals, h.size⟩

/-- A step that takes a frame with values of the types before it to one with values of the types
after it along one of some paths, and faults in no way of its own, provided that the paths are secure. -/
structure Sound (host : Host) (size : Nat) (ops : List Op) (paths : List LocalEvent → Prop)
    (before after : List NativeType) (step : Frame → Run Frame) : Prop where
  typed : ∀ {past frame m frame' m'}, (∀ trace, paths trace → Along (Secure size) past trace) →
    frame.Typed size past before → (step frame).run m = (.ok frame', m') →
    ∃ trace, paths trace ∧ frame'.Typed size (past ++ trace) after
  faults : ∀ {past frame m f m'}, (∀ trace, paths trace → Along (Secure size) past trace) →
    frame.Typed size past before → (step frame).run m = (.error (.fault f), m') →
    host.Admits ops f

namespace Sound

variable {host : Host} {size : Nat} {ops ops' : List Op} {paths paths' : List LocalEvent → Prop}
  {before next after : List NativeType} {step more : Frame → Run Frame}

theorem mono (h : Sound host size ops paths before after step)
    (imp : ∀ trace, paths trace → paths' trace) (within : Op.Within ops ops') :
    Sound host size ops' paths' before after step where
  typed secure typed run := by
    obtain ⟨trace, path, typed'⟩ :=
      h.typed (fun trace path => secure trace (imp trace path)) typed run
    exact ⟨trace, imp trace path, typed'⟩
  faults secure typed run :=
    (h.faults (fun trace path => secure trace (imp trace path)) typed run).mono within

/-- It is enough that every run on a frame of the right types ends well or in an admitted fault. -/
theorem of_result (h : ∀ past frame m, (∀ trace, paths trace → Along (Secure size) past trace) →
      frame.Typed size past before →
      (∃ frame' m' trace, (step frame).run m = (.ok frame', m') ∧ paths trace ∧
        frame'.Typed size (past ++ trace) after) ∨
      ∃ f m', (step frame).run m = (.error (.fault f), m') ∧ host.Admits ops f) :
    Sound host size ops paths before after step := by
  constructor
  · intro past frame m frame' m' secure typed run
    rcases h past frame m secure typed with ⟨_, _, trace, run', path, typed⟩ | ⟨_, _, run', -⟩
    · rw [run'] at run
      cases run
      exact ⟨trace, path, typed⟩
    · rw [run'] at run
      cases run
  · intro past frame m f m' secure typed run
    rcases h past frame m secure typed with ⟨_, _, _, run', -⟩ | ⟨_, _, run', admitted⟩
    · rw [run'] at run
      cases run
    · rw [run'] at run
      cases run
      exact admitted

theorem of_eq (h : Sound host size ops paths before after step)
    (eq : ∀ frame, step frame = more frame) : Sound host size ops paths before after more :=
  (funext eq : step = more) ▸ h

theorem widen (h : Sound host size ops paths before after step) {types types' : List NativeType}
    (fits : Fits types before) (fits' : Fits after types') :
    Sound host size ops paths types types' step where
  typed secure typed run := by
    obtain ⟨trace, path, typed'⟩ :=
      h.typed secure ⟨typed.stack.widen fits, typed.locals, typed.size⟩ run
    exact ⟨trace, path, typed'.stack.widen fits', typed'.locals, typed'.size⟩
  faults secure typed run := h.faults secure ⟨typed.stack.widen fits, typed.locals, typed.size⟩ run

theorem pure : Sound host size ops (· = []) before before Pure.pure where
  typed _ typed run := by
    cases run
    exact ⟨[], rfl, by rwa [List.append_nil]⟩
  faults _ _ run := by cases run

theorem declare {l : Local} : Sound host size ops (Path [.declare l]) before before Pure.pure where
  typed _ typed run := by
    cases run
    exact ⟨_, Path.declare_iff.mpr rfl, typed.stack, typed.locals.declare, typed.size⟩
  faults _ _ run := by cases run

theorem bind (h : Sound host size ops paths before next step)
    (h' : Sound host size ops paths' next after more) (some_path : ∃ trace, paths' trace) :
    Sound host size ops (fun trace => ∃ first second, trace = first ++ second ∧ paths first ∧
      paths' second) before after (fun frame => step frame >>= more) := by
  have first_secure : ∀ {past}, (∀ trace, (∃ first second, trace = first ++ second ∧ paths first ∧
      paths' second) → Along (Secure size) past trace) →
      ∀ trace, paths trace → Along (Secure size) past trace := by
    intro past secure trace path
    obtain ⟨rest, path'⟩ := some_path
    exact (along_append.mp (secure _ ⟨trace, rest, rfl, path, path'⟩)).1
  have second_secure : ∀ {past first}, (∀ trace, (∃ first second, trace = first ++ second ∧
      paths first ∧ paths' second) → Along (Secure size) past trace) → paths first →
      ∀ trace, paths' trace → Along (Secure size) (past ++ first) trace := by
    intro past first secure path trace path'
    exact (along_append.mp (secure _ ⟨first, trace, rfl, path, path'⟩)).2
  constructor
  · intro past frame m frame' m' secure typed run
    obtain ⟨frame₁, m₁, run, run'⟩ := Stateful.bind_eq_ok.mp run
    obtain ⟨first, path, typed⟩ := h.typed (first_secure secure) typed run
    obtain ⟨second, path', typed⟩ := h'.typed (second_secure secure path) typed run'
    rw [List.append_assoc] at typed
    exact ⟨_, ⟨first, second, rfl, path, path'⟩, typed⟩
  · intro past frame m f m' secure typed run
    rcases Stateful.bind_eq_error.mp run with run | ⟨frame₁, m₁, run, run'⟩
    · exact h.faults (first_secure secure) typed run
    · obtain ⟨first, path, typed⟩ := h.typed (first_secure secure) typed run
      exact h'.faults (second_secure secure path) typed run'

theorem choose {test : Test} {found : List NativeType} {thenPart elsePart : Frame → Run Frame}
    (operands : Fits found test.operands.reverse)
    (h : Sound host size ops paths before after thenPart)
    (h' : Sound host size ops paths' before after elsePart) :
    Sound host size ops (fun trace => paths trace ∨ paths' trace) (found ++ before) after
      (Op.choose test thenPart elsePart) := by
  have split : ∀ {past} {frame : Frame}, frame.Typed size past (found ++ before) →
      ∃ frame' : Frame, frame'.Typed size past before ∧
        (Op.choose test thenPart elsePart frame = thenPart frame' ∨
          Op.choose test thenPart elsePart frame = elsePart frame') := by
    intro past frame typed
    obtain ⟨b, frame', eval, typed⟩ := typed.eval operands
    refine ⟨frame', typed, ?_⟩
    rw [Op.choose, eval]
    cases b with
    | true => exact .inl rfl
    | false => exact .inr rfl
  constructor
  · intro past frame m frame' m' secure typed run
    obtain ⟨inner, typed, same | same⟩ := split typed
    · rw [same] at run
      obtain ⟨trace, path, typed⟩ :=
        h.typed (fun trace path => secure trace (.inl path)) typed run
      exact ⟨trace, .inl path, typed⟩
    · rw [same] at run
      obtain ⟨trace, path, typed⟩ :=
        h'.typed (fun trace path => secure trace (.inr path)) typed run
      exact ⟨trace, .inr path, typed⟩
  · intro past frame m f m' secure typed run
    obtain ⟨inner, typed, same | same⟩ := split typed
    · rw [same] at run
      exact h.faults (fun trace path => secure trace (.inl path)) typed run
    · rw [same] at run
      exact h'.faults (fun trace path => secure trace (.inr path)) typed run

/-- Rounds of a loop follow paths through it. -/
theorem rounds {fuel : Nat} {tracked found : List NativeType} {condition body : List Recorded}
    {test : Test} (operands : Fits found test.operands.reverse)
    (h : Sound host size ops (Path condition) before (found ++ before)
      (Recorded.execAll host fuel condition))
    (h' : Sound host size ops (Path body) before before (Recorded.execAll host fuel body))
    (bound : Nat) :
    Sound host size ops (Path [.loop tracked condition test body]) before before
      (Op.rounds host fuel (Recorded.ops condition) test (Recorded.ops body) bound) := by
  induction bound with
  | zero =>
      constructor
      · intro _ _ _ _ _ _ _ run
        cases run
      · intro _ _ _ _ _ _ _ run
        cases run
  | succ bound ih =>
      obtain ⟨first, path⟩ := Path.exists_of_code condition
      obtain ⟨second, path'⟩ := Path.exists_of_code body
      have again := h'.bind ih ⟨first, Path.loop_iff.mpr (.inl path)⟩
      exact (h.bind (choose operands again pure) ⟨[], .inr rfl⟩).mono (fun _ => Path.of_round) (fun _ => id)

theorem release (locals : List Declaration) :
    Sound host size ops (· = locals.map fun d => .release d.slot) before before
      (fun frame => Run.ofExcept (frame.release locals)) := by
  induction locals with
  | nil => exact pure
  | cons d locals ih =>
      have head : Sound host size ops (· = [.release d.slot]) before before
          (fun frame => Run.ofExcept (frame.setLocal d.slot .null)) := by
        have set : ∀ {past} {frame : Frame}, (∀ trace, trace = [.release d.slot] →
            Along (Secure size) past trace) → frame.Typed size past before →
            frame.setLocal d.slot .null =
              .ok { frame with locals := frame.locals.set d.slot.index .null } := by
          intro past frame secure typed
          have inRange := (along_singleton.mp (secure _ rfl)).1
          rw [← typed.size] at inRange
          exact if_pos inRange
        constructor
        · intro past frame m frame' m' secure typed run
          rw [set secure typed] at run
          cases run
          exact ⟨_, rfl, typed.stack, typed.locals.release, by simp [typed.size]⟩
        · intro past frame m f m' secure typed run
          rw [set secure typed] at run
          cases run
      refine (head.bind ih ⟨_, rfl⟩ |>.mono ?_ (fun _ => id)).of_eq ?_
      · rintro trace ⟨_, _, rfl, rfl, rfl⟩
        rfl
      · intro frame
        change _ = Run.ofExcept (frame.setLocal d.slot .null >>= fun frame => frame.release locals)
        cases frame.setLocal d.slot .null <;> rfl

end Sound

namespace Op

theorem within_refl (code : List Op) : Within code code := fun _ => id

theorem anyOf_append (p : Op → Bool) (code more : List Op) :
    anyOf p (code ++ more) = (anyOf p code || anyOf p more) := by
  induction code with
  | nil => simp [anyOf]
  | cons op code ih => simp [anyOf, ih, Bool.or_assoc]

theorem within_append_left (code more : List Op) : Within code (code ++ more) :=
  fun p h => by simp [anyOf_append, h]

theorem within_append_right (code more : List Op) : Within more (code ++ more) :=
  fun p h => by simp [anyOf_append, h]

theorem within_thenOps (test : Test) (thenOps elseOps : List Op) :
    Within thenOps [.branch test thenOps elseOps] := fun p h => by simp [anyOf, any, h]

theorem within_elseOps (test : Test) (thenOps elseOps : List Op) :
    Within elseOps [.branch test thenOps elseOps] := fun p h => by simp [anyOf, any, h]

theorem within_condition (condition : List Op) (test : Test) (body : List Op) :
    Within condition [.loop condition test body] := fun p h => by simp [anyOf, any, h]

theorem within_body (condition : List Op) (test : Test) (body : List Op) :
    Within body [.loop condition test body] := fun p h => by simp [anyOf, any, h]

theorem within_scope (locals : List Declaration) (body : List Op) :
    Within body [.scope locals body] := fun p h => by simp [anyOf, any, h]

end Op

theorem Frame.Typed.of_no_event {size : Nat} {past : List LocalEvent} {stack stack' : List NativeType}
    {frame : Frame} {values : List Value} (h : frame.Typed size past stack)
    (conform : Conform values stack') : Frame.Typed size (past ++ []) stack' ⟨values, frame.locals⟩ :=
  ⟨conform, by simpa using h.locals, h.size⟩

namespace Method

theorem callOn_of_conform {m : Method} {taken : List Value} (h : Conform taken m.operands) :
    (∃ c, m.callOn taken = .ok c ∧ c.method = m ∧ c.Conforms) ∨
      m.isStatic = false ∧ m.callOn taken = .error (.nullPointer m.render) := by
  have height := h.length_eq.trans m.operands_length
  by_cases onType : m.isStatic = true
  · rw [operands, if_pos onType, List.append_nil] at h
    exact .inl ⟨_, callOn_onType onType (height.trans (arity_onType onType)), rfl, h.reverse, onType⟩
  · rw [Bool.not_eq_true] at onType
    obtain ⟨args, receiver, rfl, args_length⟩ := exists_receiver onType height
    rw [operands, if_neg (by simp [onType])] at h
    obtain ⟨taken, last, same, conform, receives⟩ := h.exists_append
    have taken_length : args.length = taken.length := by
      rw [args_length, conform.length_eq, List.length_reverse]
    obtain ⟨rfl, rfl⟩ := List.append_inj same taken_length
    obtain _ | ⟨belongs, -⟩ := receives
    rw [callOn_onInstance onType args_length]
    cases null : receiver.isNull with
    | true => exact .inr ⟨onType, rfl⟩
    | false => exact .inl ⟨_, rfl, rfl, conform.reverse, onType, null, belongs⟩

/-- A call takes operands of its types and leaves a result of its type. -/
theorem exec_sound {host : Host} {size : Nat} {ops : List Op} {m : Method} (suspends : Bool)
    {found rest : List NativeType} (named : Op.anyOf (Op.calls m) ops = true)
    (honours : host.Honours ops) (operands : Fits found m.operands) :
    Sound host size ops (· = []) (found ++ rest) (m.returns.toList ++ rest)
      (m.exec host suspends) := by
  refine .of_result fun past frame s _ typed => ?_
  obtain ⟨taken, left, stack, takes, leaves⟩ := typed.stack.exists_append
  have height : taken.length = m.arity := by
    rw [takes.length_eq, operands.length_eq, m.operands_length]
  have step := exec_append height host suspends left frame.locals
  rw [← stack] at step
  rcases callOn_of_conform (takes.widen operands) with ⟨c, call, rfl, conforms⟩ | ⟨onInstance, call⟩
  · rw [call] at step
    rcases run : (perform host suspends c).run s with ⟨e | result, s'⟩
    · obtain ⟨f, t, raised, rfl⟩ := perform_eq_error run
      refine .inr ⟨f, s', ?_, .call named conforms raised⟩
      rw [step]
      exact Stateful.run_bind_error run _
    · obtain ⟨t, called⟩ := perform_eq_ok run
      have conform : Conform (c.method.results result ++ left) (c.method.returns.toList ++ rest) := by
        unfold results
        cases returns : c.method.returns with
        | none => exact leaves
        | some type => exact .cons (honours.call c named conforms type returns _ _ _ called) leaves
      refine .inl ⟨_, s', [], ?_, rfl, typed.of_no_event conform⟩
      rw [step]
      exact Stateful.run_bind_ok run _
  · rw [call] at step
    refine .inr ⟨_, s, ?_, .onNull named onInstance⟩
    rw [step]
    rfl

end Method

namespace Op.Effect

variable {host : Host} {fuel size : Nat}

/-- An instruction keeps to the types that its effect names. -/
theorem sound {op : Op} {before after : List NativeType} (h : op.Effect before after)
    (honours : host.Honours [op]) :
    Sound host size [op] (· = op.event?.toList) before after (op.exec host fuel) := by
  cases h with
  | push c =>
      refine .of_result fun past frame m _ typed => .inl ⟨_, _, [], rfl, rfl, ?_⟩
      exact typed.of_no_event (.cons (c.load_conforms m) typed.stack)
  | dup t =>
      refine .of_result fun past ⟨stack, locals⟩ m _ typed => .inl ?_
      obtain _ | ⟨conforms, rest⟩ := typed.stack
      exact ⟨_, _, [], rfl, rfl, typed.of_no_event (.cons conforms (.cons conforms rest))⟩
  | pop t =>
      refine .of_result fun past ⟨stack, locals⟩ m _ typed => .inl ?_
      obtain _ | ⟨conforms, rest⟩ := typed.stack
      exact ⟨_, _, [], rfl, rfl, typed.of_no_event rest⟩
  | swap a b =>
      refine .of_result fun past ⟨stack, locals⟩ m _ typed => .inl ?_
      obtain _ | ⟨conforms, _ | ⟨conforms', rest⟩⟩ := typed.stack
      exact ⟨_, _, [], rfl, rfl, typed.of_no_event (.cons conforms' (.cons conforms rest))⟩
  | load l =>
      refine .of_result fun past ⟨stack, locals⟩ m secure typed => .inl ?_
      obtain ⟨v, slot, conforms⟩ :=
        typed.locals l ((along_singleton.mp (secure _ rfl)).2 l rfl)
      refine ⟨⟨v :: stack, locals⟩, m, _, ?_, rfl, .cons conforms typed.stack, typed.locals.load,
        typed.size⟩
      rw [exec_load, slot]
      rfl
  | store l _ fits =>
      refine .of_result fun past ⟨stack, locals⟩ m secure typed => .inl ?_
      obtain _ | @⟨v, _, rest, _, conforms, conform⟩ := typed.stack
      have inRange : l.index < locals.length :=
        (along_singleton.mp (secure _ rfl)).1.trans_eq typed.size.symm
      refine ⟨⟨rest, locals.set l.index v⟩, m, _, ?_, rfl, conform,
        typed.locals.store (conforms.of_assignable fits) inRange, ?_⟩
      · rw [exec_store, if_pos inRange]
        rfl
      · exact (List.length_set ..).trans typed.size
  | increment l delta _ int =>
      refine .of_result fun past ⟨stack, locals⟩ m secure typed => .inl ?_
      have secured := along_singleton.mp (secure _ rfl)
      obtain ⟨v, slot, conforms⟩ := typed.locals l (secured.2 l rfl)
      rw [int] at conforms
      obtain ⟨n, rfl⟩ := conforms.int
      have inRange : l.index < locals.length := secured.1.trans_eq typed.size.symm
      have sum : (Value.int (n + delta)).Conforms l.type := by
        rw [int]
        rfl
      refine ⟨⟨stack, locals.set l.index (.int (n + delta))⟩, m, _, ?_, rfl, typed.stack,
        typed.locals.increment sum inRange, ?_⟩
      · rw [exec_increment, slot]
        rfl
      · exact (List.length_set ..).trans typed.size
  | invoke m _ fits =>
      exact m.exec_sound false (by simp [anyOf, any, calls]) honours fits
  | suspend m _ fits =>
      exact m.exec_sound true (by simp [anyOf, any, calls]) honours fits
  | getStatic f =>
      refine .of_result fun past ⟨stack, locals⟩ m secure typed => ?_
      have named : anyOf (reads f) [Op.getStatic f] = true := by simp [anyOf, any, reads]
      rw [exec_getStatic]
      rcases static : host.static f with fault | object
      · exact .inr ⟨_, m, rfl, .static named static⟩
      · exact .inl ⟨_, _, [], rfl, rfl,
          typed.of_no_event (.cons (honours.static f named object static _) typed.stack)⟩
  | @convert source target _ from_numeric to_numeric =>
      refine .of_result fun past ⟨stack, locals⟩ m secure typed => .inl ?_
      obtain _ | ⟨conforms, rest⟩ := typed.stack
      obtain ⟨w, converted, conforms⟩ := Value.convert_conforms conforms from_numeric to_numeric
      refine ⟨_, m, [], ?_, rfl, typed.of_no_event (.cons conforms rest)⟩
      rw [exec_convert, converted]
      rfl
  | checkCast r _ fits =>
      refine .of_result fun past ⟨stack, locals⟩ m secure typed => ?_
      obtain _ | @⟨v, _, _, _, conforms, rest⟩ := typed.stack
      rw [exec_checkCast]
      by_cases belongs : v.isInstance r = true
      · rw [if_pos belongs]
        exact .inl ⟨_, m, [], rfl, rfl, typed.of_no_event (.cons belongs rest)⟩
      · rw [if_neg belongs]
        exact .inr ⟨_, m, rfl, .cast (by simp [anyOf, any, casts]) (by simpa using belongs)⟩
  | @box t _ primitive =>
      refine .of_result fun past ⟨stack, locals⟩ m secure typed => .inl ?_
      obtain _ | @⟨v, _, _, _, conforms, rest⟩ := typed.stack
      have same := conforms.primitive primitive
      have belongs : ((Machine.alloc (.wrapper v)).run m).1.Conforms (.ref (.wrapper t)) :=
        decide_eq_true same
      refine ⟨_, ((Machine.alloc (.wrapper v)).run m).2, [], ?_, rfl,
        typed.of_no_event (.cons belongs rest)⟩
      rw [exec_box, if_pos same]
      rfl

end Op.Effect

end MessageCode
