import MessageCode.Proofs.Machine.Policy.Law

/-!
The states that running code leads to, one run after the other, with the points within runs. Of the
values in hand, all come from the machine.
-/

namespace MessageCode

namespace Op

mutual

def record : Op → Recorded
  | .branch test thenOps elseOps => .branch [] test (recordAll thenOps) (recordAll elseOps)
  | .loop condition test body => .loop [] (recordAll condition) test (recordAll body)
  | .scope locals body => .scope [] locals (recordAll body)
  | op => .plain [] op

def recordAll : List Op → List Recorded
  | [] => []
  | op :: rest => op.record :: recordAll rest

end

mutual

theorem op?_record (op : Op) : op.record.op? = some op := by
  cases op with
  | branch test thenOps elseOps => simp [record, Recorded.op?, ops_recordAll]
  | loop condition test body => simp [record, Recorded.op?, ops_recordAll]
  | scope locals body => simp [record, Recorded.op?, ops_recordAll]
  | _ => rfl

theorem ops_recordAll (ops : List Op) : Recorded.ops (recordAll ops) = ops := by
  cases ops with
  | nil => rfl
  | cons op rest => simp [recordAll, Recorded.ops, op?_record op, ops_recordAll rest]

end

end Op

/-- The machines that runs lead to, and the values in hand there: what runs give, what code has within
one, and default instances. Values live on when the machine is a new one. -/
inductive Reachable (s : Schema) : Machine → List Value → Prop
  | start : Reachable s .start []
  | reset {m held} : Reachable s m held → Reachable s m.reset held
  | default {m held typeName r m'} : Reachable s m held →
      (Native.defaultInstance s typeName).run m = (r, m') → Reachable s m' (r.toOption.toList ++ held)
  | run {m held inputs fuel r m'} {code : Sequence} : Reachable s m held → (∀ v ∈ inputs, v ∈ held) →
      (code.run s fuel inputs).run m = (r, m') →
      Reachable s m' (r.toOption.join.toList ++ held)
  | visit {m held inputs fuel p} {code : Sequence} : Reachable s m held → (∀ v ∈ inputs, v ∈ held) →
      Reaches (.ofSchema s) fuel (Op.recordAll code.ops) (code.startFrame inputs) m p →
      Reachable s p.machine (p.frame.stack ++ p.frame.locals ++ held)

structure Policy.Fine (P : Policy) (m : Machine) (held : List Value) : Prop where
  sound : P.sound m.store
  value : ∀ v ∈ held, P.value m.store v

namespace Policy.Fine

variable {P : Policy} {m m' : Machine} {held given inputs : List Value} {host : Host}

theorem more (h : P.Fine m held) (later : P.later m.store m'.store) (sound : P.sound m'.store)
    (new : ∀ v ∈ given, P.value m'.store v) : P.Fine m' (given ++ held) := by
  refine ⟨sound, fun v mem => ?_⟩
  rcases List.mem_append.mp mem with mem | mem
  · exact new v mem
  · exact P.mono later (h.value v mem)

theorem default {s : Schema} {typeName : String} {r : Except Fault Value} (h : P.Fine m held)
    (faults : P.faults) (run : (Native.defaultInstance s typeName).run m = (r, m')) :
    P.Fine m' (r.toOption.toList ++ held) := by
  obtain ⟨later, sound, holds⟩ := Native.defaultInstance_kept _ _ (P.refl _) h.sound _ _ run (.inl faults)
  refine h.more later sound fun v mem => ?_
  cases r with
  | error => cases mem
  | ok w =>
      cases List.mem_singleton.mp mem
      exact holds v rfl

theorem run {fuel : Nat} {code : Sequence} {r : Except Stop (Option Value)} (h : P.Fine m held)
    (hosts : P.Hosts host) (faults : P.faults) (given : ∀ v ∈ inputs, v ∈ held)
    (run : (code.runOn host fuel inputs).run m = (r, m')) :
    P.Fine m' (r.toOption.join.toList ++ held) := by
  obtain ⟨later, sound, holds⟩ := Sequence.runOn_kept hosts _ _
    (fun v mem => h.value v (given v mem)) _ (P.refl _) h.sound _ _ run (.inl faults)
  refine h.more later sound fun v mem => ?_
  cases r with
  | error => cases mem
  | ok result => exact holds result rfl v (Option.mem_toList.mp mem)

theorem visit {fuel : Nat} {code : Sequence} {p : Point} (h : P.Fine m held) (hosts : P.Hosts host)
    (given : ∀ v ∈ inputs, v ∈ held)
    (reaches : Reaches host fuel (Op.recordAll code.ops) (code.startFrame inputs) m p) :
    P.Fine p.machine (p.frame.stack ++ p.frame.locals ++ held) := by
  obtain ⟨later, sound, allows⟩ := reaches.kept hosts h.sound
    (Sequence.startFrame_allows _ fun v mem => h.value v (given v mem))
  refine h.more later sound fun v mem => ?_
  rcases List.mem_append.mp mem with mem | mem
  · exact allows.stack v mem
  · exact allows.locals v mem

/-- A call whose operands are in hand leads to a later store. -/
theorem later_of_invoke {s : Schema} {c : Call} {r : Except Fault Value} (h : P.Fine m held)
    (upholds : P.UpholdsAt s c) (faults : P.faults) (args : ∀ v ∈ c.args, v ∈ held)
    (receiver : ∀ v, c.receiver = some v → v ∈ held) (run : (Native.invoke s c).run m = (r, m')) :
    P.later m.store m'.store :=
  (Native.invoke_keptAt upholds ⟨fun v mem => h.value v (args v mem), fun v same =>
    h.value v (receiver v same)⟩ m (P.refl _) h.sound r m' run (.inl faults)).1

end Policy.Fine

/-- What a policy that is about faults too says of the states that runs lead to. -/
theorem Reachable.kept {P : Policy} {s : Schema} (upholds : P.Upholds s) (faults : P.faults)
    (empty : P.sound .empty) {m : Machine} {held : List Value} (h : Reachable s m held) :
    P.Fine m held := by
  induction h with
  | start => exact ⟨empty, nofun⟩
  | reset _ ih => exact ⟨ih.sound, ih.value⟩
  | default _ run ih => exact ih.default faults run
  | run _ given run ih => exact ih.run upholds.hosts faults given run
  | visit _ given reaches ih => exact ih.visit upholds.hosts given reaches

/-- The objects that values in hand and native lists lead to, and the messages in messages and in
builders. -/
inductive Machine.Has (m : Machine) (held : List Value) : ObjectId → Object → Prop
  | held {v id o} : v ∈ held → v.LeadsTo id o → Has m held id o
  | listed {k items v id o} : m.store.lists.get? k = some items → v ∈ items → v.LeadsTo id o →
      Has m held id o
  | inBuilder {k data id inside} : m.store.builders.get? k = some data →
      data.Holds (.message id inside) → Has m held id (.message inside)
  | inMessage {k data id inside} : Has m held k (.message data) → data.Holds (.message id inside) →
      Has m held id (.message inside)

section

variable {l : LastingLaw} {law : MessageData → Prop} {s : Schema} {m : Machine} {held : List Value}
  {id : ObjectId}

theorem Machine.Has.message (fine : (Policy.ofLasting l).Fine m held) {data : MessageData}
    (has : m.Has held id (.message data)) : Throughout l.law data := by
  generalize same : Object.message data = o at has
  induction has generalizing data with
  | held mem leads =>
      subst same
      exact (fine.value _ mem).message leads
  | listed found mem leads =>
      subst same
      exact (fine.sound.list found _ mem).message leads
  | inBuilder found holds =>
      cases same
      exact (fine.sound.builder found).inside holds
  | inMessage _ holds ih =>
      cases same
      exact (ih rfl).inside holds

theorem Machine.Has.isBuilder (fine : (Policy.ofLasting l).Fine m held) {typeName : String}
    (has : m.Has held id (.builder typeName)) : m.store.IsBuilder id typeName := by
  cases has with
  | held mem leads => exact (fine.value _ mem).builder leads
  | listed found mem leads => exact (fine.sound.list found _ mem).builder leads

/-- A builder that a machine has is lawful and has contents of its type. -/
theorem Machine.Has.builder (fine : (Policy.ofLasting l).Fine m held) {typeName : String}
    (has : m.Has held id (.builder typeName)) :
    (m.store.builderData id typeName).typeName = typeName ∧
      Throughout l.law (m.store.builderData id typeName) := by
  obtain ⟨found, named⟩ := (has.isBuilder fine).builderData
  exact ⟨named, fine.sound.builder found⟩

theorem Reachable.fine (keeps : s.Keeps law) (h : Reachable s m held) :
    (Policy.ofLasting (.ofLaw law keeps.empty)).Fine m held :=
  h.kept (fun c => Policy.ofLasting_upholdsAt (keeps.keepsAt c)) trivial ⟨nofun, nofun⟩

theorem Reachable.lawful (keeps : s.Keeps law) (h : Reachable s m held) :
    m.store.Lawful law ∧ ∀ v ∈ held, v.Lawful law m.store :=
  ⟨(h.fine keeps).sound, (h.fine keeps).value⟩

theorem Reachable.message (keeps : s.Keeps law) (h : Reachable s m held) {data : MessageData}
    (has : m.Has held id (.message data)) : Throughout law data := has.message (h.fine keeps)

theorem Reachable.builder (keeps : s.Keeps law) (h : Reachable s m held) {typeName : String}
    (has : m.Has held id (.builder typeName)) :
    (m.store.builderData id typeName).typeName = typeName ∧
      Throughout law (m.store.builderData id typeName) := has.builder (h.fine keeps)

end

end MessageCode
