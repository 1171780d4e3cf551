import MessageCode.Proofs.Machine.Ascending
import MessageCode.Proofs.Machine.Orderly
import MessageCode.Proofs.Schema.Resolved

/-!
Mutations of builders. A setter, an adder or an operation for extensions checks its operand first, and then
changes no more than its own slot and those of the other members of its oneof. Mutations of fields that
have no oneof in common can change places.
-/

namespace MessageCode

open Stateful

namespace Native

variable {s : Schema} {message : String} {id : ObjectId} {m : Message} {f : Field} {c : Call}

def storeIn (change : Stored → MessageData → MessageData) (message : String) (id : ObjectId) (a : Stored) :
    Native Value := do
  let data ← (Machine.builderData id message : StateM Machine MessageData)
  Machine.setBuilder id (change a data)
  return .ref id (.builder message)

theorem changeBuilder_eq (receiver : c.receiver = some (.ref id (.builder message)))
    (change : Stored → MessageData → MessageData) (a : Stored) :
    changeBuilder c id message (change a) = some <$> storeIn change message id a := by
  unfold changeBuilder
  rw [Call.receiverValue_eq_ok.mpr receiver]
  rfl

theorem atomic_of_ofExcept {α β : Type} {e : Except Fault α} {next : α → Native β} {P : β → Prop}
    (h : ∀ a, e = .ok a → Atomic (next a) P) : Atomic (ofExcept e >>= next) P := by
  cases e with
  | error fault => exact fun _ => .inl rfl
  | ok a => exact h a rfl

theorem changeBuilder_gives (receiver : builderReceiver c = .ok (id, message))
    (change : MessageData → MessageData) :
    Gives (changeBuilder c id message change) fun v => v.isSome = true := by
  unfold changeBuilder
  rw [Call.receiverValue_eq_ok.mpr (builderReceiver_eq_ok.mp receiver)]
  exact fun machine => ⟨some _, _, rfl, rfl⟩

/-- An operation of a builder that faults has changed nothing. -/
theorem invoke_atomic (owner : c.method.owner = .builder message ∨ c.method.owner = .extendableBuilder) :
    Atomic (invoke s c) fun _ => True := by
  have dispatched : Atomic (dispatch s c) fun v => v.isSome = true := by
    unfold dispatch
    rcases owner with owner | owner
    · rw [owner]
      dsimp only
      unfold callBuilder
      cases s.message? message with
      | none => exact .pure none
      | some m =>
          refine atomic_of_ofExcept fun (id, type) receiver => ?_
          dsimp only
          split
          · exact .throw _
          · cases m.builderMethod? c.name with
            | none => exact .pure none
            | some method =>
                cases method with
                | build => exact .of_gives fun machine => ⟨_, _, rfl, rfl⟩
                | set f | add f =>
                    exact atomic_of_ofExcept fun a _ => .of_gives (changeBuilder_gives receiver _)
    · rw [owner]
      dsimp only
      unfold callExtendableBuilder
      refine atomic_of_ofExcept fun (id, type) receiver => ?_
      refine atomic_of_ofExcept fun f _ => atomic_of_ofExcept fun a _ => ?_
      split
      · exact .of_gives (changeBuilder_gives receiver _)
      · split
        · exact .of_gives (changeBuilder_gives receiver _)
        · exact .pure none
  unfold invoke
  refine dispatched.bind (fun v => ?_) fun v given => ?_
  · cases v with
    | none => exact .throw _
    | some v => exact .pure v
  · cases v with
    | none => cases given
    | some v => exact .pure trivial

def operand (c : Call) (f : Field) : Except Fault Stored :=
  if c.method.owner = .extendableBuilder then c.arg 1 >>= Storage.ofExtensionValue c f
  else c.arg 0 >>= Storage.ofValue c f

theorem invoke_of_dispatch {x : Except Fault Stored} {next : Stored → Native Value}
    (h : dispatch s c = ofExcept x >>= fun a => some <$> next a) :
    invoke s c = ofExcept x >>= next := by
  unfold invoke
  rw [h, bind_assoc]
  refine congrArg _ (funext fun a => ?_)
  rw [bind_map_left]
  exact bind_pure _

/-- A setter or an adder whose name leads to the field stores its operand. -/
theorem invoke_setter (found : s.message? message = some m) (owner : c.method.owner = .builder message)
    (receiver : c.receiver = some (.ref id (.builder message)))
    (sets : m.builderMethod? c.name = some (if f.isRepeated then .add f else .set f)) :
    invoke s c = ofExcept (operand c f) >>= storeIn (m.store f) message id := by
  apply invoke_of_dispatch
  unfold dispatch operand
  rw [owner]
  dsimp only
  unfold callBuilder
  rw [found, builderReceiver_eq_ok.mpr receiver, if_neg nofun]
  simp only [ofExcept, pure_bind]
  rw [if_neg (not_not.mpr rfl), sets]
  cases many : f.isRepeated with
  | false => simp only [changeBuilder_eq receiver (setField m f), m.store_singular many, Bool.false_eq_true,
      if_false]
  | true => simp only [changeBuilder_eq receiver (fun a data => data.push f.number f.name a),
      m.store_repeated many, if_true]

/-- The operation for extensions that fits the label of the one that is identified to it stores its
operand. -/
theorem invoke_storeExtension (owner : c.method.owner = .extendableBuilder)
    (receiver : c.receiver = some (.ref id (.builder message)))
    (identified : extensionArg s c message = .ok f) (alone : f.oneof = none)
    (called : c.name = if f.isRepeated then "add_extension" else "set_extension") (m : Message) :
    invoke s c = ofExcept (operand c f) >>= storeIn (m.store f) message id := by
  apply invoke_of_dispatch
  unfold dispatch operand
  rw [owner, if_pos rfl]
  dsimp only
  unfold callExtendableBuilder
  rw [builderReceiver_eq_ok.mpr receiver]
  simp only [ofExcept, pure_bind]
  rw [identified]
  simp only [pure_bind]
  rw [called]
  cases many : f.isRepeated with
  | false =>
      have set : m.store f = fun a data => data.set f.number f.name (.single a) := by
        rw [m.store_singular many]
        funext a data
        rw [setField, alone]
      simp only [Bool.false_eq_true, if_false, if_true, set,
        changeBuilder_eq receiver (fun a data => data.set f.number f.name (.single a))]
  | true =>
      have other : ¬"add_extension" = "set_extension" := by decide
      simp only [if_true, if_neg other, m.store_repeated many,
        changeBuilder_eq receiver (fun a data => data.push f.number f.name a)]

end Native

namespace Message

variable {m : Message} {f g : Field} {a b : Stored} {data : MessageData} {k : Int32}

/-- Values of two fields can be stored in either order, if neither clears the slot of the other. -/
theorem store_comm (ascending : data.Ascending) (apart : f.number ≠ g.number)
    (kept : f.number ∉ m.cleared g) (kept' : g.number ∉ m.cleared f) :
    m.store f a (m.store g b data) = m.store g b (m.store f a data) := by
  refine (store_ascending (store_ascending ascending)).ext (store_ascending (store_ascending ascending))
    (by simp) fun k => ?_
  simp only [slot?_store, if_neg apart, if_neg apart.symm, if_neg kept, if_neg kept']
  by_cases own : k = f.number
  · simp [own, apart, kept]
  · by_cases other : k = g.number
    · simp [other, apart.symm, kept']
    · simp only [if_neg own, if_neg other]
      split <;> split <;> rfl

end Message

def Field.SharesOneof (f g : Field) : Prop := ∃ oneof, f.oneof = some oneof ∧ g.oneof = some oneof

/-- The contents after the field has gained a value. A repeated field has it after its elements, the other
members of its oneof are unset, and under all other numbers nothing has changed. -/
structure Field.Gains (s : Schema) (f : Field) (a : Stored) (data data' : MessageData) : Prop where
  own : data'.content? f.number =
    some (if f.isRepeated then .repeated (data.elements f.number ++ [a]) else .single a)
  siblings : ∀ g ∈ s.fieldsOf data.typeName, f.SharesOneof g → g ≠ f → data'.isSet g.number = false
  others : ∀ k, k ≠ f.number → (∀ g ∈ s.fieldsOf data.typeName, f.SharesOneof g → k ≠ g.number) →
    data'.slot? k = data.slot? k

/-- Contents of the type whose slots are in order, each one of a field of its label and kind, with at most
one member set of each oneof. -/
structure Tended (s : Schema) (message : String) (data : MessageData) : Prop where
  typeName : data.typeName = message
  ascending : data.Ascending
  homed : Homed s (fun _ => True) data
  exclusive : Exclusive s data

theorem Tended.empty (s : Schema) (message : String) : Tended s message (.empty message) :=
  ⟨rfl, .empty message, .empty message, .empty message⟩

/-- The builders that orderly runs lead to are tended. -/
theorem Orderly.tended {files : List FileDescription} {s : Schema} (resolved : Schema.resolve files = .ok s)
    {machine : Machine} {held : List Value} {id : ObjectId} {message : String} (h : Orderly s machine held)
    (has : machine.Has held id (.builder message)) :
    Tended s message (machine.store.builderData id message) := by
  have wf := Schema.wellFormed_of_resolve resolved
  obtain ⟨typeName, homed⟩ := (h.homes wf).builder id message has
  obtain ⟨-, exclusive⟩ := h.reachable.builder wf.loaded.keeps_exclusive has
  exact ⟨typeName, h.reachable.builder_ascending has, homed, exclusive.here⟩

section

variable {s : Schema} {message : String} {m : Message} {f g : Field} {a : Stored} {data : MessageData}

theorem Schema.Loaded.mem_cleared_iff (loaded : s.Loaded) (found : s.message? message = some m)
    (mem : f ∈ s.fieldsOf message) {k : Int32} :
    k ∈ m.cleared f ↔ ∃ g ∈ s.fieldsOf message, f.SharesOneof g ∧ g.number = k := by
  unfold Message.cleared
  constructor
  · intro cleared
    split at cleared
    · cases cleared
    split at cleared
    · rename_i oneof member
      obtain ⟨g, within, number⟩ := List.mem_map.mp cleared
      obtain ⟨declared, member'⟩ := Message.mem_members.mp within
      exact ⟨g, (mem_fieldsOf found).mpr (.inl declared), ⟨oneof, member, member'⟩, number⟩
    · cases cleared
  · rintro ⟨g, mem', ⟨oneof, member, member'⟩, number⟩
    have singular : ¬f.isRepeated = true := by
      intro many
      rw [loaded.oneof_eq_none found mem many] at member
      cases member
    rw [if_neg singular, member]
    exact List.mem_map.mpr ⟨g, loaded.mem_members found mem' member', number⟩

theorem Schema.Loaded.not_mem_cleared (loaded : s.Loaded) (found : s.message? message = some m)
    (mem : f ∈ s.fieldsOf message) (mem' : g ∈ s.fieldsOf message) (apart : ¬f.SharesOneof g) :
    g.number ∉ m.cleared f := by
  intro cleared
  obtain ⟨h, mem'', shares, number⟩ := (loaded.mem_cleared_iff found mem).mp cleared
  cases (loaded.apart_fieldsOf found).eq_of_number mem'' mem' number
  exact apart shares

/-- The field gains the value that is stored. -/
theorem Tended.gains (loaded : s.Loaded) (found : s.message? message = some m) (h : Tended s message data)
    (mem : f ∈ s.fieldsOf message) (a : Stored) : f.Gains s a data (m.store f a data) := by
  obtain ⟨rfl, -, homed, -⟩ := h
  have apart := loaded.apart_fieldsOf found
  refine ⟨?_, fun g mem' shares other => ?_, fun k other free => ?_⟩
  · rw [Record.content?_eq, Message.slot?_store, if_pos rfl]
    refine congrArg some (Field.content_slot.trans ?_)
    cases many : f.isRepeated with
    | false => rfl
    | true => rw [homed.listed_eq apart mem trivial many]
  · have number : g.number ≠ f.number := fun same => other (apart.eq_of_number mem' mem same)
    have cleared := (loaded.mem_cleared_iff found mem).mpr ⟨g, mem', shares, rfl⟩
    rw [Record.isSet_eq, Message.slot?_store, if_neg number, if_pos cleared]
    rfl
  · have kept : k ∉ m.cleared f := by
      intro cleared
      obtain ⟨g, mem', shares, number⟩ := (loaded.mem_cleared_iff found mem).mp cleared
      exact free g mem' shares number.symm
    rw [Message.slot?_store, if_neg other, if_neg kept]

theorem Tended.store (loaded : s.Loaded) (found : s.message? message = some m) (h : Tended s message data)
    (mem : f ∈ s.fieldsOf message) (kind : a.IsKind f.kind) : Tended s message (m.store f a data) := by
  obtain ⟨rfl, ascending, homed, exclusive⟩ := h
  refine ⟨Message.typeName_store, Message.store_ascending ascending, ?_, exclusive.store loaded found mem⟩
  exact homed_iff.mpr ((homed_iff.mp homed).store (loaded.apart_fieldsOf found) mem kind)

end

/-- The call stores its operand in the field of the message: by a setter or an adder whose name leads to the
field, or by the operation for extensions of its label. -/
inductive Call.Mutates (s : Schema) (message : String) (c : Call) : Field → Prop
  | set {m f} : c.method.owner = .builder message → s.message? message = some m →
      m.builderMethod? c.name = some (.set f) → Mutates s message c f
  | add {m f} : c.method.owner = .builder message → s.message? message = some m →
      m.builderMethod? c.name = some (.add f) → Mutates s message c f
  | setExtension {f} : c.method.owner = .extendableBuilder → c.name = "set_extension" →
      Native.extensionArg s c message = .ok f → f.isRepeated = false → Mutates s message c f
  | addExtension {f} : c.method.owner = .extendableBuilder → c.name = "add_extension" →
      Native.extensionArg s c message = .ok f → f.isRepeated = true → Mutates s message c f

namespace Call.Mutates

variable {s : Schema} {message : String} {id : ObjectId} {m : Message} {c : Call} {f : Field}

theorem mem_fieldsOf (h : c.Mutates s message f) : f ∈ s.fieldsOf message := by
  cases h with
  | set _ found named =>
      exact (Schema.Loaded.mem_fieldsOf found).mpr (.inl (Message.mem_of_builderMethod?_set named).1)
  | add _ found named =>
      exact (Schema.Loaded.mem_fieldsOf found).mpr (.inl (Message.mem_of_builderMethod?_add named).1)
  | setExtension _ _ identified _ | addExtension _ _ identified _ =>
      obtain ⟨mem, container⟩ := Native.extensionArg_mem identified
      exact Schema.extension_mem mem container

/-- A mutation checks its operand and then stores it, and does nothing else. -/
theorem invoke_eq (h : c.Mutates s message f) (loaded : s.Loaded) (found : s.message? message = some m)
    (receiver : c.receiver = some (.ref id (.builder message))) :
    Native.invoke s c = Native.ofExcept (Native.operand c f) >>= Native.storeIn (m.store f) message id := by
  cases h with
  | set owner found' named =>
      cases found.symm.trans found'
      have singular := (Message.mem_of_builderMethod?_set named).2
      exact Native.invoke_setter found owner receiver (by rw [named, singular]; rfl)
  | add owner found' named =>
      cases found.symm.trans found'
      have many := (Message.mem_of_builderMethod?_add named).2
      exact Native.invoke_setter found owner receiver (by rw [named, many]; rfl)
  | setExtension owner called identified label | addExtension owner called identified label =>
      have alone := loaded.alone f (Native.extensionArg_mem identified).1
      exact Native.invoke_storeExtension owner receiver identified alone (by rw [called, label]; rfl) m

theorem isKind_of_operand {c : Call} {f : Field} {a : Stored} (taken : Native.operand c f = .ok a) :
    a.IsKind f.kind := by
  unfold Native.operand at taken
  split at taken
  · obtain ⟨_, _, taken⟩ := Fallible.bind_eq_ok.mp taken
    obtain ⟨_, taken⟩ := Storage.exists_of_ofExtensionValue taken
    exact Storage.isKind_of_ofValue? taken
  · obtain ⟨_, _, taken⟩ := Fallible.bind_eq_ok.mp taken
    exact Storage.isKind_of_ofValue? (Storage.ofValue_eq_ok.mp taken)

/-- A mutation that succeeds has stored its operand and gives its receiver back. -/
theorem run_eq_ok (h : c.Mutates s message f) (loaded : s.Loaded) (found : s.message? message = some m)
    (receiver : c.receiver = some (.ref id (.builder message))) {machine machine' : Machine} {v : Value} :
    (Native.invoke s c).run machine = (.ok v, machine') ↔ v = .ref id (.builder message) ∧
      ∃ a, Native.operand c f = .ok a ∧ machine' = { machine with
        store := machine.store.setBuilder id (m.store f a (machine.store.builderData id message)) } := by
  rw [h.invoke_eq loaded found receiver]
  cases Native.operand c f with
  | error fault => exact ⟨nofun, fun ⟨_, _, taken, _⟩ => nomatch taken⟩
  | ok a =>
      constructor
      · intro run
        cases run
        exact ⟨rfl, a, rfl, rfl⟩
      · rintro ⟨rfl, _, ⟨⟩, rfl⟩
        rfl

end Call.Mutates

section

variable {s : Schema} {files : List FileDescription} {message : String} {id : ObjectId} {machine : Machine}

/-- An operation of a builder that faults has changed nothing. A mutation that succeeds gives its builder
back, in which its field has gained the operand and nothing else has changed. Two mutations of different
fields that have no oneof in common come to the same in either order. -/
theorem Tended.mutations (resolved : Schema.resolve files = .ok s)
    (tended : Tended s message (machine.store.builderData id message)) {c : Call}
    (owner : c.method.owner = .builder message ∨ c.method.owner = .extendableBuilder)
    (receiver : c.receiver = some (.ref id (.builder message))) :
    (∀ fault machine', (Native.invoke s c).run machine = (.error fault, machine') → machine' = machine) ∧
    ∀ f, c.Mutates s message f → ∀ v machine₁, (Native.invoke s c).run machine = (.ok v, machine₁) →
      (v = .ref id (.builder message) ∧ ∃ a data, Native.operand c f = .ok a ∧
        f.Gains s a (machine.store.builderData id message) data ∧ Tended s message data ∧
        machine₁ = { machine with store := machine.store.setBuilder id data }) ∧
      ∀ c' : Call, c'.receiver = some (.ref id (.builder message)) → ∀ g, c'.Mutates s message g →
        f ≠ g → ¬f.SharesOneof g → ∀ v' machine₂,
          (Native.invoke s c').run machine₁ = (.ok v', machine₂) →
            ∃ machine₁', (Native.invoke s c').run machine = (.ok v', machine₁') ∧
              (Native.invoke s c).run machine₁' = (.ok v, machine₂) := by
  have loaded := Schema.loaded_of_resolve resolved
  refine ⟨fun fault machine' run => (Native.invoke_atomic owner).eq_of_error run, ?_⟩
  intro f mutates v machine₁ run
  have mem := mutates.mem_fieldsOf
  obtain ⟨m, found⟩ := (Schema.wellFormed_of_resolve resolved).exists_message mem
  obtain ⟨rfl, a, taken, rfl⟩ := (mutates.run_eq_ok loaded found receiver).mp run
  refine ⟨⟨rfl, a, _, taken, tended.gains loaded found mem a,
    tended.store loaded found mem (Call.Mutates.isKind_of_operand taken), rfl⟩, ?_⟩
  intro c' receiver' g mutates' other apart v' machine₂ run'
  have mem' := mutates'.mem_fieldsOf
  obtain ⟨rfl, b, taken', rfl⟩ := (mutates'.run_eq_ok loaded found receiver').mp run'
  refine ⟨_, (mutates'.run_eq_ok loaded found receiver').mpr ⟨rfl, b, taken', rfl⟩, ?_⟩
  refine (mutates.run_eq_ok loaded found receiver).mpr ⟨rfl, a, taken, ?_⟩
  have numbers : f.number ≠ g.number :=
    fun same => other ((loaded.apart_fieldsOf found).eq_of_number mem mem' same)
  have apart' : ¬g.SharesOneof f := fun ⟨oneof, member, member'⟩ => apart ⟨oneof, member', member⟩
  have commutes := Message.store_comm (a := a) (b := b) tended.ascending numbers
    (loaded.not_mem_cleared found mem' mem apart') (loaded.not_mem_cleared found mem mem' apart)
  simp only [Store.builderData_setBuilder_self, commutes]
  simp only [Store.setBuilder, Cells.set_set]

end

def Call.toneSetter (operand : Value) : Call where
  method := (Signature.onInstance (.builder "demo.Letter") "set_tone" [.ref (.enum "demo.Tone")]
    (.builder "demo.Letter")).neverNull
  receiver := some (.ref 0 (.builder "demo.Letter"))
  args := [operand]

def Call.weightSetter (operand : Value) : Call where
  method := Signature.setExtension
  receiver := some (.ref 0 (.builder "demo.Letter"))
  args := [.ref 1 (.extension "demo.Letter" "weight"), operand]

/-- A tone that is text is refused and nothing has changed. A letter with a tone and a weight is the same
whichever was set first. -/
theorem letter_mutations :
    let start := (Machine.allocBuilder (.empty "demo.Letter") .start).2
    let builder := Value.ref 0 (.builder "demo.Letter")
    let setTone := Call.toneSetter (.ref 2 (.enumConst "demo.Tone" 2))
    let setWeight := Call.weightSetter (.ref 2 (.wrapper (.long 9)))
    (∃ fault machine, (Native.invoke letterSchema (.toneSetter (.ref 2 (.text "WARM")))).run start =
      (.error fault, machine) ∧ machine = start) ∧
    ∃ machine₁ machine₁' machine₂,
      (Native.invoke letterSchema setTone).run start = (.ok builder, machine₁) ∧
      (Native.invoke letterSchema setWeight).run machine₁ = (.ok builder, machine₂) ∧
      (Native.invoke letterSchema setWeight).run start = (.ok builder, machine₁') ∧
      (Native.invoke letterSchema setTone).run machine₁' = (.ok builder, machine₂) := by
  intro start builder setTone setWeight
  have tended : Tended letterSchema "demo.Letter" (start.store.builderData 0 "demo.Letter") := .empty _ _
  have tones : setTone.Mutates letterSchema "demo.Letter" _ := .set rfl rfl rfl
  have weighs : setWeight.Mutates letterSchema "demo.Letter" letterWeight := .setExtension rfl rfl rfl rfl
  have refused := (tended.mutations letterSchema_resolved
    (c := .toneSetter (.ref 2 (.text "WARM"))) (.inl rfl) rfl).1
  have done := (tended.mutations letterSchema_resolved (c := setTone) (.inl rfl) rfl).2 _ tones
  refine ⟨⟨_, _, rfl, refused _ _ rfl⟩, ?_⟩
  obtain ⟨machine₁', weighed, toned⟩ := (done builder _ rfl).2 setWeight rfl _ weighs (by decide)
    (fun ⟨_, _, outside⟩ => nomatch outside) builder _ rfl
  exact ⟨_, machine₁', _, rfl, rfl, weighed, toned⟩

end MessageCode
