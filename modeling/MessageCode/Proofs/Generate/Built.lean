import MessageCode.Proofs.Generate.Offered
import MessageCode.Proofs.Machine.Placed

/-!
Messages from any number of arguments. Every argument is left out or gives values, and storing them keeps
the message valid; a run ends at the first value that its field refuses, or else with the message.
-/

namespace MessageCode

open Stateful

/-- The argument gives the field values: none if it is null, and else those that its code offers. -/
inductive Field.Argued (s : Schema) (f : Field) (fuel : Nat) : TypedValue → List LogicalValue → Prop
  | null : f.Argued s fuel .null []
  | offered {v boxed values} : f.Offered s fuel v boxed (· = values) → f.Argued s fuel v values

structure Argues (s : Schema) (message : String) (fuel : Nat) (argument : String × TypedValue)
    (given : Field × List LogicalValue) : Prop where
  mem : given.1 ∈ s.fieldsOf message
  name : given.1.name = argument.1
  argued : given.1.Argued s fuel argument.2 given.2

/-- The stop at the first of the values that the field refuses, among those that an index can reach. -/
def Field.rejection? (s : Schema) (given : Field × List LogicalValue) : Option Stop :=
  match Coercion.of s given.1 with
  | .ok c => given.1.firstRefusal? s c (given.2.take Int32.maxValue.toInt.toNat)
  | .error _ => none

section

variable {s : Schema} {message : String} {m : Message} {f : Field} {a : Stored} {data data' : MessageData}
  {values : List LogicalValue} {v : TypedValue} {fuel : Nat} {c : Coercion}

structure Built (s : Schema) (message : String) (data : MessageData) : Prop where
  valid : Valid s data
  typeName : data.typeName = message
  ascending : data.Ascending

theorem Field.Stores.built (stores : f.Stores s m values data data') (loaded : s.Loaded)
    (found : s.message? message = some m) (mem : f ∈ s.fieldsOf message) (start : Built s message data) :
    Built s message data' := by
  obtain ⟨stored, known, rfl⟩ := stores
  induction known generalizing data with
  | nil => exact start
  | cons first _ ih =>
      obtain ⟨valid, rfl, ascending⟩ := start
      have stored := valid.store loaded found mem first.1
      rw [Message.store_eq_adding ascending] at stored
      exact ih ⟨stored, rfl, Message.adding_ascending ascending⟩

namespace Field.Argued

/-- An argument is stored up to the first of its values that the field refuses. -/
theorem argument_settles (argued : f.Argued s fuel v values) (loaded : s.Loaded)
    (found : s.message? message = some m) (mem : f ∈ s.fieldsOf message) (id : ObjectId)
    (data : MessageData) (machine : Machine) :
    Settles (Filling.argument s fuel m id data (f.name, v)) machine (rejection? s (f, values))
      (f.Stores s m (values.take Int32.maxValue.toInt.toNat) data) := by
  obtain ⟨c, coercion⟩ := Coercion.exists_of (loaded.field found mem)
  have named : s.field? m.fullName f.name = some f := by
    rw [Schema.Loaded.fullName_eq found]
    exact loaded.field?_eq found mem
  rw [Filling.argument_eq named coercion, rejection?]
  dsimp only
  rw [coercion]
  cases argued with
  | null =>
      rw [Filling.fill_null rfl]
      exact .pure ⟨[], .nil, rfl⟩
  | offered offered =>
      obtain ⟨_, rfl, settles⟩ := offered.fill_settles (m := m) loaded coercion id data machine
      exact settles

theorem admissible (argued : f.Argued s fuel v values) (named : s.field? m.fullName f.name = some f)
    (sets : f.SetsBack s m) : Filling.Admissible s fuel m (f.name, v) := by
  cases argued with
  | null =>
      refine ⟨Sequence.constant_isProper .null, TypedValue.ofConstant_truthful .null _ _ _, ?_⟩
      intro g named'
      cases named.symm.trans named'
      exact sets
  | offered offered => exact offered.admissible named sets

/-- There is code that stores the argument. -/
theorem restacks (argued : f.Argued s fuel v values) (loaded : s.Loaded)
    (found : s.message? message = some m) (mem : f ∈ s.fieldsOf message) :
    Restacks [.builder message] [.builder message]
      (Construction.setArgument s .immediate message (f.name, v)) := by
  obtain ⟨c, coercion⟩ := Coercion.exists_of (loaded.field found mem)
  have named := loaded.field?_eq found mem
  have container := loaded.container found mem
  cases argued with
  | null =>
      have admits : f.Admits c.logicalType .null := by
        unfold Field.Admits
        split
        · exact .inl rfl
        · exact .null
      have native : TypedValue.null.native = ValueType.null.given false := rfl
      exact .setArgument ListResolver.immediate_waits named container coercion rfl admits native
  | offered offered =>
      exact .setArgument ListResolver.immediate_waits named container coercion offered.inputs
        (offered.takes c coercion).admits offered.native

end Field.Argued

variable {arguments : List (String × TypedValue)} {given : List (Field × List LogicalValue)}

namespace Filling

theorem arguments_settle (argues : List.Forall₂ (Argues s message fuel) arguments given) (loaded : s.Loaded)
    (found : s.message? message = some m) (id : ObjectId) (start : Built s message data)
    (machine : Machine) :
    Settles (arguments.foldlM (argument s fuel m id) data) machine (given.findSome? (Field.rejection? s))
      (Built s message) := by
  induction argues generalizing data machine with
  | nil => exact .pure start
  | @cons argument first arguments given argues _ ih =>
      obtain ⟨name, v⟩ := argument
      obtain ⟨f, values⟩ := first
      obtain ⟨mem, rfl, argued⟩ := argues
      have stops : ((f, values) :: given).findSome? (Field.rejection? s) =
          (Field.rejection? s (f, values)).or (given.findSome? (Field.rejection? s)) := by
        rw [List.findSome?_cons]
        cases Field.rejection? s (f, values) <;> rfl
      rw [List.foldlM_cons, stops]
      refine (argued.argument_settles loaded found mem id data machine).bind fun data' machine' stores => ?_
      exact ih (stores.built loaded found mem start) machine'

theorem defaultInstance_gives (found : s.message? message = some m) :
    Gives (Run.ofNative (Native.defaultInstance s message)) fun w =>
      ∃ id, w = .ref id (.message (.empty message)) := by
  intro machine
  have identified : ∃ id after, (Native.defaultId s message).run machine = (.ok id, after) := by
    unfold Native.defaultId
    rw [run_bind_ok (run_get machine)]
    cases machine.defaults.find? fun entry => entry.1 = message with
    | some entry => exact ⟨entry.2, machine, rfl⟩
    | none =>
        simp only [found, Option.isNone_some, Bool.false_eq_true, if_false]
        exact ⟨_, _, rfl⟩
  obtain ⟨id, after, run⟩ := identified
  refine ⟨_, after, ?_, id, rfl⟩
  rw [Run.run_ofNative, Native.defaultInstance, run_bind_ok run]
  rfl

theorem message_settles (argues : List.Forall₂ (Argues s message fuel) arguments given) (loaded : s.Loaded)
    (found : s.message? message = some m) (machine : Machine) :
    Settles (Filling.message s fuel m arguments) machine (given.findSome? (Field.rejection? s)) fun w =>
      ∃ id data, w = .ref id (.message data) ∧ Built s message data := by
  have full := Schema.Loaded.fullName_eq found
  have fresh : Built s message (.empty message) := ⟨Valid.empty s message, rfl, .empty message⟩
  cases arguments with
  | nil =>
      cases argues
      unfold Filling.message
      rw [full]
      refine (defaultInstance_gives found).imp ?_ machine
      rintro w ⟨id, rfl⟩
      exact ⟨id, _, rfl, fresh⟩
  | cons first rest =>
      have settles := arguments_settle argues loaded found machine.store.nextId fresh
        (machine.building (.empty message))
      have built := @run_message s fuel m (first :: rest) rfl machine
      rw [full] at built
      refine (settles.before fun data valid => ?_).of_eq built
      exact fun machine => ⟨_, _, rfl, _, data, rfl, valid⟩

end Filling

/-- There is code for a message from arguments that give values to its fields, and it runs to a valid
message, unless one of the values is refused. -/
theorem Schema.Loaded.construction_settles (loaded : s.Loaded) (found : s.message? message = some m)
    (sets : ∀ f ∈ s.fieldsOf message, f.SetsBack s m)
    (argues : List.Forall₂ (Argues s message fuel) arguments given)
    (enough : Int32.maxValue.toInt.toNat < fuel) :
    ∃ k, generateConstruction s .immediate message arguments = .ok k ∧
      ∀ machine : Machine, machine.Tidy →
        Settles (k.code.run s fuel []) machine (given.findSome? (Field.rejection? s)) fun result =>
          ∃ id data, result = some (.ref id (.message data)) ∧ Built s message data := by
  have stores : ∀ argument ∈ arguments, Restacks [.builder message] [.builder message]
      (Construction.setArgument s .immediate message argument) := by
    intro argument mem
    obtain ⟨name, v⟩ := argument
    obtain ⟨⟨f, values⟩, -, mem', rfl, argued⟩ := Paired.right_of_mem argues mem
    exact argued.restacks loaded found mem'
  obtain ⟨k, generated⟩ := MessageCode.exists_generateConstruction found stores
  have admissible : ∀ argument ∈ arguments, Filling.Admissible s fuel m argument := by
    intro argument mem
    obtain ⟨name, v⟩ := argument
    obtain ⟨⟨f, values⟩, -, mem', rfl, argued⟩ := Paired.right_of_mem argues mem
    have named := loaded.field?_eq found mem'
    rw [← Schema.Loaded.fullName_eq found] at named
    exact argued.admissible named (sets f mem')
  refine ⟨k, generated, fun machine tidy => ?_⟩
  have run := Filling.run_generated loaded found generated enough admissible tidy
  have settles := Filling.message_settles argues loaded found machine
  refine (settles.map fun w built => ?_).of_eq run
  obtain ⟨id, data, rfl, valid⟩ := built
  exact ⟨id, data, rfl, valid⟩

end

end MessageCode
