import MessageCode.Proofs.Generate.Construct
import MessageCode.Proofs.Generate.Refused

/-!
Code that offers values to a field. What building a message does with the values of an argument: they
are stored one after the other, up to the first one that the field refuses.
-/

namespace MessageCode

open Stateful

/-- An item of a list: the value in boxed form, or a provider of it. -/
def LogicalValue.Supplied (l : LogicalValue) (v : Value) : Prop :=
  l.InBox v ∨ ∃ id w, v = .ref id (.provider w) ∧ l.InBox w

def Value.Lists (boxed : Bool) (store : Store) (items : List Value) (v : Value) : Prop :=
  if boxed then ∃ id, v = .ref id (.boxed (.list items))
  else ∃ id, v = .ref id .list ∧ store.listItems id = items

/-- The value stands for the logical values: for the only one, or for all in a list. -/
def Field.Offers (f : Field) (boxed : Bool) (store : Store) (values : List LogicalValue) (v : Value) :
    Prop :=
  if f.isRepeated then ∃ items, v.Lists boxed store items ∧ List.Forall₂ LogicalValue.Supplied values items
  else ∃ l, values = [l] ∧ Access.Form boxed l v

/-- The contents after the values are stored in the field one after the other. -/
def Field.Stores (s : Schema) (m : Message) (f : Field) (values : List LogicalValue)
    (data data' : MessageData) : Prop :=
  ∃ stored, List.Forall₂ (fun l a => a.Fits s f ∧ f.logical a = f.normalised (f.narrowed l)) values stored ∧
    data' = stored.foldl (fun data a => m.adding f a data) data

/-- The fault with which a field refuses the first of the values that it refuses. -/
def Field.firstRefusal? (s : Schema) (f : Field) (c : Coercion) (values : List LogicalValue) : Option Stop :=
  (values.findSome? (f.refusal? s c)).map .fault

theorem Field.firstRefusal?_cons (s : Schema) (f : Field) (c : Coercion) (l : LogicalValue)
    (values : List LogicalValue) :
    f.firstRefusal? s c (l :: values) = ((f.refusal? s c l).map .fault).or (f.firstRefusal? s c values) := by
  unfold firstRefusal?
  rw [List.findSome?_cons]
  cases f.refusal? s c l <;> rfl

@[simp] theorem Field.firstRefusal?_nil (s : Schema) (f : Field) (c : Coercion) :
    f.firstRefusal? s c [] = none := rfl

theorem Field.firstRefusal?_singleton (s : Schema) (f : Field) (c : Coercion) (l : LogicalValue) :
    f.firstRefusal? s c [l] = (f.refusal? s c l).map .fault := by
  rw [firstRefusal?_cons, firstRefusal?_nil, Option.or_none]

theorem Filling.take_singleton {α : Type} (a : α) : [a].take Int32.maxValue.toInt.toNat = [a] := by
  apply List.take_of_length_le
  rw [List.length_singleton]
  decide

theorem Field.Stores.trans {s : Schema} {m : Message} {f : Field} {l : LogicalValue}
    {values : List LogicalValue} {data data' data'' : MessageData} (h : f.Stores s m [l] data data')
    (h' : f.Stores s m values data' data'') : f.Stores s m (l :: values) data data'' := by
  obtain ⟨_, one, rfl⟩ := h
  obtain ⟨stored, more, rfl⟩ := h'
  cases one with
  | cons known none =>
      cases none
      exact ⟨_, .cons known more, rfl⟩

theorem Access.Form.present {boxed : Bool} {l : LogicalValue} {v : Value} (form : Form boxed l v) :
    v.isNull = false := by
  cases boxed with
  | true =>
      obtain ⟨id, rfl⟩ := form
      rfl
  | false =>
      cases l with
      | text t | sanitized kind t =>
          obtain ⟨id, rfl⟩ := form
          rfl
      | _ =>
          cases form
          rfl

namespace Filling

variable {s : Schema} {f : Field} {c : Coercion} {m : Message} {boxed : Bool}

/-- A boxed element of the kind is taken as it is. -/
theorem element_gives (s : Schema) {l : LogicalValue} {v : Value} (form : l.InBox v) :
    Gives (element (.ofSchema s) l.type.boxedKind v) l.InBox := by
  obtain ⟨id, rfl⟩ := form
  cases l <;> exact fun m => ⟨_, _, rfl, _, rfl⟩

theorem run_waitFor (s : Schema) (type : ValueType) {items : List Value} {w : Value} {machine : Machine}
    (lists : w.Lists boxed machine.store items) :
    ∃ after, (unboxFrom (.ofSchema s) ((ValueType.list type).given boxed) Signature.list w >>=
      waitFor).run machine = (.ok (items.map Native.resolved), after) := by
  cases boxed with
  | false =>
      obtain ⟨id, rfl, rfl⟩ := lists
      exact ⟨_, rfl⟩
  | true =>
      obtain ⟨id, rfl⟩ := lists
      let listed : Machine := { machine with store :=
        { machine.store with nextId := machine.store.nextId + 1 }.setList machine.store.nextId items }
      have unboxed : (unboxFrom (.ofSchema s) ((ValueType.list type).given true) Signature.list
          (.ref id (.boxed (.list items)))).run machine = (.ok (.ref machine.store.nextId .list), listed) := rfl
      have held : listed.store.listItems machine.store.nextId = items :=
        congrArg (Option.getD · []) Cells.get?_set_self
      rw [run_bind_ok unboxed, ← held]
      exact ⟨_, rfl⟩

theorem addElement_settles (loaded : s.Loaded) (covers : c.Covers s f) {l : LogicalValue}
    (same : c.logicalType = l.type) (sound : l.Sound s) {v : Value} (form : l.InBox v) (id : ObjectId)
    (data : MessageData) (machine : Machine) :
    Settles (addElement (.ofSchema s) m f c c.logicalType id data v) machine
      ((f.refusal? s c l).map .fault) (f.Stores s m [l] data) := by
  have taken := element_gives s form
  rw [← same] at taken
  have adds (machine : Machine) : Settles (element (.ofSchema s) c.logicalType.boxedKind v >>= fun w =>
      Filling.stored (.ofSchema s) f c c.logicalType (.boxed c.logicalType.boxedKind) false w >>= fun a =>
        keep id (m.adding f a data)) machine ((f.refusal? s c l).map .fault) (f.Stores s m [l] data) := by
    refine .after taken fun w machine' form => ?_
    have boxed : Access.Form true l w := form
    refine (stored_settles loaded covers same sound boxed false machine').before fun a known => ?_
    exact fun machine => ⟨_, _, rfl, [a], .cons known .nil, rfl⟩
  unfold addElement
  cases f.isExtension with
  | false =>
      simp only [Bool.false_eq_true, if_false]
      exact adds machine
  | true =>
      have identified : Gives identify (fun _ => True) := fun machine => ⟨_, _, rfl, trivial⟩
      simp only [if_true]
      exact .after identified fun _ machine' _ => adds machine'

theorem addElements_settles (loaded : s.Loaded) (covers : c.Covers s f) {values : List LogicalValue}
    {items : List Value} (typed : ∀ l ∈ values, c.logicalType = l.type ∧ l.Sound s)
    (forms : List.Forall₂ LogicalValue.InBox values items) (id : ObjectId) (data : MessageData)
    (machine : Machine) :
    Settles (items.foldlM (addElement (.ofSchema s) m f c c.logicalType id) data) machine
      (f.firstRefusal? s c values) (f.Stores s m values data) := by
  induction forms generalizing data machine with
  | nil => exact .pure ⟨[], .nil, rfl⟩
  | @cons l v values items form forms ih =>
      obtain ⟨same, sound⟩ := typed l List.mem_cons_self
      rw [List.foldlM_cons, f.firstRefusal?_cons]
      refine (addElement_settles loaded covers same sound form id data machine).bind fun data' machine' first => ?_
      refine (ih (fun l mem => typed l (List.mem_cons_of_mem _ mem)) data' machine').imp fun data'' more => ?_
      exact first.trans more

theorem addList_settles (loaded : s.Loaded) (covers : c.Covers s f) (many : f.isRepeated = true)
    {values : List LogicalValue} (typed : ∀ l ∈ values, c.logicalType = l.type ∧ l.Sound s)
    {v : TypedValue} (type : v.type = .list c.logicalType) (native : v.native = v.type.given boxed)
    {w : Value} {machine : Machine} (offers : f.Offers boxed machine.store values w) (id : ObjectId)
    (data : MessageData) :
    Settles (addList (.ofSchema s) m f c v id data w) machine
      (f.firstRefusal? s c (values.take Int32.maxValue.toInt.toNat))
      (f.Stores s m (values.take Int32.maxValue.toInt.toNat) data) := by
  unfold Field.Offers at offers
  rw [if_pos many] at offers
  obtain ⟨items, lists, supplied⟩ := offers
  obtain ⟨waited, run⟩ := run_waitFor s c.logicalType lists
  have forms : List.Forall₂ LogicalValue.InBox (values.take Int32.maxValue.toInt.toNat)
      (reached (items.map Native.resolved)) := by
    apply List.forall₂_take
    apply List.forall₂_map_right_iff.mpr
    apply supplied.imp
    rintro l v (⟨boxId, rfl⟩ | ⟨providerId, w, rfl, form⟩)
    · exact ⟨boxId, rfl⟩
    · exact form
  have adds := addElements_settles (m := m) loaded covers
    (fun l mem => typed l (List.mem_of_mem_take mem)) forms id data waited
  unfold addList
  rw [native, type, ← bind_assoc]
  exact .of_run run adds

theorem setValue_settles (loaded : s.Loaded) (covers : c.Covers s f) {l : LogicalValue}
    (same : c.logicalType = l.type) (sound : l.Sound s) {v : TypedValue} (type : v.type = c.logicalType)
    (native : v.native = v.type.given boxed) {w : Value} (form : Access.Form boxed l w) (id : ObjectId)
    (data : MessageData) (machine : Machine) :
    Settles (setValue (.ofSchema s) m f c v id data w) machine ((f.refusal? s c l).map .fault)
      (f.Stores s m [l] data) := by
  unfold setValue
  rw [native, type]
  refine (stored_settles loaded covers same sound form _ machine).before fun a known => ?_
  exact fun machine => ⟨_, _, rfl, [a], .cons known .nil, rfl⟩

end Filling

/-- Code without inputs that gives, in one form, values of the type of the field. -/
structure Field.Offered (s : Schema) (f : Field) (fuel : Nat) (v : TypedValue) (boxed : Bool)
    (among : List LogicalValue → Prop) : Prop where
  inputs : v.code.inputs = []
  proper : v.code.IsProper
  takes : ∀ c, Coercion.of s f = .ok c → f.Takes c v.type
  native : v.native = v.type.given boxed
  gives : ∀ m, ∃ w m' values, (v.evaluate (.ofSchema s) fuel).run m = (.ok w, m') ∧ among values ∧
    (∀ c, Coercion.of s f = .ok c → ∀ l ∈ values, c.logicalType = l.type ∧ l.Sound s) ∧
    (v.type = .emptyList → values = []) ∧ f.Offers boxed m'.store values w

namespace Field

variable {s : Schema} {f : Field} {fuel : Nat} {v : TypedValue} {boxed : Bool}
  {among : List LogicalValue → Prop} {c : Coercion} {m : Message}

theorem Offers.present {store : Store} {values : List LogicalValue} {w : Value}
    (offers : f.Offers boxed store values w) : w.isNull = false := by
  unfold Offers at offers
  cases many : f.isRepeated with
  | true =>
      rw [many, if_pos rfl] at offers
      obtain ⟨items, lists, -⟩ := offers
      cases boxed with
      | true =>
          obtain ⟨id, rfl⟩ := lists
          rfl
      | false =>
          obtain ⟨id, rfl, -⟩ := lists
          rfl
  | false =>
      rw [many, if_neg Bool.false_ne_true] at offers
      obtain ⟨l, -, form⟩ := offers
      exact form.present

namespace Offered

theorem truthful (offered : f.Offered s fuel v boxed among) : v.Truthful (.ofSchema s) fuel := by
  intro _ machine w after run null
  obtain ⟨w', after', values, run', -, -, -, offers⟩ := offered.gives machine
  have same : (Except.ok w, after) = (Except.ok w', after') := run.symm.trans run'
  cases same
  rw [null] at offers
  cases offers.present

theorem admissible (offered : f.Offered s fuel v boxed among)
    (named : s.field? m.fullName f.name = some f) (sets : f.SetsBack s m) :
    Filling.Admissible s fuel m (f.name, v) := by
  refine ⟨offered.proper, offered.truthful, ?_⟩
  intro g named'
  cases named.symm.trans named'
  exact sets

/-- The values that an index can reach are stored, up to the first one that the field refuses. -/
theorem fill_settles (offered : f.Offered s fuel v boxed among) (loaded : s.Loaded)
    (coercion : Coercion.of s f = .ok c) (id : ObjectId) (data : MessageData) (machine : Machine) :
    ∃ values, among values ∧ Settles (Filling.fill (.ofSchema s) fuel m f c v id data) machine
      (f.firstRefusal? s c (values.take Int32.maxValue.toInt.toNat))
      (f.Stores s m (values.take Int32.maxValue.toInt.toNat) data) := by
  have covers := Coercion.covers_of_eq_ok coercion
  have takes := offered.takes c coercion
  unfold Takes at takes
  cases many : f.isRepeated with
  | true =>
      obtain ⟨w, evaluated, values, run, belongs, typed, literal, offers⟩ := offered.gives machine
      refine ⟨values, belongs, ?_⟩
      rw [many, if_pos rfl] at takes
      rcases takes with type | type
      · rw [Filling.fill_repeated (by simp [type]) many, if_neg (by simp [type])]
        refine .of_run run ?_
        rw [offers.present]
        exact Filling.addList_settles loaded covers many (typed c coercion) type offered.native offers id data
      · -- The literal `[]` is not evaluated.
        cases literal type
        rw [Filling.fill_repeated (by simp [type]) many, if_pos type]
        exact .pure ⟨[], .nil, rfl⟩
  | false =>
      rw [many, if_neg Bool.false_ne_true] at takes
      have present : v.type ≠ .null := by
        rw [takes]
        cases c <;> simp [Coercion.logicalType]
      have identified : Gives (if f.isExtension && !Construction.needsNullTest v then Filling.identify
          else pure ()) fun _ => True := by
        by_cases late : (f.isExtension && !Construction.needsNullTest v) = true
        · rw [if_pos late]
          exact fun machine => ⟨_, _, rfl, trivial⟩
        · rw [if_neg late]
          exact .pure trivial
      obtain ⟨⟨⟩, before, ready, -⟩ := identified machine
      obtain ⟨w, evaluated, values, run, belongs, typed, -, offers⟩ := offered.gives before
      have here := offers.present
      unfold Offers at offers
      rw [if_neg (by simp [many])] at offers
      obtain ⟨l, rfl, form⟩ := offers
      refine ⟨[l], belongs, ?_⟩
      obtain ⟨same, sound⟩ := typed c coercion l (List.mem_singleton_self l)
      rw [Filling.take_singleton, f.firstRefusal?_singleton, Filling.fill_singular present many]
      refine .of_run ready (.of_run run ?_)
      rw [here]
      exact Filling.setValue_settles loaded covers same sound takes offered.native form id data evaluated

/-- A message from one argument has what is stored of its values, unless the field refuses one. -/
theorem message_settles (offered : f.Offered s fuel v boxed among) (loaded : s.Loaded) {message : String}
    (found : s.message? message = some m) (mem : f ∈ s.fieldsOf message)
    (coercion : Coercion.of s f = .ok c) (machine : Machine) :
    ∃ values, among values ∧ Settles (Filling.message s fuel m [(f.name, v)]) machine
      (f.firstRefusal? s c (values.take Int32.maxValue.toInt.toNat)) fun w => ∃ id data,
        w = .ref id (.message data) ∧
          f.Stores s m (values.take Int32.maxValue.toInt.toNat) (.empty message) data := by
  have full := Schema.Loaded.fullName_eq found
  have named : s.field? m.fullName f.name = some f := by
    rw [full]
    exact loaded.field?_eq found mem
  obtain ⟨values, belongs, settles⟩ := offered.fill_settles (m := m) loaded coercion
    machine.store.nextId (.empty message) (machine.building (.empty message))
  refine ⟨values, belongs, ?_⟩
  have built : (Filling.message s fuel m [(f.name, v)]).run machine =
      (Filling.fill (.ofSchema s) fuel m f c v machine.store.nextId (.empty message) >>= fun data =>
        ((Machine.alloc (.message data) : StateM Machine Value) : Run Value)).run
          (machine.building (.empty message)) := by
    rw [Filling.run_message rfl, full, List.foldlM_cons, bind_assoc, Filling.argument_eq named coercion]
    rfl
  have allocates := settles.before (f := fun data =>
    ((Machine.alloc (.message data) : StateM Machine Value) : Run Value))
    (Q := fun w => ∃ id data, w = .ref id (.message data) ∧
      f.Stores s m (values.take Int32.maxValue.toInt.toNat) (.empty message) data)
    fun data stores machine => ⟨_, _, rfl, _, data, rfl, stores⟩
  exact allocates.of_eq built

/-- There is code for a message from one argument, and it runs to a message that has what is stored of the
values, unless the field refuses one of them. -/
theorem run_settles (offered : f.Offered s fuel v boxed among) (loaded : s.Loaded) {message : String}
    (found : s.message? message = some m) (mem : f ∈ s.fieldsOf message)
    (coercion : Coercion.of s f = .ok c) (sets : f.SetsBack s m)
    (enough : Int32.maxValue.toInt.toNat < fuel) :
    ∃ k, generateConstruction s .immediate message [(f.name, v)] = .ok k ∧
      ∀ machine : Machine, machine.Tidy → ∃ values, among values ∧
        Settles (k.code.run s fuel []) machine
          (f.firstRefusal? s c (values.take Int32.maxValue.toInt.toNat)) fun result => ∃ id data,
            result = some (.ref id (.message data)) ∧
              f.Stores s m (values.take Int32.maxValue.toInt.toNat) (.empty message) data := by
  have named := loaded.field?_eq found mem
  obtain ⟨k, generated⟩ := loaded.exists_generateConstruction found named coercion offered.inputs
    (offered.takes c coercion) offered.native
  refine ⟨k, generated, fun machine tidy => ?_⟩
  have admissible : ∀ a ∈ [(f.name, v)], Filling.Admissible s fuel m a := by
    intro a mem'
    obtain rfl := List.mem_singleton.mp mem'
    rw [← Schema.Loaded.fullName_eq found] at named
    exact offered.admissible named sets
  obtain ⟨values, belongs, settles⟩ := offered.message_settles loaded found mem coercion machine
  refine ⟨values, belongs, ?_⟩
  have run := Filling.run_generated loaded found generated enough admissible tidy
  have mapped := settles.map (g := some) (Q := fun result => ∃ id data,
    result = some (.ref id (.message data)) ∧
      f.Stores s m (values.take Int32.maxValue.toInt.toNat) (.empty message) data)
    fun w ⟨id, data, same, stores⟩ => ⟨id, data, congrArg some same, stores⟩
  exact mapped.of_eq run

end Offered

end Field

def LogicalValue.literal? : LogicalValue → Option TypedValue
  | .bool b => some (.ofBool b)
  | .int n => some (.ofLong n)
  | .float x => some (.ofDouble x)
  | .text t => some (.ofText t)
  | .message .. | .sanitized .. => none

theorem LogicalValue.literal_eq {l : LogicalValue} {v : TypedValue} (literal : l.literal? = some v) :
    ∃ c, v = .ofConstant c l.type ∧ c.type = l.type.given false ∧
      Gives (monadLift c.load : Run Value) (Access.Form false l) := by
  cases l with
  | text t =>
      cases literal
      exact ⟨_, rfl, rfl, fun m => ⟨_, _, rfl, _, rfl⟩⟩
  | message id data | sanitized kind t => cases literal
  | _ =>
      cases literal
      exact ⟨_, rfl, rfl, .pure rfl⟩

theorem Field.Offered.literal {s : Schema} {f : Field} {l : LogicalValue} {v : TypedValue}
    (literal : l.literal? = some v) (alone : f.isRepeated = false)
    (typed : ∀ c, Coercion.of s f = .ok c → c.logicalType = l.type) (fuel : Nat) :
    f.Offered s fuel v false (· = [l]) := by
  have sound : l.Sound s := by
    cases l with
    | message id data => cases literal
    | _ => trivial
  obtain ⟨c, rfl, native, loads⟩ := LogicalValue.literal_eq literal
  refine ⟨rfl, Sequence.constant_isProper c, ?_, native, ?_⟩
  · intro coercion same
    unfold Field.Takes
    rw [alone, if_neg Bool.false_ne_true]
    exact (typed coercion same).symm
  · intro machine
    obtain ⟨w, after, run, form⟩ := loads machine
    rw [TypedValue.evaluate_ofConstant]
    refine ⟨w, after, [l], run, rfl, ?_, ?_, ?_⟩
    · intro coercion same l' mem
      obtain rfl := List.mem_singleton.mp mem
      exact ⟨typed coercion same, sound⟩
    · intro absurd
      cases l <;> cases absurd
    · unfold Field.Offers
      rw [alone, if_neg Bool.false_ne_true]
      exact ⟨l, rfl, form⟩

end MessageCode
