import MessageCode.Proofs.Generate.Offered
import MessageCode.Proofs.Machine.Placed
import MessageCode.Proofs.Schema.Resolved

/-!
Reading what was written. A message that is built from one argument is valid and holds the values of
the argument, and the read of the field gives them back.
-/

namespace MessageCode

open Stateful

/-- The value is one for the field, and stands for the logical values: for one, or for those in a list
that an index can go over. -/
def Field.Shown (f : Field) (boxed : Bool) (store : Store) (values : List LogicalValue) (v : Value) :
    Prop :=
  if f.isRepeated then
    values.length ≤ Int32.maxValue.toInt.toNat ∧
      ∃ items, v.Lists boxed store items ∧ List.Forall₂ LogicalValue.Supplied values items
  else ∃ l, values = [l] ∧ Access.Form boxed l v

/-- Code without inputs that gives, in one form, values which the field can hold. -/
structure Field.Given (s : Schema) (f : Field) (fuel : Nat) (v : TypedValue) (boxed : Bool)
    (among : List LogicalValue → Prop) : Prop where
  inputs : v.code.inputs = []
  proper : v.code.IsProper
  takes : ∀ c, Coercion.of s f = .ok c → f.Takes c v.type
  native : v.native = v.type.given boxed
  gives : ∀ m, ∃ w m' values, (v.evaluate (.ofSchema s) fuel).run m = (.ok w, m') ∧ among values ∧
    (∀ l ∈ values, f.Holds s l) ∧ (v.type = .emptyList → values = []) ∧ f.Shown boxed m'.store values w

structure Field.Kept (s : Schema) (f : Field) (message : String) (values : List LogicalValue)
    (data : MessageData) : Prop where
  typeName : data.typeName = message
  valid : Valid s data
  single : f.isRepeated = false → ∃ l, values = [l]
  held : (data.elements f.number).map f.logical = values.map f.normalised

/-- What a read of the field has to give: a singular value in the form of the code, and the elements of
a repeated field in a boxed list. -/
def Field.Displays (f : Field) (boxed : Bool) (values : List LogicalValue) (v : Value) : Prop :=
  if f.isRepeated then ∃ id items, v = .ref id (.boxed (.list items)) ∧
    List.Forall₂ (fun l => (f.normalised l).InBox) values items
  else ∃ l, values = [l] ∧ Access.Form boxed (f.normalised l) v

/-- What a read of a field gives are the values that the message has in it. -/
theorem Field.ReadAs.displays {s : Schema} {message : String} {m : Message} {f : Field}
    (loaded : s.Loaded) (found : s.message? message = some m) (mem : f ∈ s.fieldsOf message)
    {values : List LogicalValue} {data : MessageData} (kept : f.Kept s message values data) {boxed : Bool}
    {result : Value} (h : f.ReadAs s data boxed result) : f.Displays boxed values result := by
  unfold Field.Displays
  cases label : f.label with
  | repeated =>
      have many : f.isRepeated = true := by simp [Field.isRepeated, label]
      rw [if_pos many]
      obtain ⟨id, items, rfl, forms⟩ := h.elements label
      refine ⟨id, items, rfl, ?_⟩
      have boxes := List.forall₂_map_left_iff.mpr forms
      rw [kept.held] at boxes
      exact List.forall₂_map_left_iff.mp boxes
  | singular =>
      have alone : f.isRepeated = false := by simp [Field.isRepeated, label]
      rw [if_neg (by simp [alone])]
      obtain ⟨l, rfl⟩ := kept.single alone
      refine ⟨l, rfl, ?_⟩
      have typeName := kept.typeName
      subst typeName
      have held := kept.held
      cases set : data.content? f.number with
      | none =>
          rw [Record.elements, set] at held
          cases held
      | some content =>
          obtain ⟨same, -⟩ := kept.valid.content loaded found mem set
          cases content with
          | repeated items =>
              rw [label] at same
              cases same
          | single a =>
              rw [Record.elements, set] at held
              have logical : f.logical a = f.normalised l := List.head_eq_of_cons_eq held
              have isSet : data.isSet f.number = true := by
                rw [Record.isSet, set]
                rfl
              obtain ⟨l', seen, form⟩ := h.value label (.inl isSet)
              rw [Field.seen?, set] at seen
              cases seen
              rwa [logical] at form

/-- The contents of a message that has only some elements in a repeated field. -/
def Field.holding (f : Field) (message : String) : List Stored → MessageData
  | [] => .empty message
  | a :: rest => ⟨message, [⟨f.number, f.name, .repeated (a :: rest)⟩]⟩

theorem Message.adding_empty (m : Message) (f : Field) (a : Stored) (message : String) :
    m.adding f a (.empty message) = ⟨message, [f.slot a none]⟩ := rfl

theorem Field.adding_holding (f : Field) (m : Message) (message : String) (many : f.isRepeated = true)
    {stored : List Stored} {a : Stored} :
    m.adding f a (f.holding message stored) = f.holding message (stored ++ [a]) := by
  cases stored with
  | nil => simp [holding, Message.adding_empty, slot, lengthened, many]
  | cons b rest =>
      have own : (f.holding message (b :: rest)).slot? f.number =
          some ⟨f.number, f.name, .repeated (b :: rest)⟩ := List.find?_cons_of_pos (decide_eq_true rfl)
      unfold Message.adding Message.cleared
      rw [own]
      simp [holding, slot, lengthened, many]

namespace Field.Kept

variable {s : Schema} {message : String} {m : Message} {f : Field}

theorem singular (loaded : s.Loaded) (found : s.message? message = some m)
    (mem : f ∈ s.fieldsOf message) (alone : f.isRepeated = false) {a : Stored} {l : LogicalValue}
    (fits : a.Fits s f) (logical : f.logical a = f.normalised l) :
    f.Kept s message [l] (m.adding f a (.empty message)) := by
  have label : f.label = (Content.single a).label := by
    cases label : f.label with
    | singular => rfl
    | repeated => simp [Field.isRepeated, label] at alone
  rw [Message.adding_empty, Field.slot_singular alone]
  refine ⟨rfl, Valid.of_slot loaded found mem (.single a) label ?_, fun _ => ⟨l, rfl⟩, ?_⟩
  · intro b mem'
    obtain rfl := List.mem_singleton.mp mem'
    exact fits
  · simp [Record.elements, Record.content?, Content.items, logical]

theorem holding (loaded : s.Loaded) (found : s.message? message = some m)
    (mem : f ∈ s.fieldsOf message) (many : f.isRepeated = true) {stored : List Stored}
    {values : List LogicalValue} (fits : ∀ a ∈ stored, a.Fits s f)
    (logical : stored.map f.logical = values.map f.normalised) :
    f.Kept s message values (f.holding message stored) := by
  have label : f.label = (Content.repeated stored).label := by
    cases label : f.label with
    | repeated => rfl
    | singular => simp [Field.isRepeated, label] at many
  have single : f.isRepeated = false → ∃ l, values = [l] := by
    intro alone
    rw [many] at alone
    cases alone
  cases stored with
  | nil => exact ⟨rfl, Valid.empty s message, single, logical⟩
  | cons a rest =>
      refine ⟨rfl, Valid.of_slot loaded found mem (.repeated (a :: rest)) label fits, single, ?_⟩
      rw [← logical]
      simp [Field.holding, Record.elements, Record.content?, Content.items]

end Field.Kept

/-- What is stored of the values in an empty message keeps them. -/
theorem Field.Stores.kept {s : Schema} {message : String} {m : Message} {f : Field}
    {values : List LogicalValue} {data : MessageData} (stores : f.Stores s m values (.empty message) data)
    (loaded : s.Loaded) (found : s.message? message = some m) (mem : f ∈ s.fieldsOf message)
    (single : f.isRepeated = false → ∃ l, values = [l]) :
    f.Kept s message (values.map f.narrowed) data := by
  obtain ⟨stored, known, rfl⟩ := stores
  cases many : f.isRepeated with
  | true =>
      have fills (before : List Stored) : stored.foldl (fun data a => m.adding f a data)
          (f.holding message before) = f.holding message (before ++ stored) := by
        clear known
        induction stored generalizing before with
        | nil => rw [List.foldl_nil, List.append_nil]
        | cons a stored ih =>
            rw [List.foldl_cons, f.adding_holding m message many, ih, List.append_assoc, List.singleton_append]
      have all := fills []
      rw [List.nil_append] at all
      rw [show (.empty message : MessageData) = f.holding message [] from rfl, all]
      refine .holding loaded found mem many ?_ ?_
      · intro a mem'
        obtain ⟨l, -, fits, -⟩ := Paired.left_of_mem known mem'
        exact fits
      · rw [List.map_map]
        exact Paired.map_eq known fun l a taken => taken.2
  | false =>
      obtain ⟨l, rfl⟩ := single many
      cases known with
      | cons first rest =>
          cases rest
          exact .singular loaded found mem many first.1 first.2

namespace Field

variable {s : Schema} {f : Field} {fuel : Nat} {v : TypedValue} {boxed : Bool}
  {among : List LogicalValue → Prop}

theorem Shown.offers {store : Store} {values : List LogicalValue} {w : Value}
    (shown : f.Shown boxed store values w) : f.Offers boxed store values w := by
  unfold Shown at shown
  unfold Offers
  split at shown
  · rw [if_pos ‹_›]
    exact shown.2
  · rw [if_neg ‹_›]
    exact shown

theorem Shown.within {store : Store} {values : List LogicalValue} {w : Value}
    (shown : f.Shown boxed store values w) : values.length ≤ Int32.maxValue.toInt.toNat := by
  unfold Shown at shown
  split at shown
  · exact shown.1
  · obtain ⟨l, rfl, -⟩ := shown
    rw [List.length_singleton]
    decide

theorem Shown.single {store : Store} {values : List LogicalValue} {w : Value}
    (shown : f.Shown boxed store values w) (alone : f.isRepeated = false) : ∃ l, values = [l] := by
  unfold Shown at shown
  rw [if_neg (by simp [alone])] at shown
  obtain ⟨l, single, -⟩ := shown
  exact ⟨l, single⟩

theorem Given.offered (given : f.Given s fuel v boxed among) :
    f.Offered s fuel v boxed fun values => among values ∧ (∀ l ∈ values, f.Holds s l) ∧
      values.length ≤ Int32.maxValue.toInt.toNat ∧ (f.isRepeated = false → ∃ l, values = [l]) := by
  refine ⟨given.inputs, given.proper, given.takes, given.native, fun machine => ?_⟩
  obtain ⟨w, after, values, run, belongs, holds, literal, shown⟩ := given.gives machine
  refine ⟨w, after, values, run, ⟨belongs, holds, shown.within, shown.single⟩, ?_, literal, shown.offers⟩
  intro c coercion l mem
  exact ⟨(holds l mem).type_eq (Coercion.covers_of_eq_ok coercion), (holds l mem).sound⟩

theorem Given.admissible {m : Message} (given : f.Given s fuel v boxed among)
    (named : s.field? m.fullName f.name = some f) (sets : f.SetsBack s m) :
    Filling.Admissible s fuel m (f.name, v) := given.offered.admissible named sets

/-- The argument becomes a message that keeps the values which its code gives. -/
theorem Given.message_gives {message : String} {m : Message} (given : f.Given s fuel v boxed among)
    (loaded : s.Loaded) (found : s.message? message = some m) (mem : f ∈ s.fieldsOf message) :
    Gives (Filling.message s fuel m [(f.name, v)]) fun w => ∃ id data values,
      w = .ref id (.message data) ∧ among values ∧ f.Kept s message values data := by
  obtain ⟨c, coercion⟩ := Coercion.exists_of (loaded.field found mem)
  have covers := Coercion.covers_of_eq_ok coercion
  intro machine
  obtain ⟨values, ⟨belongs, holds, within, single⟩, settles⟩ :=
    given.offered.message_settles loaded found mem coercion machine
  have accepted : f.firstRefusal? s c values = none := by
    unfold firstRefusal?
    rw [List.findSome?_eq_none_iff.mpr fun l mem => ((holds l mem).taken covers).2]
    rfl
  have unchanged : values.map f.narrowed = values.map id :=
    List.map_congr_left fun l mem => ((holds l mem).taken covers).1
  rw [List.take_of_length_le within, accepted] at settles
  obtain ⟨w, after, run, id, data, rfl, stores⟩ := settles
  have kept := stores.kept loaded found mem single
  rw [unchanged, List.map_id] at kept
  exact ⟨_, after, run, id, data, values, rfl, belongs, kept⟩

end Field

/-- Reads give back what was written: the code for a message with one argument runs to a message, and
the code for a read of the field runs on it to the values of the argument. -/
theorem generateAccess_construction {files : List FileDescription} {s : Schema}
    (resolved : Schema.resolve files = .ok s) {message : String} {m : Message}
    (found : s.message? message = some m) {f : Field}
    (mem : f ∈ m.fields ∨ f ∈ s.extensions ∧ f.container = message) (leads : f.LeadsBack s m)
    (sets : f.SetsBack s m) {fuel : Nat} (enough : Int32.maxValue.toInt.toNat < fuel) {v : TypedValue}
    {boxed : Bool} {among : List LogicalValue → Prop} (given : f.Given s fuel v boxed among)
    (boxedBase nullable : Bool) :
    ∃ k base r, generateConstruction s .immediate message [(f.name, v)] = .ok k ∧
      TypedValue.input (.message message) boxedBase nullable = .ok base ∧
      generateAccess s message base f.name = .ok r ∧
      ∀ machine : Machine, machine.Tidy → ∃ id data built values,
        (k.code.run s fuel []).run machine = (.ok (some (.ref id (.message data))), built) ∧
        data.typeName = message ∧ among values ∧
        ∀ input, Access.Form boxedBase (.message id data) input → ∀ fuel' machine',
          ∃ result machine'', (r.code.run s fuel' [input]).run machine' = (.ok (some result), machine'') ∧
            f.Displays r.isBoxed values result := by
  have loaded := Schema.loaded_of_resolve resolved
  have within := (Schema.Loaded.mem_fieldsOf found).mpr mem
  have named := loaded.field?_eq found within
  obtain ⟨c, coercion⟩ := Coercion.exists_of (loaded.field found within)
  obtain ⟨k, generated⟩ := loaded.exists_generateConstruction found named coercion given.inputs
    (given.takes c coercion) given.native
  obtain ⟨base, r, act, input, accessed, converts, gives⟩ :=
    loaded.exists_read found within leads boxedBase nullable
  refine ⟨k, base, r, generated, input, accessed, ?_⟩
  have admissible : ∀ a ∈ [(f.name, v)], Filling.Admissible s fuel m a := by
    intro a mem'
    obtain rfl := List.mem_singleton.mp mem'
    rw [← Schema.Loaded.fullName_eq found] at named
    exact given.admissible named sets
  intro machine tidy
  obtain ⟨w, built, run, id, data, values, rfl, belongs, kept⟩ :=
    given.message_gives loaded found within machine
  refine ⟨id, data, built, values, ?_, kept.typeName, belongs, ?_⟩
  · rw [Filling.run_generated loaded found generated enough admissible tidy, run_map, run]
    rfl
  · intro x form fuel' machine'
    have displayed : Gives (act x) (f.Displays r.isBoxed values) :=
      (gives id data x kept.typeName kept.valid form).imp fun result read =>
        read.displays loaded found within kept
    exact converts.run_gives displayed fuel' machine'

theorem Field.Given.literal {s : Schema} {f : Field} {l : LogicalValue} {v : TypedValue}
    (literal : l.literal? = some v) (alone : f.isRepeated = false) (holds : f.Holds s l) (fuel : Nat) :
    f.Given s fuel v false (· = [l]) := by
  have typed : ∀ c, Coercion.of s f = .ok c → c.logicalType = l.type :=
    fun c coercion => holds.type_eq (Coercion.covers_of_eq_ok coercion)
  have offered := Field.Offered.literal literal alone typed fuel
  refine ⟨offered.inputs, offered.proper, offered.takes, offered.native, fun machine => ?_⟩
  obtain ⟨w, after, _, run, rfl, -, empty, offers⟩ := offered.gives machine
  refine ⟨w, after, [l], run, rfl, ?_, empty, ?_⟩
  · intro l' mem
    obtain rfl := List.mem_singleton.mp mem
    exact holds
  · unfold Field.Offers at offers
    unfold Field.Shown
    rwa [alone, if_neg Bool.false_ne_true] at offers ⊢

/-- A weight that is written as `+007` is read as `7`. -/
theorem letterWeight_readBack :
    ∃ k base r, generateConstruction letterSchema .immediate "demo.Letter"
        [("weight", .ofText "+007")] = .ok k ∧
      TypedValue.input (.message "demo.Letter") true true = .ok base ∧
      generateAccess letterSchema "demo.Letter" base "weight" = .ok r ∧
      ∃ id data built, (k.code.run letterSchema 2147483648 []).run Machine.start =
          (.ok (some (.ref id (.message data))), built) ∧
        ∀ boxId, ∃ result after,
          (r.code.run letterSchema 0 [.ref boxId (.boxed (.proto (.ref id (.message data))))]).run built =
            (.ok (some result), after) ∧ Access.Form r.isBoxed (.text "7") result := by
  have holds : letterWeight.Holds letterSchema (.text "+007") := ⟨rfl, 7, by decide⟩
  obtain ⟨k, base, r, generated, given, accessed, runs⟩ := generateAccess_construction
    letterSchema_resolved rfl (.inr ⟨List.mem_singleton_self letterWeight, rfl⟩) rfl rfl
    (show Int32.maxValue.toInt.toNat < 2147483648 by decide) (.literal rfl rfl holds _) true true
  obtain ⟨id, data, built, values, constructed, -, rfl, reads⟩ := runs Machine.start Machine.start_tidy
  refine ⟨k, base, r, generated, given, accessed, id, data, built, constructed, ?_⟩
  intro boxId
  obtain ⟨result, after, run, l, same, form⟩ := reads _ ⟨boxId, rfl⟩ 0 built
  cases same
  exact ⟨result, after, run, form⟩

end MessageCode
