import MessageCode.Proofs.Machine.Policy.Run

/-!
Laws. A law says what holds of contents on their own. When the operations of a schema keep it, it holds
of the contents of every message and of every builder in the reach of code.
-/

namespace MessageCode

/-- The law holds of the contents and of the messages in them, at any depth. -/
inductive Throughout (law : MessageData → Prop) : MessageData → Prop
  | intro {data} : law data →
      (∀ id inside, data.Holds (.message id inside) → Throughout law inside) → Throughout law data

theorem Throughout.here {law : MessageData → Prop} {data : MessageData} (h : Throughout law data) :
    law data := by
  cases h with
  | intro holds _ => exact holds

theorem Throughout.inside {law : MessageData → Prop} {data inside : MessageData} {id : ObjectId}
    (h : Throughout law data) (holds : data.Holds (.message id inside)) : Throughout law inside := by
  cases h with
  | intro _ deeper => exact deeper id inside holds

/-- The value refers to the object, or to one with a part that leads to it. -/
inductive Value.LeadsTo : Value → ObjectId → Object → Prop
  | here (id o) : LeadsTo (.ref id o) id o
  | part {id o v k inner} : v ∈ o.parts → LeadsTo v k inner → LeadsTo (.ref id o) k inner

def Store.IsBuilder (st : Store) (id : ObjectId) (typeName : String) : Prop :=
  id < st.nextId ∧ ∃ data, st.builders.get? id = some data ∧ data.typeName = typeName

/-- The messages that the value leads to are lawful, and so are its builders. -/
structure Value.Lawful (law : MessageData → Prop) (st : Store) (v : Value) : Prop where
  message : ∀ {id data}, v.LeadsTo id (.message data) → Throughout law data
  builder : ∀ {id typeName}, v.LeadsTo id (.builder typeName) → st.IsBuilder id typeName

structure Store.Lawful (law : MessageData → Prop) (st : Store) : Prop where
  builder : ∀ {id data}, st.builders.get? id = some data → Throughout law data
  list : ∀ {id items}, st.lists.get? id = some items → ∀ v ∈ items, v.Lawful law st

/-- What the operations of the schema do to contents keeps the law. -/
structure Schema.Keeps (s : Schema) (law : MessageData → Prop) : Prop where
  empty (typeName : String) : law (.empty typeName)
  wrapper (kind : SanitizedKind) (id : ObjectId) (content : String) :
    law ((Record.empty kind.messageName).set 1 kind.wrappedField (.single (.text id content)))
  set {m : Message} {f : Field} {v : Value} {a : Stored} {data : MessageData} :
    s.message? data.typeName = some m → f ∈ m.fields → f.isRepeated = false →
      Storage.ofValue? f v = some a → law data → law (Native.setField m f a data)
  add {m : Message} {f : Field} {v : Value} {a : Stored} {data : MessageData} :
    s.message? data.typeName = some m → f ∈ m.fields → f.isRepeated = true →
      Storage.ofValue? f v = some a → law data → law (data.push f.number f.name a)
  setExtension {f : Field} {v : Value} {a : Stored} {data : MessageData} :
    f ∈ s.extensions → f.container = data.typeName → Storage.ofValue? f v = some a → law data →
      law (data.set f.number f.name (.single a))
  addExtension {f : Field} {v : Value} {a : Stored} {data : MessageData} :
    f ∈ s.extensions → f.container = data.typeName → Storage.ofValue? f v = some a → law data →
      law (data.push f.number f.name a)

section

variable {law : MessageData → Prop} {st st' : Store} {v : Value} {id k : ObjectId} {o : Object}
  {typeName typeName' : String} {data : MessageData} {items : List Value}

theorem Value.leadsTo_iff {inner : Object} : (Value.ref id o).LeadsTo k inner ↔
    (id = k ∧ o = inner) ∨ ∃ v ∈ o.parts, v.LeadsTo k inner := by
  constructor
  · intro h
    cases h with
    | here => exact .inl ⟨rfl, rfl⟩
    | part mem leads => exact .inr ⟨_, mem, leads⟩
  · rintro (⟨rfl, rfl⟩ | ⟨v, mem, leads⟩)
    · exact .here id o
    · exact .part mem leads

theorem Value.eq_of_leadsTo {inner : Object} (alone : o.parts = [])
    (leads : (Value.ref id o).LeadsTo k inner) : id = k ∧ o = inner := by
  rcases leadsTo_iff.mp leads with same | ⟨v, mem, -⟩
  · exact same
  · rw [alone] at mem
    cases mem

namespace Value.Lawful

theorem mono (h : v.Lawful law st)
    (later : ∀ id typeName, st.IsBuilder id typeName → st'.IsBuilder id typeName) :
    v.Lawful law st' :=
  ⟨h.message, fun leads => later _ _ (h.builder leads)⟩

theorem primitive (h : v.object? = none) : v.Lawful law st := by
  constructor
  · rintro id data ⟨⟩ <;> cases h
  · rintro id typeName ⟨⟩ <;> cases h

theorem object (cell : o.isCell = false) : (Value.ref id o).Lawful law st ↔
    (∀ v ∈ o.parts, v.Lawful law st) ∧ ∀ data, o = .message data → Throughout law data := by
  constructor
  · intro h
    refine ⟨fun v mem => ⟨fun leads => h.message (.part mem leads), fun leads =>
      h.builder (.part mem leads)⟩, ?_⟩
    rintro data rfl
    exact h.message (.here id _)
  · rintro ⟨parts, message⟩
    refine ⟨fun leads => ?_, fun leads => ?_⟩
    · rcases leadsTo_iff.mp leads with ⟨-, same⟩ | ⟨v, mem, leads⟩
      · exact message _ same
      · exact (parts v mem).message leads
    · rcases leadsTo_iff.mp leads with ⟨-, rfl⟩ | ⟨v, mem, leads⟩
      · cases cell
      · exact (parts v mem).builder leads

theorem builder_iff : (Value.ref id (.builder typeName)).Lawful law st ↔ st.IsBuilder id typeName := by
  constructor
  · exact fun h => h.builder (.here id _)
  · intro made
    refine ⟨fun leads => ?_, fun leads => ?_⟩
    · cases (eq_of_leadsTo rfl leads).2
    · obtain ⟨rfl, same⟩ := eq_of_leadsTo rfl leads
      cases same
      exact made

theorem list : (Value.ref id .list).Lawful law st := by
  refine ⟨fun leads => ?_, fun leads => ?_⟩
  · cases (eq_of_leadsTo rfl leads).2
  · cases (eq_of_leadsTo rfl leads).2

end Value.Lawful

namespace Store

theorem IsBuilder.setBuilder (h : st.IsBuilder k typeName)
    (fits : k = id → data.typeName = typeName) : (st.setBuilder id data).IsBuilder k typeName := by
  refine ⟨h.1, ?_⟩
  by_cases same : k = id
  · subst same
    exact ⟨data, Cells.get?_set_self, fits rfl⟩
  · obtain ⟨old, found, named⟩ := h.2
    exact ⟨old, (Cells.get?_set_ne same).trans found, named⟩

theorem IsBuilder.fresh (h : st.IsBuilder k typeName) : st.fresh.IsBuilder k typeName :=
  ⟨Nat.lt_succ_of_lt h.1, h.2⟩

theorem IsBuilder.builderData (h : st.IsBuilder id typeName) :
    st.builders.get? id = some (st.builderData id typeName) ∧
      (st.builderData id typeName).typeName = typeName := by
  obtain ⟨-, data, found, named⟩ := h
  have same : st.builderData id typeName = data := by
    unfold Store.builderData
    rw [found]
    rfl
  rw [same]
  exact ⟨found, named⟩

namespace Lawful

theorem setBuilder (h : st.Lawful law) (fits : Throughout law data)
    (builders : st'.builders = st.builders.set id data) (lists : st'.lists = st.lists)
    (later : ∀ k typeName, st.IsBuilder k typeName → st'.IsBuilder k typeName) : st'.Lawful law where
  builder given := by
    rw [builders] at given
    rcases Cells.eq_of_get?_set given with ⟨-, rfl⟩ | given
    · exact fits
    · exact h.builder given
  list given v mem := by
    rw [lists] at given
    exact (h.list given v mem).mono later

theorem setList (h : st.Lawful law) (within : ∀ v ∈ items, v.Lawful law st) :
    (st.setList id items).Lawful law where
  builder := h.builder
  list given v mem := by
    have lawful : v.Lawful law st := by
      rcases Cells.eq_of_get?_set given with ⟨-, rfl⟩ | given
      · exact within v mem
      · exact h.list given v mem
    exact lawful.mono fun _ _ made => made

theorem fresh (h : st.Lawful law) : st.fresh.Lawful law where
  builder := h.builder
  list given v mem := (h.list given v mem).mono fun _ _ => IsBuilder.fresh

theorem of_mem_listItems (h : st.Lawful law) (mem : v ∈ st.listItems id) : v.Lawful law st := by
  obtain ⟨items, found, mem⟩ := Store.mem_listItems.mp mem
  exact h.list found v mem

end Lawful

end Store

theorem Throughout.empty (law_empty : ∀ typeName, law (.empty typeName)) (typeName : String) :
    Throughout law (.empty typeName) :=
  .intro (law_empty typeName) fun _ _ holds => absurd holds Record.not_holds_empty

end

/-- Contents without the messages that others have stay lawful when they change to lawful ones. -/
theorem Throughout.change {law : MessageData → Prop} {data data' : MessageData} (h : Throughout law data)
    (holds : law data') (inside : ∀ id inside, data'.Holds (.message id inside) →
      data.Holds (.message id inside) ∨ Throughout law inside) : Throughout law data' :=
  .intro holds fun id deeper within => (inside id deeper within).elim h.inside fun lawful => lawful

/-- A law of contents, with what is kept of the contents of a builder when they change. -/
structure LastingLaw where
  law : MessageData → Prop
  grows : MessageData → MessageData → Prop
  empty (typeName : String) : law (.empty typeName)
  refl (data : MessageData) : grows data data
  trans {data data' data'' : MessageData} : grows data data' → grows data' data'' → grows data data''

def Store.Outgrows (grows : MessageData → MessageData → Prop) (st st' : Store) : Prop :=
  ∀ id typeName, st.IsBuilder id typeName →
    st'.IsBuilder id typeName ∧ grows (st.builderData id typeName) (st'.builderData id typeName)

structure Schema.KeepsAt (s : Schema) (l : LastingLaw) (c : Call) : Prop where
  wrapper (kind : SanitizedKind) (id : ObjectId) (content : String) :
    l.law ((Record.empty kind.messageName).set 1 kind.wrappedField (.single (.text id content)))
  set {m : Message} {f : Field} {v : Value} {a : Stored} {data : MessageData} :
    s.message? data.typeName = some m → f ∈ m.fields → f.isRepeated = false →
      Storage.ofValue? f v = some a → l.law data →
        l.law (Native.setField m f a data) ∧ l.grows data (Native.setField m f a data)
  add {m : Message} {f : Field} {v : Value} {a : Stored} {data : MessageData} :
    s.message? data.typeName = some m → f ∈ m.fields → f.isRepeated = true →
      Storage.ofValue? f v = some a → l.law data →
        l.law (data.push f.number f.name a) ∧ l.grows data (data.push f.number f.name a)
  setExtension {f : Field} {v : Value} {a : Stored} {data : MessageData} {receiver : String} :
    c.method.owner = .extendableBuilder → c.name = "set_extension" →
      Native.extensionArg s c receiver = .ok f → f.container = data.typeName →
        Storage.ofValue? f v = some a → l.law data →
          l.law (data.set f.number f.name (.single a)) ∧
            l.grows data (data.set f.number f.name (.single a))
  addExtension {f : Field} {v : Value} {a : Stored} {data : MessageData} {receiver : String} :
    c.method.owner = .extendableBuilder → c.name = "add_extension" →
      Native.extensionArg s c receiver = .ok f → f.container = data.typeName →
        Storage.ofValue? f v = some a → l.law data →
          l.law (data.push f.number f.name a) ∧ l.grows data (data.push f.number f.name a)

namespace Store

variable {grows : MessageData → MessageData → Prop} {st : Store} {id k : ObjectId} {typeName : String}
  {data : MessageData}

theorem builderData_setBuilder_self : (st.setBuilder id data).builderData id typeName = data := by
  unfold builderData setBuilder
  rw [Cells.get?_set_self]
  rfl

theorem builderData_setBuilder_ne (apart : k ≠ id) :
    (st.setBuilder id data).builderData k typeName = st.builderData k typeName := by
  unfold builderData setBuilder
  rw [Cells.get?_set_ne apart]

end Store

namespace Policy

def ofLasting (l : LastingLaw) : Policy where
  sound st := st.Lawful l.law
  later st st' := st.Outgrows l.grows st'
  value st v := v.Lawful l.law st
  message := Throughout l.law
  contents typeName data := data.typeName = typeName ∧ Throughout l.law data
  grows := l.grows
  faults := True
  refl _ _ _ made := ⟨made, l.refl _⟩
  trans h h' id typeName made := by
    obtain ⟨made', grown⟩ := h id typeName made
    obtain ⟨made'', grown'⟩ := h' id typeName made'
    exact ⟨made'', l.trans grown grown'⟩
  mono later h := h.mono fun id typeName made => (later id typeName made).1
  primitive := Value.Lawful.primitive
  object := Value.Lawful.object
  inner := Throughout.inside
  empty := Throughout.empty l.empty
  built := And.right
  fresh h := ⟨h.fresh, fun _ _ made => ⟨made.fresh, l.refl _⟩⟩
  newBuilder {st} typeName h := by
    have later : st.Outgrows l.grows (st.fresh.setBuilder st.nextId (.empty typeName)) := by
      intro k typeName' made
      refine ⟨made.fresh.setBuilder fun same => absurd same made.1.ne, ?_⟩
      rw [Store.builderData_setBuilder_ne made.1.ne]
      exact l.refl _
    exact ⟨h.setBuilder (.empty l.empty typeName) rfl rfl fun k typeName' made => (later k typeName' made).1,
      later, Value.Lawful.builder_iff.mpr ⟨Nat.lt_succ_self _, _, Cells.get?_set_self, rfl⟩⟩
  newList h within := ⟨h.fresh.setList fun v mem => (within v mem).mono fun _ _ =>
    Store.IsBuilder.fresh, fun _ _ made => ⟨made.fresh, l.refl _⟩, Value.Lawful.list⟩
  items h mem := h.of_mem_listItems mem
  setList h _ within := ⟨h.setList within, fun _ _ made => ⟨made, l.refl _⟩⟩
  data h made := by
    obtain ⟨found, named⟩ := (Value.Lawful.builder_iff.mp made).builderData
    exact ⟨named, h.builder found⟩
  setBuilder {st id typeName data} h made fits grown := by
    have later : st.Outgrows l.grows (st.setBuilder id data) := by
      intro k typeName' made'
      by_cases same : k = id
      · subst same
        obtain ⟨-, old, found, named⟩ := Value.Lawful.builder_iff.mp made
        have ⟨_, old', found', named'⟩ := made'
        cases found.symm.trans found'
        cases named.symm.trans named'
        refine ⟨made'.setBuilder fun _ => fits.1, ?_⟩
        rw [Store.builderData_setBuilder_self]
        exact grown
      · refine ⟨made'.setBuilder fun same' => absurd same' same, ?_⟩
        rw [Store.builderData_setBuilder_ne same]
        exact l.refl _
    exact ⟨h.setBuilder fits.2 rfl rfl fun k typeName' made' => (later k typeName' made').1, later⟩

theorem ofLasting_upholdsAt {s : Schema} {l : LastingLaw} {c : Call} (keeps : s.KeepsAt l c) :
    (ofLasting l).UpholdsAt s c where
  wrapper kind id content := by
    refine .intro (keeps.wrapper kind id content) fun k inside holds => ?_
    rcases Record.holds_of_set holds with holds | mem
    · exact absurd holds Record.not_holds_empty
    · cases List.mem_singleton.mp mem
  set found mem singular stores fits := by
    obtain ⟨v, taken⟩ := stores.operand
    rw [← fits.1] at found
    obtain ⟨holds, grown⟩ := keeps.set found mem singular taken fits.2.here
    exact ⟨⟨Native.typeName_setField.trans fits.1, fits.2.change holds fun id inside holds =>
      (Native.holds_of_setField holds).imp_right fun same => stores.message id inside same.symm⟩, grown⟩
  add found mem repeated stores fits := by
    obtain ⟨v, taken⟩ := stores.operand
    rw [← fits.1] at found
    obtain ⟨holds, grown⟩ := keeps.add found mem repeated taken fits.2.here
    exact ⟨⟨Record.typeName_push.trans fits.1, fits.2.change holds fun id inside holds =>
      (Record.holds_of_push holds).imp_right fun same => stores.message id inside same.symm⟩, grown⟩
  setExtension owner sets identified stores fits := by
    obtain ⟨v, taken⟩ := stores.operand
    obtain ⟨holds, grown⟩ := keeps.setExtension owner sets identified fits.1.symm taken fits.2.here
    exact ⟨⟨fits.1, fits.2.change holds fun id inside holds => (Record.holds_of_set holds).imp_right
      fun within => stores.message id inside (List.mem_singleton.mp within).symm⟩, grown⟩
  addExtension owner adds identified stores fits := by
    obtain ⟨v, taken⟩ := stores.operand
    obtain ⟨holds, grown⟩ := keeps.addExtension owner adds identified fits.1.symm taken fits.2.here
    exact ⟨⟨Record.typeName_push.trans fits.1, fits.2.change holds fun id inside holds =>
      (Record.holds_of_push holds).imp_right fun same => stores.message id inside same.symm⟩, grown⟩

end Policy

def LastingLaw.ofLaw (law : MessageData → Prop) (empty : ∀ typeName, law (.empty typeName)) : LastingLaw :=
  ⟨law, fun _ _ => True, empty, fun _ => trivial, fun _ _ => trivial⟩

theorem Schema.Keeps.keepsAt {s : Schema} {law : MessageData → Prop} (keeps : s.Keeps law) (c : Call) :
    s.KeepsAt (.ofLaw law keeps.empty) c where
  wrapper := keeps.wrapper
  set found mem singular taken holds := ⟨keeps.set found mem singular taken holds, trivial⟩
  add found mem repeated taken holds := ⟨keeps.add found mem repeated taken holds, trivial⟩
  setExtension _ _ identified container taken holds :=
    ⟨keeps.setExtension (Native.extensionArg_mem identified).1 container taken holds, trivial⟩
  addExtension _ _ identified container taken holds :=
    ⟨keeps.addExtension (Native.extensionArg_mem identified).1 container taken holds, trivial⟩

end MessageCode
