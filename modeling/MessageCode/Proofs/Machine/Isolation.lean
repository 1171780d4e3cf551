import MessageCode.Proofs.Machine.Policy.Run

/-!
Isolation. What builders and native lists hold changes only through references to them. Some of them
are hidden: no value leads to them, and no list holds a value that does. Whatever is done with such
values leaves the hidden ones as they are, and gives such values again.
-/

namespace MessageCode

open Stateful

mutual

/-- Every builder and every native list that the value leads to is an allowed one. -/
def Value.Within (allowed : ObjectId → Prop) : Value → Prop
  | .ref id object => object.Within allowed id
  | _ => True

def Object.Within (allowed : ObjectId → Prop) (id : ObjectId) : Object → Prop
  | .wrapper content => content.Within allowed
  | .boxed b => b.Within allowed
  | .builder _ => allowed id
  | .list => allowed id
  | .provider value => value.Within allowed
  | _ => True

def Boxed.Within (allowed : ObjectId → Prop) : Boxed → Prop
  | .proto value => value.Within allowed
  | .list items => Value.AllWithin allowed items
  | _ => True

def Value.AllWithin (allowed : ObjectId → Prop) : List Value → Prop
  | [] => True
  | v :: rest => v.Within allowed ∧ Value.AllWithin allowed rest

end

theorem Value.allWithin_iff {allowed : ObjectId → Prop} {values : List Value} :
    AllWithin allowed values ↔ ∀ v ∈ values, v.Within allowed := by
  induction values with
  | nil => simp [AllWithin]
  | cons v rest ih => simp [AllWithin, ih]

mutual

theorem Value.Within.mono {allowed allowed' : ObjectId → Prop} {v : Value} (h : v.Within allowed)
    (imp : ∀ k, allowed k → allowed' k) : v.Within allowed' := by
  cases v with
  | ref id object => exact Object.Within.mono h imp
  | _ => trivial

theorem Object.Within.mono {allowed allowed' : ObjectId → Prop} {id : ObjectId} {object : Object}
    (h : object.Within allowed id) (imp : ∀ k, allowed k → allowed' k) :
    object.Within allowed' id := by
  cases object with
  | wrapper content => exact Value.Within.mono h imp
  | boxed b => exact Boxed.Within.mono h imp
  | builder typeName => exact imp id h
  | list => exact imp id h
  | provider value => exact Value.Within.mono h imp
  | _ => trivial

theorem Boxed.Within.mono {allowed allowed' : ObjectId → Prop} {b : Boxed} (h : b.Within allowed)
    (imp : ∀ k, allowed k → allowed' k) : b.Within allowed' := by
  cases b with
  | proto value => exact Value.Within.mono h imp
  | list items => exact Value.AllWithin.mono h imp
  | _ => trivial

theorem Value.AllWithin.mono {allowed allowed' : ObjectId → Prop} {values : List Value}
    (h : Value.AllWithin allowed values) (imp : ∀ k, allowed k → allowed' k) :
    Value.AllWithin allowed' values := by
  cases values with
  | nil => trivial
  | cons v rest => exact ⟨Value.Within.mono h.1 imp, Value.AllWithin.mono h.2 imp⟩

end

structure Store.SameAt (s s' : Store) (id : ObjectId) : Prop where
  builder : s'.builders.get? id = s.builders.get? id
  list : s'.lists.get? id = s.lists.get? id

/-- The builders and lists made so far that are not hidden. -/
def Open (hidden : ObjectId → Prop) (made : Nat) (id : ObjectId) : Prop := id < made ∧ ¬hidden id

/-- The hidden objects are made, and no list of the machine leads to one of them. -/
structure Machine.Apart (hidden : ObjectId → Prop) (m : Machine) : Prop where
  made : ∀ id, hidden id → id < m.store.nextId
  lists : ∀ cell ∈ m.store.lists, ∀ v ∈ cell.2, v.Within (Open hidden m.store.nextId)

/-- From machines that have made so many objects, the step leaves what is hidden as it is and hidden. -/
def Guarded {ε α : Type} (hidden : ObjectId → Prop) (made : Nat) (x : Stateful ε Machine α)
    (Q : Nat → α → Prop) : Prop :=
  ∀ m, made ≤ m.store.nextId → m.Apart hidden → ∀ a m', x.run m = (.ok a, m') →
    m.store.nextId ≤ m'.store.nextId ∧ m'.Apart hidden ∧
      (∀ id, hidden id → m.store.SameAt m'.store id) ∧ Q m'.store.nextId a

abbrev LeadsOpen (hidden : ObjectId → Prop) (made : Nat) (v : Value) : Prop := v.Within (Open hidden made)

theorem Open.mono {hidden : ObjectId → Prop} {made made' : Nat} (le : made ≤ made') (id : ObjectId)
    (h : Open hidden made id) : Open hidden made' id := ⟨h.1.trans_le le, h.2⟩

theorem LeadsOpen.mono {hidden : ObjectId → Prop} {made made' : Nat} {v : Value}
    (h : LeadsOpen hidden made v) (le : made ≤ made') : LeadsOpen hidden made' v :=
  Value.Within.mono h (Open.mono le)

theorem Store.SameAt.refl (s : Store) (k : ObjectId) : s.SameAt s k := ⟨rfl, rfl⟩

theorem Store.SameAt.trans {s s' s'' : Store} {k : ObjectId} (h : s.SameAt s' k)
    (h' : s'.SameAt s'' k) : s.SameAt s'' k :=
  ⟨h'.builder.trans h.builder, h'.list.trans h.list⟩

namespace Machine

variable {ε : Type} {hidden : ObjectId → Prop} {made : Nat}

theorem Apart.fresh {m : Machine} (h : m.Apart hidden) :
    Apart hidden { m with store := { m.store with nextId := m.store.nextId + 1 } } where
  made id out := Nat.lt_succ_of_lt (h.made id out)
  lists cell mem v mem' := (h.lists cell mem v mem').mono (Open.mono (Nat.le_succ _))

theorem Apart.open_next {m : Machine} (h : m.Apart hidden) :
    Open hidden (m.store.nextId + 1) m.store.nextId :=
  ⟨Nat.lt_succ_self _, fun out => absurd (h.made _ out) (Nat.lt_irrefl _)⟩

theorem Apart.setBuilder {m : Machine} (h : m.Apart hidden) (id : ObjectId) (data : MessageData) :
    Apart hidden { m with store := m.store.setBuilder id data } := ⟨h.made, h.lists⟩

theorem Apart.setList {m : Machine} (h : m.Apart hidden) {items : List Value} (id : ObjectId)
    (within : ∀ v ∈ items, LeadsOpen hidden m.store.nextId v) :
    Apart hidden { m with store := m.store.setList id items } where
  made := h.made
  lists cell mem v mem' := by
    rcases Cells.mem_of_mem_set mem with rfl | mem
    · exact within v mem'
    · exact h.lists cell mem v mem'

end Machine

def Policy.isolation (hidden : ObjectId → Prop) : Policy where
  sound st := Machine.Apart hidden ⟨st, [], 0⟩
  later st st' := st.nextId ≤ st'.nextId ∧ ∀ id, hidden id → st.SameAt st' id
  value st v := LeadsOpen hidden st.nextId v
  message _ := True
  contents _ _ := True
  grows _ _ := True
  faults := False
  refl st := ⟨le_rfl, fun id _ => .refl st id⟩
  trans h h' := ⟨h.1.trans h'.1, fun id out => (h.2 id out).trans (h'.2 id out)⟩
  mono h v := v.mono h.1
  primitive {st v} h := by
    cases v with
    | ref => cases h
    | _ => trivial
  object {st id o} cell := by
    cases o with
    | boxed b =>
        cases b with
        | list items => simp [Object.parts, Value.Within, Object.Within, Boxed.Within, Value.allWithin_iff]
        | _ => simp [Object.parts, Value.Within, Object.Within, Boxed.Within]
    | builder | list => cases cell
    | _ => simp [Object.parts, Value.Within, Object.Within]
  inner _ _ := trivial
  empty _ := trivial
  built _ := trivial
  fresh apart := ⟨apart.fresh, Nat.le_succ _, fun _ _ => ⟨rfl, rfl⟩⟩
  newBuilder typeName apart := ⟨apart.fresh.setBuilder _ _, ⟨Nat.le_succ _, fun id out =>
    ⟨Cells.get?_set_ne (apart.made id out).ne, rfl⟩⟩, apart.open_next⟩
  newList apart within := ⟨apart.fresh.setList _ fun v mem => (within v mem).mono (Nat.le_succ _),
    ⟨Nat.le_succ _, fun id out => ⟨rfl, Cells.get?_set_ne (apart.made id out).ne⟩⟩, apart.open_next⟩
  items {st id v} apart mem := by
    obtain ⟨items, content, mem⟩ := Store.mem_listItems.mp mem
    obtain ⟨cell, mem', rfl⟩ := Cells.mem_of_get? content
    exact apart.lists cell mem' v mem
  setList {st id items} apart shown within := by
    refine ⟨apart.setList id within, le_rfl, fun k out => ⟨rfl, Cells.get?_set_ne ?_⟩⟩
    rintro rfl
    exact shown.2 out
  data _ _ := trivial
  setBuilder {st id typeName data} apart shown _ _ := by
    refine ⟨apart.setBuilder id data, le_rfl, fun k out => ⟨Cells.get?_set_ne ?_, rfl⟩⟩
    rintro rfl
    exact shown.2 out

section

variable {hidden : ObjectId → Prop}

theorem Policy.isolation_upholds (s : Schema) : (isolation hidden).Upholds s := fun _ =>
  ⟨fun _ _ _ => trivial, fun _ _ _ _ _ => ⟨trivial, trivial⟩, fun _ _ _ _ _ => ⟨trivial, trivial⟩,
    fun _ _ _ _ _ => ⟨trivial, trivial⟩, fun _ _ _ _ _ => ⟨trivial, trivial⟩⟩

theorem Guarded.of_kept {ε α : Type} {made : Nat} {x : Stateful ε Machine α} {Q : Nat → α → Prop}
    (h : ∀ st, made ≤ st.nextId → (Policy.isolation hidden).Kept st x fun st => Q st.nextId) :
    Guarded hidden made x Q := by
  intro m le apart a m' run
  obtain ⟨⟨grows, same⟩, apart, holds⟩ := h m.store le m (Policy.refl _ _) ⟨apart.made, apart.lists⟩
    _ _ run (.inr ⟨a, rfl⟩)
  exact ⟨grows, ⟨apart.made, apart.lists⟩, same, holds a rfl⟩

theorem Guarded.kept {ε α : Type} {st : Store} {x : Stateful ε Machine α} {Q : Nat → α → Prop}
    (h : Guarded hidden st.nextId x Q) : (Policy.isolation hidden).Kept st x fun st => Q st.nextId := by
  intro m le apart r m' run counts
  obtain ⟨a, rfl⟩ := counts.resolve_left id
  obtain ⟨grows, apart, same, holds⟩ := h m le.1 ⟨apart.made, apart.lists⟩ a m' run
  refine ⟨⟨grows, same⟩, ⟨apart.made, apart.lists⟩, ?_⟩
  rintro _ ⟨⟩
  exact holds

namespace Machine

variable {ε : Type} {made : Nat}

theorem freshId_guarded :
    Guarded hidden made (monadLift freshId : Stateful ε Machine ObjectId) (Open hidden) := by
  rintro m le apart _ _ ⟨⟩
  exact ⟨Nat.le_succ _, apart.fresh, fun id _ => ⟨rfl, rfl⟩, apart.open_next⟩

theorem listItems_guarded (id : ObjectId) :
    Guarded hidden made (monadLift (listItems id) : Stateful ε Machine (List Value))
      (fun n items => ∀ v ∈ items, LeadsOpen hidden n v) :=
  .of_kept fun _ _ => Policy.listItems_kept id

end Machine

theorem Native.resolved_leadsOpen {made : Nat} {v : Value} (h : LeadsOpen hidden made v) :
    LeadsOpen hidden made (resolved v) := by
  have shown : (Policy.isolation hidden).value ⟨made, [], []⟩ v := h
  exact resolved_fine shown

end

structure Call.LeadsOpen (hidden : ObjectId → Prop) (made : Nat) (c : Call) : Prop where
  args : ∀ v ∈ c.args, MessageCode.LeadsOpen hidden made v
  receiver : ∀ v, c.receiver = some v → MessageCode.LeadsOpen hidden made v

def LeadsOpen? (hidden : ObjectId → Prop) (made : Nat) (result : Option Value) : Prop :=
  ∀ v, result = some v → LeadsOpen hidden made v

end MessageCode
