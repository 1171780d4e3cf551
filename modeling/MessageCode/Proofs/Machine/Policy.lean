import Mathlib.Data.Nat.Basic
import Mathlib.Order.Basic
import MessageCode.Proofs.Machine.Contents
import MessageCode.Proofs.Machine.Exec

/-!
Policies: what is kept of the machine from step to step. A policy says what holds of every store, how a
store may change into a later one, and what holds of the values that the code has at that point. It says
in what way values are made of others, so that to follow one it is enough to look at builders, native
lists and the contents of messages.
-/

namespace MessageCode

open Stateful

namespace Cells

variable {α : Type} {cells : Cells α} {id k : ObjectId} {content : α}

theorem get?_set_self : (cells.set id content).get? id = some content := by
  unfold set get?
  split
  · rename_i known
    induction cells with
    | nil => simp at known
    | cons cell rest ih =>
        by_cases same : cell.1 = id
        · simp [same]
        · have known : (rest.any fun cell => decide (cell.1 = id)) = true := by
            simpa [same] using known
          simpa [same] using ih known
  · simp

theorem get?_set_ne (apart : k ≠ id) : (cells.set id content).get? k = cells.get? k := by
  have other : ¬id = k := fun same => apart same.symm
  have replaced : ∀ cells : Cells α,
      (cells.map fun cell => if cell.1 = id then (id, content) else cell).find?
        (fun cell => decide (cell.1 = k)) = cells.find? fun cell => decide (cell.1 = k) := by
    intro cells
    induction cells with
    | nil => rfl
    | cons cell rest ih =>
        rw [List.map_cons, List.find?_cons, List.find?_cons, ih]
        by_cases same : cell.1 = id
        · simp [same, other]
        · simp [same]
  unfold set get?
  split
  · rw [replaced]
  · simp [other]

theorem set_set {other : α} : (cells.set id other).set id content = cells.set id content := by
  unfold set
  by_cases known : (cells.any fun cell => cell.1 = id) = true
  · have still : ((cells.map fun cell => if cell.1 = id then (id, other) else cell).any
        fun cell => cell.1 = id) = true := by
      obtain ⟨cell, mem, same⟩ := List.any_eq_true.mp known
      refine List.any_eq_true.mpr ⟨_, List.mem_map_of_mem mem, ?_⟩
      rw [if_pos (of_decide_eq_true same)]
      exact decide_eq_true rfl
    rw [if_pos known, if_pos still, if_pos known, List.map_map]
    refine List.map_congr_left fun cell _ => ?_
    by_cases same : cell.1 = id
    · simp [same]
    · simp [same]
  · have none : ∀ cell ∈ cells, ¬cell.1 = id := fun cell mem same =>
      known (List.any_eq_true.mpr ⟨cell, mem, decide_eq_true same⟩)
    rw [if_neg known, if_pos (by simp), if_neg known, List.map_cons, if_pos rfl]
    refine congrArg _ ?_
    conv_rhs => rw [← List.map_id cells]
    exact List.map_congr_left fun cell mem => if_neg (none cell mem)

theorem eq_of_get?_set {other : α} (found : (cells.set id content).get? k = some other) :
    (k = id ∧ other = content) ∨ cells.get? k = some other := by
  by_cases same : k = id
  · subst same
    cases get?_set_self.symm.trans found
    exact .inl ⟨rfl, rfl⟩
  · exact .inr ((get?_set_ne same).symm.trans found)

theorem mem_of_mem_set {cell : ObjectId × α} (mem : cell ∈ cells.set id content) :
    cell = (id, content) ∨ cell ∈ cells := by
  unfold set at mem
  split at mem
  · obtain ⟨old, mem', rfl⟩ := List.mem_map.mp mem
    by_cases same : old.1 = id
    · exact .inl (if_pos same)
    · rw [if_neg same]
      exact .inr mem'
  · exact List.mem_cons.mp mem

theorem mem_of_get? (h : cells.get? id = some content) : ∃ cell ∈ cells, cell.2 = content := by
  obtain ⟨cell, found, same⟩ := Option.map_eq_some_iff.mp h
  exact ⟨cell, List.mem_of_find?_eq_some found, same⟩

end Cells

theorem Store.mem_listItems {st : Store} {id : ObjectId} {v : Value} :
    v ∈ st.listItems id ↔ ∃ items, st.lists.get? id = some items ∧ v ∈ items := by
  unfold listItems
  cases st.lists.get? id <;> simp

def Store.fresh (st : Store) : Store := { st with nextId := st.nextId + 1 }

namespace Object

/-- The values that an object is made of. Builders and native lists have theirs in the store. -/
def parts : Object → List Value
  | .wrapper content => [content]
  | .provider value => [value]
  | .boxed (.proto value) => [value]
  | .boxed (.list items) => items
  | _ => []

def isCell : Object → Bool
  | .builder _ | .list => true
  | _ => false

def isPlain : Object → Bool
  | .message _ | .builder _ | .list => false
  | o => o.parts.isEmpty

end Object

structure Policy where
  /-- What holds of every store. -/
  sound : Store → Prop
  /-- What relates a store to those after it. -/
  later : Store → Store → Prop
  /-- What holds of the values that the code has. -/
  value : Store → Value → Prop
  /-- What holds of the contents of messages. -/
  message : MessageData → Prop
  /-- What holds of the contents of the builders of a type. -/
  contents : String → MessageData → Prop
  /-- How the contents of a builder may change. -/
  grows : MessageData → MessageData → Prop
  /-- The policy is kept by steps that fault too. -/
  faults : Prop
  refl (st) : later st st
  trans {st st' st''} : later st st' → later st' st'' → later st st''
  mono {st st' v} : later st st' → value st v → value st' v
  primitive {st v} : v.object? = none → value st v
  object {st id o} : o.isCell = false → (value st (.ref id o) ↔
    (∀ v ∈ o.parts, value st v) ∧ ∀ data, o = .message data → message data)
  inner {data id inside} : message data → data.Holds (.message id inside) → message inside
  empty (typeName) : message (.empty typeName)
  built {typeName data} : contents typeName data → message data
  fresh {st} : sound st → sound st.fresh ∧ later st st.fresh
  newBuilder {st} (typeName) : sound st →
    sound (st.fresh.setBuilder st.nextId (.empty typeName)) ∧
      later st (st.fresh.setBuilder st.nextId (.empty typeName)) ∧
      value (st.fresh.setBuilder st.nextId (.empty typeName)) (.ref st.nextId (.builder typeName))
  newList {st items} : sound st → (∀ v ∈ items, value st v) →
    sound (st.fresh.setList st.nextId items) ∧ later st (st.fresh.setList st.nextId items) ∧
      value (st.fresh.setList st.nextId items) (.ref st.nextId .list)
  items {st id v} : sound st → v ∈ st.listItems id → value st v
  setList {st id items} : sound st → value st (.ref id .list) → (∀ v ∈ items, value st v) →
    sound (st.setList id items) ∧ later st (st.setList id items)
  data {st id typeName} : sound st → value st (.ref id (.builder typeName)) →
    contents typeName (st.builderData id typeName)
  setBuilder {st id typeName data} : sound st → value st (.ref id (.builder typeName)) →
    contents typeName data → grows (st.builderData id typeName) data →
      sound (st.setBuilder id data) ∧ later st (st.setBuilder id data)

namespace Policy

variable {P : Policy} {st st' : Store} {v : Value} {id : ObjectId} {o : Object}

theorem plain (h : o.isPlain = true) : P.value st (.ref id o) := by
  have cell : o.isCell = false := by
    cases o with
    | builder | list => cases h
    | _ => rfl
  have none : o.parts = [] := by
    cases o with
    | message | builder | list => rfl
    | _ => exact List.isEmpty_iff.mp h
  refine (P.object cell).mpr ⟨by simp [none], ?_⟩
  rintro data rfl
  cases h

theorem message_iff {data : MessageData} : P.value st (.ref id (.message data)) ↔ P.message data := by
  rw [P.object rfl]
  simp [Object.parts]

theorem wrapper_iff : P.value st (.ref id (.wrapper v)) ↔ P.value st v := by
  rw [P.object rfl]
  simp [Object.parts]

theorem provider_iff : P.value st (.ref id (.provider v)) ↔ P.value st v := by
  rw [P.object rfl]
  simp [Object.parts]

theorem proto_iff : P.value st (.ref id (.boxed (.proto v))) ↔ P.value st v := by
  rw [P.object rfl]
  simp [Object.parts]

theorem boxedList_iff {items : List Value} :
    P.value st (.ref id (.boxed (.list items))) ↔ ∀ v ∈ items, P.value st v := by
  rw [P.object rfl]
  simp [Object.parts]

theorem stored {data : MessageData} {a : Stored} (h : P.message data) (holds : data.Holds a) :
    P.value st a.toValue := by
  cases a with
  | text | bytes => exact P.plain rfl
  | message id inside => exact message_iff.mpr (P.inner h holds)
  | _ => exact P.primitive rfl

/-- The result of a step counts: it is no fault, or the policy is about faults too. -/
def Counts {ε α : Type} (P : Policy) (r : Except ε α) : Prop := P.faults ∨ ∃ a, r = .ok a

theorem Counts.error {ε ε' α β : Type} {e : ε} {e' : ε'} (h : P.Counts (.error e : Except ε α)) :
    P.Counts (.error e' : Except ε' β) := by
  rcases h with faults | ⟨_, absurd⟩
  · exact .inl faults
  · cases absurd

/-- From stores after the given one, the step keeps to the policy and gives a result with the
property. -/
def Kept {ε α : Type} (P : Policy) (st : Store) (x : Stateful ε Machine α) (Q : Store → α → Prop) :
    Prop :=
  ∀ m, P.later st m.store → P.sound m.store → ∀ r m', x.run m = (r, m') → P.Counts r →
    P.later m.store m'.store ∧ P.sound m'.store ∧ ∀ a, r = .ok a → Q m'.store a

namespace Kept

variable {ε α β : Type} {x : Stateful ε Machine α} {Q Q' : Store → α → Prop} {R : Store → β → Prop}

theorem pure {a : α} (h : ∀ st', P.later st st' → Q st' a) :
    P.Kept st (Pure.pure a : Stateful ε Machine α) Q := by
  rintro m le sound _ _ ⟨⟩ -
  refine ⟨P.refl _, sound, ?_⟩
  rintro _ ⟨⟩
  exact h _ le

theorem throw (e : ε) : P.Kept st (MonadExcept.throw e : Stateful ε Machine α) Q := by
  rintro m le sound _ _ ⟨⟩ -
  exact ⟨P.refl _, sound, nofun⟩

theorem refuse {p : Prop} [Decidable p] {e : ε} {step : PUnit → Stateful ε Machine α}
    (h : ¬p → P.Kept st (step ⟨⟩) Q) :
    P.Kept st (if p then MonadExcept.throw e >>= step else step ⟨⟩) Q := by
  split
  · exact throw e
  · rename_i passed
    exact h passed

theorem bind {f : α → Stateful ε Machine β} (h : P.Kept st x Q)
    (h' : ∀ a st', P.later st st' → Q st' a → P.Kept st' (f a) R) : P.Kept st (x >>= f) R := by
  intro m le sound r m₂ run counts
  rw [run_bind] at run
  rcases first : x.run m with ⟨e | a, m₁⟩
  · rw [first] at run
    cases run
    obtain ⟨grows, sound, -⟩ := h m le sound _ _ first counts.error
    exact ⟨grows, sound, nofun⟩
  · rw [first] at run
    obtain ⟨grows, sound, holds⟩ := h m le sound _ _ first (.inr ⟨a, rfl⟩)
    obtain ⟨grows', sound, holds⟩ := h' a m₁.store (P.trans le grows) (holds a rfl) m₁ (P.refl _) sound
      r m₂ run counts
    exact ⟨P.trans grows grows', sound, holds⟩

theorem imp (h : P.Kept st x Q) (h' : ∀ st' a, Q st' a → Q' st' a) : P.Kept st x Q' := by
  intro m le sound r m' run counts
  obtain ⟨grows, sound, holds⟩ := h m le sound r m' run counts
  exact ⟨grows, sound, fun a same => h' _ a (holds a same)⟩

theorem of_store (h : ∀ m r m', x.run m = (r, m') → m'.store = m.store)
    (holds : ∀ m a m', P.later st m.store → P.sound m.store → x.run m = (.ok a, m') → Q m.store a) :
    P.Kept st x Q := by
  intro m le sound r m' run _
  rw [h m r m' run]
  refine ⟨P.refl _, sound, ?_⟩
  rintro a rfl
  exact holds m a m' le sound run

theorem ofExcept {e : Except Fault α} (h : ∀ a, e = .ok a → ∀ st', P.later st st' → Q st' a) :
    P.Kept st (Native.ofExcept e) Q := by
  cases e with
  | ok a => exact pure (h a rfl)
  | error f => exact throw f

theorem mapM {f : α → Stateful ε Machine β} {items : List α}
    (mono : ∀ st st' b, P.later st st' → R st b → R st' b)
    (h : ∀ a ∈ items, ∀ st', P.later st st' → P.Kept st' (f a) R) :
    P.Kept st (items.mapM f) fun st' bs => ∀ b ∈ bs, R st' b := by
  induction items generalizing st with
  | nil =>
      rw [List.mapM_nil]
      exact pure fun _ _ => nofun
  | cons a items ih =>
      rw [List.mapM_cons]
      refine (h a List.mem_cons_self st (P.refl _)).bind fun b st' le first => ?_
      refine (ih fun a mem st'' le' => h a (List.mem_cons_of_mem _ mem) st'' (P.trans le le')).bind
        fun bs st'' le' rest => ?_
      refine pure fun st₃ le'' c mem => ?_
      rcases List.mem_cons.mp mem with rfl | mem
      · exact mono _ _ _ (P.trans le' le'') first
      · exact mono _ _ _ le'' (rest c mem)

end Kept

/-! The steps of the machine. -/

variable {ε : Type}

theorem freshId_kept :
    P.Kept st (monadLift Machine.freshId : Stateful ε Machine ObjectId) fun _ _ => True := by
  rintro m le sound _ _ ⟨⟩ -
  obtain ⟨sound, grows⟩ := P.fresh sound
  exact ⟨grows, sound, fun _ _ => trivial⟩

theorem alloc_kept (h : ∀ st' id, P.later st st' → P.value st' (.ref id o)) :
    P.Kept st (monadLift (Machine.alloc o) : Stateful ε Machine Value) P.value := by
  rintro m le sound _ _ ⟨⟩ -
  obtain ⟨sound, grows⟩ := P.fresh sound
  refine ⟨grows, sound, ?_⟩
  rintro _ ⟨⟩
  exact h _ _ (P.trans le grows)

theorem allocBuilder_kept (typeName : String) :
    P.Kept st (monadLift (Machine.allocBuilder (.empty typeName)) : Stateful ε Machine Value)
      P.value := by
  rintro m le sound _ _ ⟨⟩ -
  obtain ⟨sound, grows, made⟩ := P.newBuilder typeName sound
  refine ⟨grows, sound, ?_⟩
  rintro _ ⟨⟩
  exact made

theorem allocList_kept {items : List Value} (h : ∀ v ∈ items, P.value st v) :
    P.Kept st (monadLift (Machine.allocList items) : Stateful ε Machine Value) P.value := by
  rintro m le sound _ _ ⟨⟩ -
  obtain ⟨sound, grows, made⟩ := P.newList sound fun v mem => P.mono le (h v mem)
  refine ⟨grows, sound, ?_⟩
  rintro _ ⟨⟩
  exact made

theorem listItems_kept (id : ObjectId) :
    P.Kept st (monadLift (Machine.listItems id) : Stateful ε Machine (List Value))
      fun st' items => ∀ v ∈ items, P.value st' v := by
  refine .of_store (fun m r m' run => by cases run; rfl) ?_
  rintro m _ _ - sound ⟨⟩ v mem
  exact P.items sound mem

theorem builderData_kept {typeName : String} (h : P.value st (.ref id (.builder typeName))) :
    P.Kept st (monadLift (Machine.builderData id typeName) : Stateful ε Machine MessageData)
      fun _ data => P.contents typeName data := by
  refine .of_store (fun m r m' run => by cases run; rfl) ?_
  rintro m _ _ le sound ⟨⟩
  exact P.data sound (P.mono le h)

/-- Contents of a builder are replaced by what they become. -/
theorem updateBuilder_kept {typeName : String} {change : MessageData → MessageData}
    (h : P.value st (.ref id (.builder typeName)))
    (changes : ∀ data, P.contents typeName data →
      P.contents typeName (change data) ∧ P.grows data (change data)) :
    P.Kept st (monadLift (Machine.builderData id typeName) >>= fun data =>
      (monadLift (Machine.setBuilder id (change data)) : Stateful ε Machine PUnit)) fun _ _ => True := by
  rintro m le sound _ _ ⟨⟩ -
  have builder := P.mono le h
  obtain ⟨fits, grown⟩ := changes _ (P.data sound builder)
  obtain ⟨sound, grows⟩ := P.setBuilder sound builder fits grown
  exact ⟨grows, sound, fun _ _ => trivial⟩

theorem setList_kept {items : List Value} (h : P.value st (.ref id .list))
    (within : ∀ v ∈ items, P.value st v) :
    P.Kept st (monadLift (Machine.setList id items) : Stateful ε Machine PUnit) fun _ _ => True := by
  rintro m le sound _ _ ⟨⟩ -
  obtain ⟨sound, grows⟩ := P.setList sound (P.mono le h) fun v mem => P.mono le (within v mem)
  exact ⟨grows, sound, fun _ _ => trivial⟩

end Policy

end MessageCode
