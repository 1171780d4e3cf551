import MessageCode.Proofs.Generate.Construct
import MessageCode.Proofs.Generate.Narrowed
import MessageCode.Proofs.Generate.Rounds
import MessageCode.Proofs.Machine.Ascending

/-!
The loop over a list. It visits the elements one after the other and hands the coerced form of each to
the builder, up to the first element that has none.
-/

namespace MessageCode

open Stateful

/-- An item of a list as the expression language makes them: a boxed value, a provider of one, or null. -/
def Value.IsItem (v : Value) : Prop :=
  Native.resolved v = .null ∨ ∃ id b, Native.resolved v = .ref id (.boxed b)

namespace Filling

variable {s : Schema} {f : Field} {c : Coercion} {type : ValueType}

theorem readElement_quiet (loaded : s.Loaded) (covers : c.Covers s f) (type : ValueType) (i : ObjectId)
    (b : Boxed) :
    Quiet (readElement (.ofSchema s) f f c type (.ref i (.boxed b)))
      (c.Takes s type.boxedKind (.ref i (.boxed b)))
      (∀ a, ¬c.Takes s type.boxedKind (.ref i (.boxed b)) a) := by
  have stored := elementStored_quiet loaded covers type type.boxedKind i b
  rw [stored_eq] at stored
  unfold readElement
  cases f.isExtension with
  | true => exact identify_quiet.bind fun _ _ => stored
  | false => exact stored

/-- The values have come to the field in the builder, and nothing else has changed: in the slot of the field
they follow in order the elements that it had, and all other slots and builders are as they were. -/
structure Added (f : Field) (message : String) (id : ObjectId) (m : Machine) (values : List Stored)
    (m' : Machine) : Prop where
  own : values ≠ [] → (m'.store.builderData id message).slot? f.number =
    some (f.lengthened values ((m.store.builderData id message).slot? f.number))
  slots : ∀ k, k ≠ f.number ∨ values = [] →
    (m'.store.builderData id message).slot? k = (m.store.builderData id message).slot? k
  ascending : (m.store.builderData id message).Ascending → (m'.store.builderData id message).Ascending
  typeName : (m'.store.builderData id message).typeName = (m.store.builderData id message).typeName
  others : ∀ k, k ≠ id → m'.store.builders.get? k = m.store.builders.get? k
  lists : m'.store.lists = m.store.lists
  suspensions : m'.suspensions = m.suspensions

theorem Gained.added {m : Message} {message : String} {id : ObjectId} {machine machine' : Machine}
    {values : List Stored} (many : f.isRepeated = true)
    (h : Gained (m.store f) message id machine values machine') : Added f message id machine values machine' where
  own some := by
    rw [h.contents, Message.slot?_stores many, if_pos ⟨rfl, some⟩]
  slots k apart := by
    rw [h.contents, Message.slot?_stores many, if_neg fun both => apart.elim (· both.1) (both.2 ·)]
  ascending start := by
    rw [h.contents]
    exact Message.stores_ascending values start
  typeName := by
    rw [h.contents]
    exact Message.typeName_stores values
  others := h.others
  lists := h.lists
  suspensions := h.suspensions

/-- A builder that was empty has nothing but the slot of the field. -/
theorem Added.eq_of_empty {message : String} {id : ObjectId} {m m' : Machine} {values : List Stored}
    (h : Added f message id m values m') (empty : m.store.builderData id message = .empty message)
    (any : values ≠ []) :
    m'.store.builderData id message = ⟨message, [⟨f.number, f.name, .repeated values⟩]⟩ := by
  obtain ⟨own, slots, ascending, typeName, -⟩ := h
  rw [empty] at own slots ascending typeName
  refine (ascending (.empty message)).ext (List.pairwise_singleton ..) typeName fun k => ?_
  by_cases same : k = f.number
  · subst same
    rw [own any]
    simp [Record.slot?, Record.empty, Field.lengthened]
  · have other : ¬f.number = k := fun eq => same eq.symm
    rw [slots k (.inl same)]
    simp [Record.slot?, Record.empty, other]

/-- An element that has a coerced form is added to the field. One that has none ends the run, and null does
so when it is resolved. -/
theorem visit_ends (loaded : s.Loaded) (covers : c.Covers s f) {item : Value} (formed : item = .null ∨ ∃ i b, item = .ref i (.boxed b)) (type : ValueType) (m : Message)
    (message : String) (id : ObjectId) (machine : Machine) :
    (∃ a machine', (visit (.ofSchema s) m f f c type message id item).run machine = (.ok (), machine') ∧
        c.Takes s type.boxedKind item a ∧ Gained (m.store f) message id machine [a] machine') ∨
      ∃ fault machine', (visit (.ofSchema s) m f f c type message id item).run machine =
          (.error (.fault fault), machine') ∧ Gained (m.store f) message id machine [] machine' ∧
        (∀ a, ¬c.Takes s type.boxedKind item a) ∧
        (item = .null → fault = .nullPointer Signature.resolve.render) := by
  rcases formed with rfl | ⟨i, b, rfl⟩
  · have none : ∀ a, ¬c.Takes s type.boxedKind .null a := by
      rintro a ⟨_, _, ⟨⟩, -⟩
    unfold visit readElement
    cases f.isExtension with
    | true => exact .inr ⟨_, _, rfl, .none machine (machine.store.nextId + 1), none, fun _ => rfl⟩
    | false => exact .inr ⟨_, _, rfl, .none machine machine.store.nextId, none, fun _ => rfl⟩
  · have deposited := quiet_deposit (readElement_quiet loaded covers type i b) (m.store f) message id machine
    rcases deposited with taken | ⟨none, fault, machine', run, gained⟩
    · exact .inl taken
    · exact .inr ⟨fault, machine', run, gained, none, nofun⟩

theorem run_unboxList (s : Schema) {t : NativeType} {items : List Value} {w : Value} {m : Machine}
    (lists : w.Lists (!t.assignableTo Signature.list) m.store items) :
    ∃ listId m', (unboxFrom (.ofSchema s) t Signature.list w).run m = (.ok (.ref listId .list), m') ∧
      m'.store.listItems listId = items ∧ m'.store.builders = m.store.builders ∧
      m'.suspensions = m.suspensions := by
  cases native : t.assignableTo Signature.list with
  | true =>
      rw [native] at lists
      obtain ⟨listId, rfl, rfl⟩ := lists
      refine ⟨listId, m, ?_, rfl, rfl, rfl⟩
      have plain : t.boxedKind?.isSome ≠ true := by
        intro boxed
        cases t with
        | ref r =>
            cases r with
            | boxed kind => simp [NativeType.assignableTo, RefType.assignableTo, Signature.list] at native
            | _ => cases boxed
        | _ => cases boxed
      unfold unboxFrom
      rw [if_neg plain, if_pos native]
      rfl
  | false =>
      rw [native] at lists
      obtain ⟨id, rfl⟩ := lists
      let listed : Machine := { m with store :=
        { m.store with nextId := m.store.nextId + 1 }.setList m.store.nextId items }
      refine ⟨m.store.nextId, listed, ?_, congrArg (Option.getD · []) Cells.get?_set_self, rfl, rfl⟩
      have unboxed : ∀ t, (unboxBoxedFrom (.ofSchema s) t Signature.list
          (.ref id (.boxed (.list items)))).run m = (.ok (.ref m.store.nextId .list), listed) := by
        intro t
        have known : BoxedKind.list = .any ∨ (Boxed.list items).kind = .list := .inr rfl
        change (castFrom t (.boxed .list) _ >>= _).run m = _
        rw [castFrom_of_kind known]
        rfl
      have numbers : (t.isNumeric && Signature.list.isNumeric) = false := Bool.and_false _
      unfold unboxFrom
      split
      · exact unboxed t
      · rw [native, numbers, if_neg Bool.false_ne_true, if_neg Bool.false_ne_true,
          castFrom_of_kind (.inl rfl), pure_bind]
        exact unboxed _

end Filling

/-- How a run over items ends: after all of them, with the frame, or at the first one without a coerced
form, with a fault. Either way the elements up to there are in the builder. -/
inductive Filling.Ends (s : Schema) (f : Field) (c : Coercion) (kind : BoxedKind) (message : String)
    (id : ObjectId) (items : List Value) (m : Machine) (frame : Frame) : Except Stop Frame × Machine → Prop
  | all {values : List Stored} {m' : Machine} :
      List.Forall₂ (fun item a => c.Takes s kind (Native.resolved item) a) items values →
      Added f message id m values m' → Ends s f c kind message id items m frame (.ok frame, m')
  | first {before after : List Value} {bad : Value} {values : List Stored} {fault : Fault} {m' : Machine} :
      items = before ++ bad :: after →
      List.Forall₂ (fun item a => c.Takes s kind (Native.resolved item) a) before values →
      (∀ a, ¬c.Takes s kind (Native.resolved bad) a) →
      (Native.resolved bad = .null → fault = .nullPointer Signature.resolve.render) →
      Added f message id m values m' →
      Ends s f c kind message id items m frame (.error (.fault fault), m')

/-- The elements are visited as items that have been resolved. -/
theorem Filling.visits_end {s : Schema} {f : Field} {c : Coercion} (loaded : s.Loaded)
    (covers : c.Covers s f) (repeated : f.isRepeated = true) {items : List Value}
    (formed : ∀ item ∈ items, item.IsItem) (type : ValueType) (m : Message) (message : String) (id : ObjectId)
    (frame : Frame) (machine : Machine) :
    Ends s f c type.boxedKind message id items machine frame
      (((items.map Native.resolved).forM (visit (.ofSchema s) m f f c type message id) >>= fun _ =>
        pure frame).run machine) := by
  have formed' : ∀ item ∈ items.map Native.resolved, item = .null ∨ ∃ i b, item = .ref i (.boxed b) := by
    intro item mem
    obtain ⟨given, mem', rfl⟩ := List.mem_map.mp mem
    exact formed given mem'
  rcases visits (fun item mem => visit_ends loaded covers (formed' item mem) type m message id)
    machine with ⟨values, last, run, all, gained⟩ |
      ⟨before, bad, after, values, fault, last, split, all, ⟨none, nulls⟩, run, gained⟩
  · rw [run_bind_ok run]
    exact .all (List.forall₂_map_left_iff.mp all) (gained.added repeated)
  · obtain ⟨before, rest, rfl, rfl, split'⟩ := List.map_eq_append_iff.mp split
    obtain ⟨bad, after, rfl, rfl, rfl⟩ := List.map_eq_cons_iff.mp split'
    rw [run_bind_error run]
    exact .first rfl (List.forall₂_map_left_iff.mp all) none nulls (gained.added repeated)

theorem Value.Lists.present {boxed : Bool} {store : Store} {items : List Value} {w : Value}
    (h : w.Lists boxed store items) : w.isNull = false := by
  cases boxed with
  | true =>
      obtain ⟨id, rfl⟩ := h
      rfl
  | false =>
      obtain ⟨id, rfl, -⟩ := h
      rfl

/-- The code for a repeated field visits every element of a list value once and in order, and ends. What
follows the code of the value consists of a lead, which suspends once and leaves the builder alone, and of a
loop, which does not suspend. The run ends with the builder alone on the stack, the coerced forms of all
elements in it, and the locals of the loop released, or at the first element that is null or has no coerced
form, with a fault, which for null is a null pointer, and with the elements before it in the builder. -/
theorem setRepeated_visits {files : List FileDescription} {s : Schema}
    (resolved : Schema.resolve files = .ok s) {message : String} {m : Message}
    (found : s.message? message = some m) {f : Field} (mem : f ∈ s.fieldsOf message)
    (repeated : f.isRepeated = true) (sets : f.SetsBack s m) {c : Coercion}
    (coercion : Coercion.of s f = .ok c) {v : TypedValue} (listed : v.type ≠ .emptyList) {a a' : Assembly}
    (stack : a.stack = v.code.inputs.reverse ++ [.builder message])
    (run : (Construction.setRepeated .immediate f c f.isExtension v).run a = (.ok (), a')) (fuel : Nat) :
    ∃ code lead loop, a'.ops = a.ops ++ (Op.relocateAll a.nextLocal v.code.ops ++ code) ∧
      (code = lead ++ [loop] ∨ code = [.dup, .branch .isNull [.pop] (lead ++ [loop])]) ∧
      ∀ id w items locals machine, w.Lists (!v.native.assignableTo Signature.list) machine.store items →
        (∀ item ∈ items, item.IsItem) → items.length ≤ Int32.maxValue.toInt.toNat → items.length < fuel →
        a'.maxLocals ≤ locals.length →
        let builder : Value := .ref id (.builder message)
        ∃ list started,
          (Op.execAll (.ofSchema s) fuel lead ⟨[w, builder], locals⟩).run machine =
            (.ok ⟨[list, builder], locals⟩, started) ∧
          started.suspensions = machine.suspensions + 1 ∧ started.store.builders = machine.store.builders ∧
          (Op.execAll (.ofSchema s) fuel code ⟨[w, builder], locals⟩).run machine =
            (loop.exec (.ofSchema s) fuel ⟨[list, builder], locals⟩).run started ∧
          Filling.Ends s f c (Construction.elementType v.type).boxedKind message id items started
            ⟨[builder], Op.released a.nextLocal locals⟩
            ((loop.exec (.ofSchema s) fuel ⟨[list, builder], locals⟩).run started) := by
  have loaded := Schema.loaded_of_resolve resolved
  have settable := loaded.settable found (loaded.field?_eq found mem) sets
  have covers := Coercion.covers_of_eq_ok coercion
  obtain ⟨unbox, body, wrote, acts, slots, rounds⟩ :=
    Construction.setRepeated_eq_ok fuel settable.addressed repeated c listed stack run
  let lead := unbox ++ [Op.suspend Signature.resolveAll]
  let loop := Op.overList f.name a.nextLocal body
  have form : ∀ tested, Op.unlessNull tested (lead ++ [loop]) = lead ++ [loop] ∨
      Op.unlessNull tested (lead ++ [loop]) = [.dup, .branch .isNull [.pop] (lead ++ [loop])] := by
    intro tested
    cases tested with
    | true => exact .inr rfl
    | false => exact .inl rfl
  refine ⟨_, lead, loop, wrote.ops, form _, ?_⟩
  intro id w items locals machine lists formed most enough room builder
  obtain ⟨listId, unboxed, taken, content, builders, suspensions⟩ := Filling.run_unboxList s lists
  let started := unboxed.waited (items.map Native.resolved)
  have led : (Op.execAll (.ofSchema s) fuel (unbox ++ [.suspend Signature.resolveAll])
      ⟨[w, builder], locals⟩).run machine =
        (.ok ⟨[.ref unboxed.store.nextId .list, builder], locals⟩, started) := by
    have waits : ((Op.suspend Signature.resolveAll).exec (.ofSchema s) fuel
        ⟨.ref listId .list :: [builder], locals⟩).run unboxed = (.ok ⟨_, locals⟩, unboxed.waited _) :=
      Op.run_wait s fuel (.ref listId .list) [builder] locals unboxed
    rw [content] at waits
    rw [Op.execAll_append, acts.exec, bind_assoc, run_bind_ok taken, pure_bind, Op.execAll_singleton, waits]
  refine ⟨.ref unboxed.store.nextId .list, started, led, congrArg (· + 1) suspensions, builders, ?_, ?_⟩
  · rw [Op.execAll_unlessNull, lists.present, Bool.and_false, if_neg Bool.false_ne_true, Op.execAll_append,
      run_bind_ok led, Op.execAll_singleton]
  · have held : started.store.lists.get? unboxed.store.nextId = some (items.map Native.resolved) :=
      Cells.get?_set_self
    have all : Filling.reached (items.map Native.resolved) = items.map Native.resolved := by
      apply List.take_of_length_le
      rwa [List.length_map]
    have short : (Filling.reached (items.map Native.resolved)).length < fuel := by
      rwa [all, List.length_map]
    have looped : ((Op.overList f.name a.nextLocal body).exec (.ofSchema s) fuel
        ⟨[.ref unboxed.store.nextId .list, builder], locals⟩).run started = _ :=
      Op.run_overList (rounds id) (fun _ _ _ _ => Filling.visit_keeps_lists loaded covers) held short
        (slots.trans room)
    rw [looped, all]
    exact Filling.visits_end loaded covers repeated formed _ m message id _ started

def letterReplies : Field :=
  ⟨"replies", 2, .message "demo.Letter", .repeated, .legacy, "demo.Letter", none, none, false, none⟩

def letterList : TypedValue where
  code := {
    ops := [.invoke Signature.newList]
    inputs := []
    output := some Signature.list
    nonNull := true
    maxLocals := 0 }
  native := Signature.list
  type := .list (.message "demo.Letter")
  output_eq := rfl

/-- Of a letter, null, and a provider of a letter the first is added to the replies. -/
theorem letterReplies_visits :
    let letter : Value := .ref 3 (.boxed (.proto (.ref 2 (.message (.empty "demo.Letter")))))
    let machine : Machine := ⟨⟨5, [], [(0, [letter, .null, .ref 4 (.provider letter)])]⟩, [], 0⟩
    let start : Assembly := { Assembly.start [] with stack := [.builder "demo.Letter"] }
    ∃ written code stopped, (Construction.setRepeated .immediate letterReplies (.message "demo.Letter") false
        letterList).run start = (.ok (), written) ∧
      written.ops = .invoke Signature.newList :: code ∧
      (Op.execAll (.ofSchema letterSchema) 4 code ⟨[.ref 0 .list, .ref 1 (.builder "demo.Letter")],
        List.replicate written.maxLocals .null⟩).run machine =
          (.error (.fault (.nullPointer Signature.resolve.render)), stopped) ∧
      stopped.suspensions = 1 ∧ stopped.store.builderData 1 "demo.Letter" =
        ⟨"demo.Letter", [⟨2, "replies", .repeated [.message 2 (.empty "demo.Letter")]⟩]⟩ := by
  intro letter machine start
  have within : letterReplies ∈ letterSchema.fieldsOf "demo.Letter" := .tail _ (.head _)
  have formed : ∀ item ∈ [letter, .null, .ref 4 (.provider letter)], item.IsItem := by
    intro item mem
    rcases mem with _ | ⟨_, _ | ⟨_, _ | ⟨_, ⟨⟩⟩⟩⟩
    · exact .inr ⟨_, _, rfl⟩
    · exact .inl rfl
    · exact .inr ⟨_, _, rfl⟩
  have present : letterList.type ≠ .emptyList := nofun
  obtain ⟨written, run, -⟩ := Restacks.setRepeated (f := letterReplies) (c := .message "demo.Letter")
    (v := letterList) ListResolver.immediate_waits rfl (.inr (.inr ⟨_, rfl, .same⟩))
    (show _ = letterList.type.given false from rfl) start rfl
  obtain ⟨code, lead, loop, ops, -, visits⟩ := setRepeated_visits letterSchema_resolved
    letterSchema_message within rfl rfl rfl present rfl run 4
  obtain ⟨list, started, -, suspended, builders, whole, ends⟩ := visits 1 (.ref 0 .list)
    [letter, .null, .ref 4 (.provider letter)] (List.replicate written.maxLocals .null) machine ⟨0, rfl, rfl⟩
    formed (by decide) (by decide) (by simp)
  have empty : started.store.builderData 1 "demo.Letter" = .empty "demo.Letter" := by
    unfold Store.builderData
    rw [builders]
    rfl
  have takes : ∀ a, (Coercion.message "demo.Letter").Takes letterSchema .proto letter a →
      a = .message 2 (.empty "demo.Letter") := by
    rintro a ⟨i, b, same, -, coerced⟩
    change Value.ref 3 (.boxed (.proto (.ref 2 (.message (.empty "demo.Letter"))))) = _ at same
    cases same
    cases coerced
    rfl
  have taken : (Coercion.message "demo.Letter").Takes letterSchema .proto letter
      (.message 2 (.empty "demo.Letter")) := ⟨_, _, rfl, .inr rfl, .message rfl⟩
  have refuses : ∀ a, ¬(Coercion.message "demo.Letter").Takes letterSchema .proto .null a := by
    rintro _ ⟨_, _, ⟨⟩, -⟩
  obtain ⟨stopped, ended, suspensions, contents⟩ : ∃ stopped,
      (loop.exec (.ofSchema letterSchema) 4 ⟨[list, .ref 1 (.builder "demo.Letter")],
        List.replicate written.maxLocals .null⟩).run started =
          (.error (.fault (.nullPointer Signature.resolve.render)), stopped) ∧
      stopped.suspensions = 1 ∧ stopped.store.builderData 1 "demo.Letter" =
        ⟨"demo.Letter", [⟨2, "replies", .repeated [.message 2 (.empty "demo.Letter")]⟩]⟩ := by
    generalize (loop.exec _ _ _).run started = result at ends ⊢
    cases ends with
    | all each =>
        rcases each with _ | ⟨-, _ | ⟨second, -⟩⟩
        exact absurd second (refuses _)
    | @first before after bad values fault stopped split each none nulls added =>
        rcases before with _ | ⟨_, _ | ⟨_, _⟩⟩
        · cases split
          exact absurd taken (none _)
        · cases split
          rcases each with _ | ⟨one, _ | _⟩
          cases takes _ one
          exact ⟨stopped, by rw [nulls rfl], added.suspensions.trans suspended, added.eq_of_empty empty nofun⟩
        · simp only [List.cons_append, List.cons.injEq] at split
          obtain ⟨rfl, rfl, -⟩ := split
          rcases each with _ | ⟨-, _ | ⟨second, -⟩⟩
          exact absurd second (refuses _)
  exact ⟨written, code, stopped, run, ops, whole.trans ended, suspensions, contents⟩

end MessageCode
