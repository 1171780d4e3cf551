import MessageCode.Proofs.Generate.Counted

/-!
Adding the elements of a list. The code waits for the elements, which gives it a list of its own that
nothing else can get at, and adds them to the field one after the other.
-/

namespace MessageCode

open Stateful

theorem Becomes.element (s : Schema) (kind : BoxedKind) :
    Becomes (.ofSchema s) Signature.object (.boxed kind)
      (Assembler.checkCast .provider >>= fun _ => Assembler.invoke Signature.resolve >>= fun _ =>
        Assembler.checkCast (.boxed kind))
      (Filling.element (.ofSchema s) kind) := by
  have down : Signature.object.assignableTo (.ref .provider) = false := by
    simp [Signature.object, NativeType.assignableTo, RefType.assignableTo]
  have kept : (NativeType.boxed .any).cast (.boxed kind) = .boxed kind := by
    cases kind <;> simp [NativeType.cast, NativeType.assignableTo, RefType.assignableTo, NativeType.boxed]
  have cast := checkCast (.ofSchema s) (.boxed .any) (.boxed kind)
  rw [kept] at cast
  exact (of_turns (.checkCast rfl (.inl down))).seq ((invoke rfl rfl).seq cast)

namespace Fills

variable {s : Schema} {fuel : Nat} {message : String} {under : List NativeType}
  {below : List Value → Prop} {t' : NativeType} {steps : Assembler GenerateError Unit}
  {list index : Local}

theorem pointed {add : ObjectId → MessageData → Value → Run MessageData}
    (type : list.type = Signature.list) (type' : index.type = .int) (item : Value)
    (h : Stores s fuel message under below Signature.object t' steps add) :
    Fills s fuel message (Pointed list index item) under below (.builder message) t'
      (Assembler.load list >>= fun _ => Assembler.load index >>= fun _ =>
        Assembler.invoke Signature.listGet >>= fun _ => steps)
      (fun id data => add id data item) := by
  intro a a' stack _ run
  rw [Assembler.run_loadItem type type'] at run
  obtain ⟨ops, wrote, exec⟩ := h _ a' (by rw [Assembly.put_stack, stack]) run
  refine ⟨_, (Wrote.put ..).trans wrote, ?_⟩
  intro hidden id data others locals m ready around room keeps
  have loaded := around.run_load (s := s) fuel (others ++ [.ref id (.builder message)])
  obtain ⟨listId, items, n, out, content, found, slot, slot'⟩ := around
  rw [Op.execAll_append]
  have leads : LeadsOpen hidden m.store.nextId item := by
    obtain ⟨cell, mem, rfl⟩ := Cells.mem_of_get? content
    exact keeps.apart.lists cell mem item (Native.mem_of_listItem found)
  apply Alike.ahead loaded
  exact exec hidden id data item others locals m ready room leads keeps

variable {m : Message} {f : Field}

theorem addDeclared (settable : Settable s message m f) (declared : f.extensionScope = none)
    (type : list.type = Signature.list) (type' : index.type = .int) (c : Coercion)
    (element : ValueType) (item : Value) :
    Fills s fuel message (Pointed list index item) [] (· = []) (.builder message) (.builder message)
      (Construction.loadElement list index element.boxedKind >>= fun _ =>
        Construction.storeValue f c element)
      (fun id data => Filling.addElement (.ofSchema s) m f c element id data item) := by
  have own := Field.isExtension_of_declared declared
  have stores : Stores s fuel message _ _ _ _ _ _ := Stores.of_operand
    (Becomes.element s element.boxedKind)
    (Stores.declared settable declared c element (.boxed element.boxedKind) false)
  have fills := pointed type type' item stores
  unfold Construction.loadElement Filling.addElement
  simp only [bind_assoc, own, Bool.false_eq_true, if_false] at fills ⊢
  exact fills

theorem addExtension (settable : Settable s message m f) (extension : f.isExtension = true)
    (repeated : f.isRepeated = true) {identifier : StaticField}
    (refers : Refers s f f identifier)
    (type : list.type = Signature.list) (type' : index.type = .int) (c : Coercion)
    (element : ValueType) (item : Value) :
    Fills s fuel message (Pointed list index item) [] (· = []) (.builder message) (.builder message)
      (Construction.addExtensionElement f c element list index)
      (fun id data => Filling.addElement (.ofSchema s) m f c element id data item) := by
  have method : Filling.method f c = Signature.addExtension := by
    rw [Filling.method_extension extension, repeated]
    rfl
  have stores : Stores s fuel message _ _ _ _ _ _ := Stores.of_operand
    (Becomes.element s element.boxedKind)
    (Stores.extension settable extension c element (.boxed element.boxedKind))
  rw [method] at stores
  have fills : Fills s fuel message _ _ _ _ _ _ _ :=
    (identifyFirst refers (pointed type type' item stores)).asExtendable
  unfold Construction.addExtensionElement Construction.loadElement Filling.addElement
  rw [refers.ofExcept_eq, settable.container]
  simp only [bind_assoc, extension, if_true, pure_bind] at fills ⊢
  exact fills

end Fills

/-- The machine after the wait for a list, which leaves the items in a new list. -/
def Machine.waited (m : Machine) (items : List Value) : Machine :=
  { m with
    store := { m.store with nextId := m.store.nextId + 1 }.setList m.store.nextId items
    suspensions := m.suspensions + 1 }

/-- Only code with a reference to a new list gets at it. -/
theorem Machine.Keeps.waited {hidden : ObjectId → Prop} {id : ObjectId} {data : MessageData}
    {m : Machine} (keeps : m.Keeps hidden id data) {items : List Value}
    (within : ∀ v ∈ items, LeadsOpen hidden m.store.nextId v) :
    (m.waited items).Keeps (fun k => hidden k ∨ k = m.store.nextId) id data := by
  have out : ∀ k, Open hidden m.store.nextId k →
      Open (fun k => hidden k ∨ k = m.store.nextId) (m.store.nextId + 1) k := by
    intro k shown
    refine ⟨Nat.lt_succ_of_lt shown.1, ?_⟩
    rintro (out | rfl)
    · exact shown.2 out
    · exact absurd shown.1 (Nat.lt_irrefl _)
  refine ⟨⟨?_, ?_⟩, .inl keeps.builder, keeps.contents, keeps.ascending⟩
  · rintro k (out | rfl)
    · exact Nat.lt_succ_of_lt (keeps.apart.made k out)
    · exact Nat.lt_succ_self _
  · intro cell mem v mem'
    rcases Cells.mem_of_mem_set mem with rfl | mem
    · exact Value.Within.mono (within v mem') out
    · exact Value.Within.mono (keeps.apart.lists cell mem v mem') out

theorem Filled.reveal {hidden hidden' : ObjectId → Prop} {id : ObjectId} {inUse : Nat}
    {stack locals : List Value} {m m' : Machine} {frame : Frame} {data : MessageData}
    (h : Filled hidden' id inUse stack locals m frame data m') (out : ∀ k, hidden k → hidden' k)
    (builder : hidden id) : Filled hidden id inUse stack locals m frame data m' where
  stack := h.stack
  length := h.length
  slot := h.slot
  grows := h.grows
  lists k hides := h.lists k (out k hides)
  keeps := by
    refine ⟨⟨fun k hides => h.keeps.apart.made k (out k hides), ?_⟩, builder, h.keeps.contents,
      h.keeps.ascending⟩
    intro cell mem v mem'
    apply Value.Within.mono (h.keeps.apart.lists cell mem v mem')
    intro k shown
    exact ⟨shown.1, fun hides => shown.2 (out k hides)⟩

/-- Whoever waits for a list gets its items, resolved, and anything else ends in a fault. -/
theorem Filling.run_wait (w : Value) (m : Machine) :
    (waitFor w).run m = match Call.listArg ⟨Signature.resolveAll, none, [w]⟩ 0 with
      | .error e => (.error (.fault e), { m with suspensions := m.suspensions + 1 })
      | .ok listId => (.ok ((m.store.listItems listId).map Native.resolved),
          m.waited ((m.store.listItems listId).map Native.resolved)) := by
  change (Run.ofExcept (Call.listArg ⟨Signature.resolveAll, none, [w]⟩ 0) >>= _ : Run (List Value)).run
    { m with suspensions := m.suspensions + 1 } = _
  cases Call.listArg ⟨Signature.resolveAll, none, [w]⟩ 0 with
  | error e => rfl
  | ok listId => rfl

theorem Op.run_wait (s : Schema) (fuel : Nat) (w : Value) (stack locals : List Value) (m : Machine) :
    ((Op.suspend Signature.resolveAll).exec (.ofSchema s) fuel ⟨w :: stack, locals⟩).run m =
      (Filling.waitFor w >>= fun _ => pure ⟨.ref m.store.nextId .list :: stack, locals⟩).run m := by
  let c : Call := ⟨Signature.resolveAll, none, [w]⟩
  let paused : Machine := { m with suspensions := m.suspensions + 1 }
  have exec : (Op.suspend Signature.resolveAll).exec (.ofSchema s) fuel ⟨w :: stack, locals⟩ =
      Method.perform (.ofSchema s) true c >>= fun result => pure ⟨result :: stack, locals⟩ := by
    have count : [w].length = Signature.resolveAll.arity := rfl
    exact Method.exec_append count (.ofSchema s) true stack locals
  have waited := Filling.run_wait w m
  rw [exec]
  cases given : c.listArg 0 with
  | error e =>
      have called : ((Host.ofSchema s).call c).run paused = (.error e, paused) := by
        change ((Native.ofExcept (c.listArg 0) >>= _) >>= _ : Native Value).run paused = _
        rw [given]
        rfl
      have performed : (Method.perform (.ofSchema s) true c).run m = (.error (.fault e), paused) := by
        change (Run.ofNative ((Host.ofSchema s).call c)).run paused = _
        rw [Run.run_ofNative, called]
        rfl
      rw [given] at waited
      rw [run_bind_error performed, run_bind_error waited]
  | ok listId =>
      let items := (m.store.listItems listId).map Native.resolved
      have called : ((Host.ofSchema s).call c).run paused =
          (.ok (.ref m.store.nextId .list), m.waited items) := by
        change ((Native.ofExcept (c.listArg 0) >>= _) >>= _ : Native Value).run paused = _
        rw [given]
        rfl
      have performed : (Method.perform (.ofSchema s) true c).run m =
          (.ok (.ref m.store.nextId .list), m.waited items) := by
        change (Run.ofNative ((Host.ofSchema s).call c)).run paused = _
        rw [Run.run_ofNative, called]
        rfl
      rw [given] at waited
      rw [run_bind_ok performed, run_bind_ok waited]

theorem Op.exec_wait {s : Schema} {hidden : ObjectId → Prop} {id : ObjectId} {data : MessageData}
    {m : Machine} (keeps : m.Keeps hidden id data) (w : Value) (fuel : Nat)
    (stack locals : List Value) :
    Alike ((Op.suspend Signature.resolveAll).exec (.ofSchema s) fuel ⟨w :: stack, locals⟩)
      (Filling.waitFor w) m
      (fun frame items m' => frame = ⟨.ref m.store.nextId .list :: stack, locals⟩ ∧
        m' = m.waited items ∧ ∀ v ∈ items, LeadsOpen hidden m.store.nextId v) := by
  have exec := Op.run_wait s fuel w stack locals m
  have waited := Filling.run_wait w m
  cases given : Call.listArg ⟨Signature.resolveAll, none, [w]⟩ 0 with
  | error e =>
      rw [given] at waited
      exact .inl ⟨_, _, exec.trans (run_bind_error waited _), waited⟩
  | ok listId =>
      rw [given] at waited
      refine .inr ⟨_, _, _, exec.trans (run_bind_ok waited _), waited, rfl, rfl, ?_⟩
      intro v mem
      obtain ⟨u, mem', rfl⟩ := List.mem_map.mp mem
      have listed : Guarded hidden m.store.nextId
          (monadLift (Machine.listItems listId) : Run (List Value)) _ := Machine.listItems_guarded listId
      obtain ⟨-, -, -, within⟩ := listed m le_rfl keeps.apart _ _ rfl
      exact Native.resolved_leadsOpen (within u mem')

def ListResolver.wait : Sequence :=
  { ops := [.suspend Signature.resolveAll]
    inputs := [Signature.list]
    output := some Signature.list
    nonNull := true
    maxLocals := 0 }

theorem ListResolver.immediate_eq :
    (Assembler.ofExcept (immediate.resolveList.mapError OfEmitError.ofEmitError) :
      Assembler GenerateError Sequence) = Pure.pure wait := rfl

theorem ListResolver.append_wait {a a' : Assembly} {t : NativeType} {rest : List NativeType}
    (stack : a.stack = t :: rest)
    (run : (Assembler.append wait : Assembler GenerateError Unit).run a = (.ok (), a')) :
    Wrote a [.suspend Signature.resolveAll] (Signature.list :: rest) a' := by
  obtain ⟨found, left, same, fits, rfl⟩ := Assembler.append_eq_ok.mp run
  obtain ⟨_, rfl⟩ : ∃ t, found = [t] := List.length_eq_one_iff.mp fits.length_eq
  rw [stack] at same
  cases same
  exact ⟨rfl, rfl, rfl, rfl, rfl, le_max_left ..⟩

/-- The steps write the same code for every item at the index. -/
theorem Fills.everyItem {s : Schema} {fuel : Nat} {message : String} {t t' : NativeType}
    {list index : Local} {steps : Assembler GenerateError Unit}
    {add : ObjectId → MessageData → Value → Run MessageData}
    (h : ∀ item, Fills s fuel message (Pointed list index item) [] (· = []) t t' steps
      (fun id data => add id data item)) {a a' : Assembly} (stack : a.stack = [t])
    (used : list.index < a.nextLocal) (used' : index.index < a.nextLocal)
    (run : steps.run a = (.ok (), a')) :
    ∃ ops, Wrote a ops [t'] a' ∧ ∀ hidden id item data locals m, Pointed list index item hidden locals m →
      a'.maxLocals ≤ locals.length → m.Keeps hidden id data →
        Alike (Op.execAll (.ofSchema s) fuel ops ⟨[.ref id (.builder message)], locals⟩)
          (add id data item) m (Filled hidden id a.nextLocal [.ref id (.builder message)] locals m) := by
  have written := fun item => h item a a' stack (Pointed.lasts item used used') run
  obtain ⟨ops, wrote, -⟩ := written .null
  refine ⟨ops, wrote, ?_⟩
  intro hidden id item data locals m pointed room keeps
  obtain ⟨more, wrote', exec⟩ := written item
  obtain rfl : more = ops := List.append_cancel_left (wrote'.ops.symm.trans wrote.ops)
  exact exec hidden id data [] locals m rfl pointed room keeps

/-- The items of the list on top are waited for and stored one after the other. -/
theorem Stores.overList {s : Schema} {fuel : Nat} {message name : String}
    (enough : Int32.maxValue.toInt.toNat < fuel)
    {round : Local → Local → Assembler GenerateError Unit}
    {add : ObjectId → MessageData → Value → Run MessageData}
    (rounds : ∀ list index item, list.type = Signature.list → index.type = .int →
      Fills s fuel message (Pointed list index item) [] (· = []) (.builder message) (.builder message)
        (round list index) (fun id data => add id data item)) (t : NativeType) :
    Stores s fuel message [] (· = []) t (.builder message)
      (Assembler.append ListResolver.wait >>= fun _ => Construction.overList name round)
      (fun id data w => Filling.waitFor w >>= fun items =>
        (Filling.reached items).foldlM (add id) data) := by
  intro a a' stack run
  obtain ⟨⟨⟩, b, first, second⟩ := bind_eq_ok.mp run
  have waits := ListResolver.append_wait stack first
  obtain ⟨c, c', stack', inUse, body, room, slots, wrote⟩ := Construction.overList_eq_ok waits.stack second
  have used : b.nextLocal < c.nextLocal := by omega
  have used' : b.nextLocal + 2 < c.nextLocal := by omega
  obtain ⟨ops, wrote', exec⟩ :=
    Fills.everyItem (fun item => rounds _ _ item rfl rfl) stack' used used' body
  refine ⟨_, waits.trans (wrote ops wrote'), ?_⟩
  rintro hidden id data w _ locals m rfl enough' leads keeps
  rw [List.nil_append, Op.execAll_append, Op.execAll_singleton]
  apply (Op.exec_wait keeps w fuel [.ref id (.builder message)] locals).bind
  rintro _ items _ ⟨rfl, rfl, within⟩
  rw [Op.execAll_singleton]
  have grown : m.store.nextId ≤ (m.waited items).store.nextId := Nat.le_succ _
  have content : (m.waited items).store.lists.get? m.store.nextId = some items := Cells.get?_set_self
  have others : ∀ k, hidden k → (m.waited items).store.lists.get? k = m.store.lists.get? k := by
    intro k out
    exact Cells.get?_set_ne (keeps.apart.made k out).ne
  rw [inUse] at exec
  apply (Op.exec_overList enough (exec _ id) (.inr rfl) content (slots.trans enough')
    (room.trans enough') (keeps.waited within)).imp
  intro frame data' m' after
  have after := after.reveal (fun k out => .inl out) keeps.builder
  rw [waits.nextLocal] at after
  exact ⟨after.stack, after.length, after.slot, grown.trans after.grows,
    fun k out => (after.lists k out).trans (others k out), after.keeps⟩

namespace Fills

variable {s : Schema} {fuel : Nat} {message : String} {setting : Setting} {m : Message} {f : Field}
  {v : TypedValue}

theorem round (settable : Settable s message m f) (repeated : f.isRepeated = true) (c : Coercion)
    (element : ValueType) {list index : Local} (item : Value) (type : list.type = Signature.list)
    (type' : index.type = .int) :
    Fills s fuel message (Pointed list index item) [] (· = []) (.builder message) (.builder message)
      (if f.isExtension then Construction.addExtensionElement f c element list index
        else Construction.loadElement list index element.boxedKind >>= fun _ =>
          Construction.storeValue f c element)
      (fun id data => Filling.addElement (.ofSchema s) m f c element id data item) := by
  rcases settable.addressed.declared_or_refers with ⟨declared, own⟩ | ⟨extension, identifier, refers⟩
  · simp only [own, Bool.false_eq_true, if_false]
    exact addDeclared settable declared type type' c element item
  · simp only [extension, if_true]
    exact addExtension settable extension repeated refers type type' c element item

/-- The code of an argument for a repeated field stores the elements of its list. -/
theorem setRepeated (enough : Int32.maxValue.toInt.toNat < fuel) (proper : v.code.IsProper)
    (alone : v.code.inputs = [])
    (truthful : v.Truthful (.ofSchema s) fuel) (settable : Settable s message m f)
    (repeated : f.isRepeated = true) (c : Coercion) :
    Fills s fuel message setting [] (· = []) (.builder message) (.builder message)
      (Construction.setRepeated .immediate f c f.isExtension v)
      (fun id data => if v.type = .emptyList then pure data
        else Filling.unlessNull (.ofSchema s) fuel v (Filling.addList (.ofSchema s) m f c v) id data) := by
  unfold Construction.setRepeated
  by_cases none : v.type = .emptyList
  · simp only [if_pos none]
    exact nothing _
  · simp only [if_neg none]
    rw [ListResolver.immediate_eq, pure_bind, Construction.addAll_eq]
    refine unlessNull proper alone truthful ?_ (fun _ _ => id) (joins_builder message _)
    exact Stores.of_operand (Becomes.unboxTop (.ofSchema s) v.native Signature.list)
      (Stores.overList enough (fun list index item =>
        round settable repeated c (Construction.elementType v.type) item) _)

end Fills

end MessageCode
