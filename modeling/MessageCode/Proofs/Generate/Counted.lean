import MessageCode.Proofs.Generate.Fills

/-!
Going over a list. The code keeps a list, its size and an index in locals of its own. A round is for the
item at the index, so that all rounds together are for the items in order.
-/

namespace MessageCode

open Stateful

namespace Native

variable {s : Schema} {id : ObjectId} {items : List Value} {machine : Machine}

theorem run_listGet (content : machine.store.lists.get? id = some items) {n : Int32} {item : Value}
    (found : listItem items n = .ok item) :
    (Signature.listGet.act (.ofSchema s) [.int n, .ref id .list]).run machine =
      (.ok item, machine) := by
  have held : machine.store.listItems id = items := by
    unfold Store.listItems
    rw [content]
    rfl
  have got : (callList ⟨Signature.listGet, some (.ref id .list), [.int n]⟩).run machine =
      (.ok (some item), machine) := by
    change ((ofExcept (listItem (machine.store.listItems id) n) >>= fun v =>
      pure (some v)) : Native _).run machine = _
    rw [held, found]
    rfl
  have called : ((Host.ofSchema s).call
      ⟨Signature.listGet, some (.ref id .list), [.int n]⟩).run machine = (.ok item, machine) :=
    run_bind_ok got _
  rw [Method.act_argument rfl rfl, Run.run_ofNative, called]
  rfl

theorem run_listSize (content : machine.store.lists.get? id = some items) :
    (Signature.listSize.act (.ofSchema s) [.ref id .list]).run machine =
      (.ok (.int (listSize items)), machine) := by
  have held : machine.store.listItems id = items := by
    unfold Store.listItems
    rw [content]
    rfl
  rw [Method.act_receiver rfl rfl, Run.run_ofNative, ← held]
  rfl

end Native

/-- The locals hold a hidden list and an index at which it has the item. -/
def Pointed (list index : Local) (item : Value) : Setting := fun hidden locals m =>
  ∃ id items n, hidden id ∧ m.store.lists.get? id = some items ∧
    Native.listItem items n = .ok item ∧ locals[list.index]? = some (.ref id .list) ∧
    locals[index.index]? = some (.int n)

theorem Pointed.lasts {list index : Local} {inUse : Nat} (item : Value) (used : list.index < inUse)
    (used' : index.index < inUse) : (Pointed list index item).Lasts inUse := by
  intro hidden id stack locals m frame data m' after pointed
  obtain ⟨listId, items, n, out, content, found, slot, slot'⟩ := pointed
  refine ⟨listId, items, n, out, ?_, found, ?_, ?_⟩
  · rw [after.lists listId out, content]
  · rw [after.slot _ used, slot]
  · rw [after.slot _ used', slot']

theorem Pointed.run_load {s : Schema} {list index : Local} {item : Value} {hidden : ObjectId → Prop}
    {locals : List Value} {m : Machine} (h : Pointed list index item hidden locals m) (fuel : Nat)
    (stack : List Value) :
    (Op.execAll (.ofSchema s) fuel [.load list, .load index, .invoke Signature.listGet]
      ⟨stack, locals⟩).run m = (.ok ⟨item :: stack, locals⟩, m) := by
  obtain ⟨listId, items, n, -, content, found, slot, slot'⟩ := h
  have exec : (Op.invoke Signature.listGet).exec (.ofSchema s) fuel
      ⟨[.int n, .ref listId .list] ++ stack, locals⟩ = _ := Method.exec_invoke rfl rfl fuel _ locals
  rw [Op.execAll_cons, Op.exec_load_of _ _ slot, pure_bind, Op.execAll_cons, Op.exec_load_of _ _ slot',
    pure_bind, Op.execAll_singleton]
  refine (congrArg (fun x : Run Frame => x.run m) exec).trans ?_
  exact run_bind_ok (Native.run_listGet content found) _

theorem Assembler.run_loadItem {list index : Local} (type : list.type = Signature.list)
    (type' : index.type = .int) (steps : Assembler GenerateError Unit) (a : Assembly) :
    (load list >>= fun _ => load index >>= fun _ => invoke Signature.listGet >>= fun _ => steps).run a =
      steps.run (a.put [.load list, .load index, .invoke Signature.listGet]
        (Signature.object :: a.stack)) := by
  have fits : Fits [index.type, list.type] Signature.listGet.operands := by
    rw [type, type']
    exact .cons rfl (.cons rfl .nil)
  rw [run_bind_ok (run_load ..), run_bind_ok (run_load ..), run_bind_ok (Method.run_invoke rfl rfl fits),
    Assembly.put_put, Assembly.put_put]
  rfl

namespace Native

variable {items : List Value} {item : Value} {done : Nat}

theorem length_reached (items : List Value) :
    (Filling.reached items).length = min Int32.maxValue.toInt.toNat items.length := List.length_take

/-- The index stays below the size as long as there are items left. -/
theorem lt_listSize_iff (bound : done ≤ (Filling.reached items).length) :
    Int32.ofNat done < listSize items ↔ done < (Filling.reached items).length := by
  rw [length_reached] at bound ⊢
  have most := Int32.toInt_maxValue
  have size : (listSize items).toInt = min (items.length : Int) Int32.maxValue.toInt :=
    Int32.toInt_ofInt_of_le (by omega) (by omega)
  rw [Int32.lt_iff_toInt_lt, size, Int32.toInt_ofNat_of_lt (by omega)]
  omega

/-- The item at the index is the first that is left. -/
theorem listItem_of_drop {rest : List Value} (left : (Filling.reached items).drop done = item :: rest) :
    listItem items (Int32.ofNat done) = .ok item := by
  have found : (Filling.reached items)[done]? = some item := by
    rw [← List.head?_drop, left]
    rfl
  have bound : done < Int32.maxValue.toInt.toNat := by
    have inside := (List.getElem?_eq_some_iff.mp found).1
    rw [length_reached] at inside
    omega
  have most := Int32.toInt_maxValue
  have index : (Int32.ofNat done).toInt = done := Int32.toInt_ofNat_of_lt (by omega)
  have positive : ¬Int32.ofNat done < 0 := by
    rw [Int32.lt_iff_toInt_lt, index, Int32.toInt_zero]
    omega
  rw [Filling.reached, List.getElem?_take_of_lt bound] at found
  unfold listItem
  rw [if_neg positive, index, Int.toNat_natCast, found]

end Native

theorem Filled.set {hidden : ObjectId → Prop} {id : ObjectId} {inUse i : Nat}
    {stack locals locals' : List Value} {m m' : Machine} {data : MessageData}
    (h : Filled hidden id inUse stack locals m ⟨stack, locals'⟩ data m') (free : inUse ≤ i) (v : Value) :
    Filled hidden id inUse stack locals m ⟨stack, locals'.set i v⟩ data m' where
  stack := rfl
  length := List.length_set.trans h.length
  slot k used := by
    rw [List.getElem?_set_ne (by omega)]
    exact h.slot k used
  grows := h.grows
  lists := h.lists
  keeps := h.keeps

/-- The locals hold a hidden list, its size, and how many of its items are done. -/
structure Counting (list size index : Local) (items : List Value) (done : Nat)
    (hidden : ObjectId → Prop) (locals : List Value) (m : Machine) : Prop where
  list : ∃ id, hidden id ∧ m.store.lists.get? id = some items ∧
    locals[list.index]? = some (.ref id .list)
  size : locals[size.index]? = some (.int (Native.listSize items))
  index : locals[index.index]? = some (.int (Int32.ofNat done))

namespace Counting

variable {list size index : Local} {items rest : List Value} {item : Value} {done inUse : Nat}
  {hidden : ObjectId → Prop} {locals : List Value} {m m' : Machine}

theorem pointed (h : Counting list size index items done hidden locals m)
    (left : (Filling.reached items).drop done = item :: rest) :
    Pointed list index item hidden locals m := by
  obtain ⟨id, out, content, slot⟩ := h.list
  exact ⟨id, items, _, out, content, Native.listItem_of_drop left, slot, h.index⟩

theorem condition (h : Counting list size index items done hidden locals m) (host : Host) (fuel : Nat)
    (stack : List Value) :
    Op.execAll host fuel [.load index, .load size] ⟨stack, locals⟩ =
      pure ⟨[.int (Native.listSize items), .int (Int32.ofNat done)] ++ stack, locals⟩ := by
  rw [Op.execAll_cons, Op.exec_load_of _ _ h.index, pure_bind, Op.execAll_singleton,
    Op.exec_load_of _ _ h.size]
  rfl

/-- A round starts with the test whether items are left. -/
theorem rounds_succ (h : Counting list size index items done hidden locals m)
    (within : done ≤ (Filling.reached items).length) (host : Host) (fuel bound : Nat) (body : List Op)
    (stack : List Value) :
    Op.rounds host fuel [.load index, .load size] .intLt body (bound + 1) ⟨stack, locals⟩ =
      if done < (Filling.reached items).length then
        Op.execAll host fuel body ⟨stack, locals⟩ >>=
          Op.rounds host fuel [.load index, .load size] .intLt body bound
      else pure ⟨stack, locals⟩ := by
  have test : Test.intLt.holds [.int (Native.listSize items), .int (Int32.ofNat done)] =
      .ok (decide (done < (Filling.reached items).length)) := by
    rw [← decide_eq_decide.mpr (Native.lt_listSize_iff within)]
    rfl
  rw [Op.rounds, h.condition host fuel, pure_bind, Op.choose_append rfl, test]
  by_cases unfinished : done < (Filling.reached items).length
  · rw [decide_eq_true unfinished, if_pos unfinished]
    rfl
  · rw [decide_eq_false unfinished, if_neg unfinished]
    rfl

theorem rounds_nil (h : Counting list size index items done hidden locals m)
    (within : done ≤ (Filling.reached items).length) (left : (Filling.reached items).drop done = [])
    (host : Host) (fuel bound : Nat) (body : List Op) (stack : List Value) :
    Op.rounds host fuel [.load index, .load size] .intLt body (bound + 1) ⟨stack, locals⟩ =
      pure ⟨stack, locals⟩ := by
  rw [h.rounds_succ within, if_neg (Nat.not_lt.mpr (List.drop_eq_nil_iff.mp left))]

theorem lt_of_left {rest : List Value} (left : (Filling.reached items).drop done = item :: rest) :
    done < (Filling.reached items).length := by
  by_contra finished
  rw [List.drop_eq_nil_of_le (Nat.not_lt.mp finished)] at left
  cases left

theorem rounds_cons (h : Counting list size index items done hidden locals m)
    (left : (Filling.reached items).drop done = item :: rest) (host : Host) (fuel bound : Nat)
    (body : List Op) (stack : List Value) :
    Op.rounds host fuel [.load index, .load size] .intLt body (bound + 1) ⟨stack, locals⟩ =
      Op.execAll host fuel body ⟨stack, locals⟩ >>=
        Op.rounds host fuel [.load index, .load size] .intLt body bound := by
  have unfinished := lt_of_left left
  rw [h.rounds_succ unfinished.le, if_pos unfinished]

theorem next {id : ObjectId} {stack locals' : List Value} {data : MessageData}
    (h : Counting list size index items done hidden locals m)
    (after : Filled hidden id inUse stack locals m ⟨stack, locals'⟩ data m')
    (used : list.index < inUse) (used' : size.index < inUse) (used'' : index.index < inUse)
    (apart : list.index ≠ index.index) (apart' : size.index ≠ index.index) :
    Counting list size index items (done + 1) hidden
      (locals'.set index.index (.int (Int32.ofNat done + 1))) m' := by
  obtain ⟨listId, out, content, slot⟩ := h.list
  refine ⟨⟨listId, out, ?_, ?_⟩, ?_, ?_⟩
  · rw [after.lists listId out, content]
  · rw [List.getElem?_set_ne apart.symm, after.slot _ used, slot]
  · rw [List.getElem?_set_ne apart'.symm, after.slot _ used', h.size]
  · have inside : index.index < locals'.length := by
      have slot := after.slot _ used''
      rw [h.index] at slot
      exact (List.getElem?_eq_some_iff.mp slot).1
    rw [List.getElem?_set_self inside, Int32.ofNat_add]
    rfl

end Counting

/-- The rounds of the loop add the items that are left, where the body adds the one at the index. -/
theorem Op.rounds_counted {host : Host} {fuel base inUse room : Nat} {hidden : ObjectId → Prop}
    {id : ObjectId} {message : String} {list size index : Local} {items : List Value} {body : List Op}
    {add : MessageData → Value → Run MessageData} (used : list.index < inUse)
    (used' : size.index < inUse) (used'' : index.index < inUse) (free : base ≤ index.index)
    (apart : list.index ≠ index.index) (apart' : size.index ≠ index.index)
    (round : ∀ item data locals m, Pointed list index item hidden locals m → room ≤ locals.length →
      m.Keeps hidden id data →
      Alike (Op.execAll host fuel body ⟨[.ref id (.builder message)], locals⟩) (add data item) m
        (Filled hidden id inUse [.ref id (.builder message)] locals m))
    {rest : List Value} {done bound : Nat} {data : MessageData} {locals : List Value} {m : Machine}
    (left : (Filling.reached items).drop done = rest)
    (within : done ≤ (Filling.reached items).length) (enough : rest.length < bound)
    (counting : Counting list size index items done hidden locals m) (fits : room ≤ locals.length)
    (keeps : m.Keeps hidden id data) :
    Alike (Op.rounds host fuel [.load index, .load size] .intLt (body ++ [.increment index 1]) bound
        ⟨[.ref id (.builder message)], locals⟩) (rest.foldlM add data) m
      (Filled hidden id base [.ref id (.builder message)] locals m) := by
  induction rest generalizing done bound data locals m with
  | nil =>
      obtain ⟨bound, rfl⟩ : ∃ n, bound = n + 1 := ⟨bound - 1, by omega⟩
      rw [counting.rounds_nil within left]
      exact .pure (Filled.here keeps base _ locals)
  | cons item rest ih =>
      obtain ⟨bound, rfl⟩ : ∃ n, bound = n + 1 := ⟨bound - 1, by omega⟩
      have left' : (Filling.reached items).drop (done + 1) = rest := by
        rw [← List.tail_drop, left]
        rfl
      rw [counting.rounds_cons left, Op.execAll_append, bind_assoc]
      apply (round item data locals m (counting.pointed left) fits keeps).bind
      intro frame data' m' after
      obtain ⟨stack', locals'⟩ := frame
      cases after.stack
      have index' : locals'[index.index]? = some (.int (Int32.ofNat done)) := by
        rw [after.slot _ used'', counting.index]
      rw [Op.execAll_singleton, Op.exec_increment, index', pure_bind]
      have after' := (after.mono (free.trans used''.le)).set free (.int (Int32.ofNat done + 1))
      have fits' : room ≤ (locals'.set index.index (.int (Int32.ofNat done + 1))).length :=
        fits.trans after'.length.ge
      have counting' := counting.next after used used' used'' apart apart'
      apply (ih left' (Counting.lt_of_left left) (by simpa using enough) counting' fits' after.keeps).imp
      intro frame data'' m'' later
      exact after'.trans later

/-- Goes over the list on top with an index, round by round. -/
def Construction.overList (name : String) (round : Local → Local → Assembler GenerateError Unit) :
    Assembler GenerateError Unit :=
  Assembler.scope do
    let list ← Assembler.declareLocal (name ++ "__list") Signature.list
    Assembler.store list
    let size ← Assembler.declareLocal (name ++ "__size") .int
    Assembler.load list
    Assembler.invoke Signature.listSize
    Assembler.store size
    let index ← Assembler.declareLocal (name ++ "__index") .int
    Assembler.pushConst (.int 0)
    Assembler.store index
    Assembler.whileLoop
      (do
        Assembler.load index
        Assembler.load size)
      .intLt
      (do
        round list index
        Assembler.increment index 1)

theorem Construction.addAll_eq (f : Field) (c : Coercion) (extension : Bool) (type : ValueType) :
    addAll f c extension type = overList f.name fun list index =>
      if extension then addExtensionElement f c type list index
      else loadElement list index type.boxedKind >>= fun _ => storeValue f c type := by
  cases extension with
  | true => rfl
  | false =>
      unfold addAll overList
      simp only [Bool.false_eq_true, if_false, bind_assoc]

def Op.overList (name : String) (k : Nat) (body : List Op) : Op :=
  let list : Local := ⟨k, Signature.list⟩
  let size : Local := ⟨k + 1, .int⟩
  let index : Local := ⟨k + 2, .int⟩
  .scope [⟨name ++ "__list", list⟩, ⟨name ++ "__size", size⟩, ⟨name ++ "__index", index⟩]
    [.store list, .load list, .invoke Signature.listSize, .store size, .push (.int 0), .store index,
      .loop [.load index, .load size] .intLt (body ++ [.increment index 1])]

namespace Assembler

theorem run_declareLocal (name : String) (type : NativeType) (a : Assembly) :
    (declareLocal name type : Assembler GenerateError Local).run a =
      (.ok ⟨a.nextLocal, type⟩, a.declare ⟨name, ⟨a.nextLocal, type⟩⟩) := rfl

theorem run_store {l : Local} {a : Assembly} (rest : List NativeType) (stack : a.stack = l.type :: rest) :
    (store l : Assembler GenerateError Unit).run a = (.ok (), a.put [.store l] rest) :=
  store_eq_ok.mpr ⟨l.type, rest, stack, l.type.assignableTo_refl, rfl⟩

end Assembler

/-- What the code that goes over a list comes to. -/
theorem Construction.overList_eq_ok {name : String} {round : Local → Local → Assembler GenerateError Unit}
    {a a' : Assembly} {rest : List NativeType} (stack : a.stack = Signature.list :: rest)
    (run : (overList name round).run a = (.ok (), a')) :
    ∃ b b', b.stack = rest ∧ b.nextLocal = a.nextLocal + 3 ∧
      (round ⟨a.nextLocal, Signature.list⟩ ⟨a.nextLocal + 2, .int⟩).run b = (.ok (), b') ∧
      b'.maxLocals ≤ a'.maxLocals ∧ a.nextLocal + 3 ≤ a'.maxLocals ∧
      ∀ ops, Wrote b ops rest b' → Wrote a [Op.overList name a.nextLocal ops] rest a' := by
  obtain ⟨written, inner, rfl⟩ := Assembler.scope_eq_ok.mp run
  have fits : Fits [Signature.list] Signature.listSize.operands := .cons rfl .nil
  have sized : ∀ b : Assembly, b.stack = Signature.list :: rest →
      (Assembler.invoke Signature.listSize : Assembler GenerateError Unit).run b =
        (.ok (), b.put [.invoke Signature.listSize] (.int :: rest)) := by
    intro b top
    exact Method.run_invoke rfl top fits
  rw [run_bind_ok (Assembler.run_declareLocal ..),
    run_bind_ok (Assembler.run_store rest stack), run_bind_ok (Assembler.run_declareLocal ..),
    run_bind_ok (Assembler.run_load ..),
    run_bind_ok (sized _ rfl),
    run_bind_ok (Assembler.run_store rest rfl), run_bind_ok (Assembler.run_declareLocal ..),
    run_bind_ok (Assembler.run_pushConst ..), run_bind_ok (Assembler.run_store rest rfl)] at inner
  obtain ⟨b, found, b', condition, stack', fits, body, unchanged, rfl⟩ :=
    Assembler.whileLoop_eq_ok.mp inner
  rw [run_bind_ok (Assembler.run_load ..), Assembler.run_load] at condition
  cases condition
  obtain ⟨⟨⟩, c, rounds, counted⟩ := bind_eq_ok.mp body
  cases counted
  refine ⟨_, c, rfl, ?_, rounds, ?_, ?_, ?_⟩
  · simp [Assembly.adopt, Assembly.fork, Assembly.declare, Assembly.put]
  · simp [Assembly.adopt, Assembly.fork, Assembly.declare, Assembly.put, Assembly.emit]
  · simp [Assembly.adopt, Assembly.fork, Assembly.declare, Assembly.put, Assembly.emit]
  · intro ops wrote
    have own := wrote.ops
    have declared := wrote.declared
    refine ⟨?_, rfl, rfl, rfl, rfl, ?_⟩
    · simp [Assembly.adopt, Assembly.fork, Assembly.declare, Assembly.put, Assembly.emit, own, declared,
        Op.overList]
    · exact le_max_left ..

theorem Frame.run_release {ds : List Declaration} {stack locals : List Value}
    (inside : ∀ d ∈ ds, d.slot.index < locals.length) :
    (Frame.mk stack locals).release ds =
      .ok ⟨stack, ds.foldl (fun locals d => locals.set d.slot.index .null) locals⟩ := by
  induction ds generalizing locals with
  | nil => rfl
  | cons d ds ih =>
      have first := inside d List.mem_cons_self
      unfold release
      rw [List.foldlM_cons, Frame.setLocal, if_pos first]
      apply ih
      intro e mem
      rw [List.length_set]
      exact inside e (List.mem_cons_of_mem _ mem)

def Op.counters (k : Nat) (listId : ObjectId) (items locals : List Value) : List Value :=
  ((locals.set k (.ref listId .list)).set (k + 1) (.int (Native.listSize items))).set (k + 2) (.int 0)

theorem Op.run_counters {s : Schema} {fuel k : Nat} {listId : ObjectId} {items stack locals : List Value}
    {m : Machine} (content : m.store.lists.get? listId = some items) (slots : k + 3 ≤ locals.length) :
    (execAll (.ofSchema s) fuel [.store ⟨k, Signature.list⟩, .load ⟨k, Signature.list⟩,
      .invoke Signature.listSize, .store ⟨k + 1, .int⟩, .push (.int 0), .store ⟨k + 2, .int⟩]
      ⟨.ref listId .list :: stack, locals⟩).run m =
        (.ok ⟨stack, counters k listId items locals⟩, m) := by
  let stored := locals.set k (.ref listId .list)
  have loaded : stored[k]? = some (.ref listId .list) := List.getElem?_set_self (by omega)
  have inside : k + 1 < stored.length := by
    rw [List.length_set]
    omega
  have inside' : k + 2 < (stored.set (k + 1) (.int (Native.listSize items))).length := by
    rw [List.length_set, List.length_set]
    omega
  have sized : ((invoke Signature.listSize).exec (.ofSchema s) fuel
      ⟨[.ref listId .list] ++ stack, stored⟩).run m =
        (.ok ⟨.int (Native.listSize items) :: stack, stored⟩, m) := by
    rw [Method.exec_invoke rfl rfl fuel stack stored]
    exact run_bind_ok (Native.run_listSize content) _
  have first : k < locals.length := by omega
  rw [execAll_cons, exec_store, if_pos first, pure_bind, execAll_cons, exec_load_of _ _ loaded, pure_bind,
    execAll_cons]
  refine (run_bind_ok sized _).trans ?_
  rw [execAll_cons, exec_store, if_pos inside, pure_bind, execAll_cons, exec_push, bind_assoc]
  change (execAll (.ofSchema s) fuel [.store ⟨k + 2, .int⟩] _ : Run Frame).run m = _
  rw [execAll_singleton, exec_store, if_pos inside']
  rfl

theorem Counting.start {hidden : ObjectId → Prop} {k : Nat} {listId : ObjectId}
    {items locals : List Value} {m : Machine} (out : hidden listId)
    (content : m.store.lists.get? listId = some items) (slots : k + 3 ≤ locals.length) :
    Counting ⟨k, Signature.list⟩ ⟨k + 1, .int⟩ ⟨k + 2, .int⟩ items 0 hidden
      (Op.counters k listId items locals) m := by
  refine ⟨⟨listId, out, content, ?_⟩, ?_, ?_⟩
  · rw [Op.counters, List.getElem?_set_ne (by simp), List.getElem?_set_ne (by simp),
      List.getElem?_set_self (show k < locals.length by omega)]
  · rw [Op.counters, List.getElem?_set_ne (by simp), List.getElem?_set_self (by simp; omega)]
  · rw [Op.counters, List.getElem?_set_self (by simp; omega)]
    rfl

theorem Op.exec_overList {s : Schema} {fuel room k : Nat} {name message : String}
    {hidden : ObjectId → Prop} {id listId : ObjectId} {items : List Value} {body : List Op}
    {add : MessageData → Value → Run MessageData} (enough : Int32.maxValue.toInt.toNat < fuel)
    (round : ∀ item data locals m, Pointed ⟨k, Signature.list⟩ ⟨k + 2, .int⟩ item hidden locals m →
      room ≤ locals.length → m.Keeps hidden id data →
      Alike (Op.execAll (.ofSchema s) fuel body ⟨[.ref id (.builder message)], locals⟩) (add data item) m
        (Filled hidden id (k + 3) [.ref id (.builder message)] locals m))
    {data : MessageData} {locals : List Value} {m : Machine} (out : hidden listId)
    (content : m.store.lists.get? listId = some items) (slots : k + 3 ≤ locals.length)
    (fits : room ≤ locals.length) (keeps : m.Keeps hidden id data) :
    Alike ((Op.overList name k body).exec (.ofSchema s) fuel
        ⟨[.ref listId .list, .ref id (.builder message)], locals⟩)
      ((Filling.reached items).foldlM add data) m
      (Filled hidden id k [.ref id (.builder message)] locals m) := by
  have before : Filled hidden id k [.ref id (.builder message)] locals m
      ⟨[.ref id (.builder message)], counters k listId items locals⟩ data m :=
    (((Filled.here keeps k _ locals).set le_rfl _).set (Nat.le_succ k) _).set (Nat.le_add_right k 2) _
  have length : (counters k listId items locals).length = locals.length := before.length
  have shorter : (Filling.reached items).length < fuel := by
    rw [Native.length_reached]
    omega
  have looped : Alike (Op.rounds (.ofSchema s) fuel _ _ _ fuel ⟨_, counters k listId items locals⟩) _ m
      (Filled hidden id k _ _ m) :=
    Op.rounds_counted (by simp) (by simp) (by simp) (by simp) (by simp) (by simp) round
      List.drop_zero (Nat.zero_le _) shorter (.start out content slots) (fits.trans length.ge) keeps
  unfold overList
  rw [exec, ← bind_pure ((Filling.reached items).foldlM add data)]
  apply Alike.bind
  · change Alike (execAll (.ofSchema s) fuel ([.store ⟨k, Signature.list⟩, .load ⟨k, Signature.list⟩,
      .invoke Signature.listSize, .store ⟨k + 1, .int⟩, .push (.int 0), .store ⟨k + 2, .int⟩] ++
        [.loop _ _ _]) _) _ _ _
    rw [execAll_append]
    apply Alike.ahead (run_counters content slots)
    rw [execAll_singleton, exec_loop]
    exact looped
  · intro frame data' m' after
    have after := before.trans after
    obtain ⟨stack', locals'⟩ := frame
    cases after.stack
    have slots' : k + 3 ≤ locals'.length := slots.trans after.length.ge
    rw [Frame.run_release]
    · apply Alike.pure
      exact ((after.set le_rfl _).set (Nat.le_succ k) _).set (Nat.le_add_right k 2) _
    · simp
      omega

end MessageCode
