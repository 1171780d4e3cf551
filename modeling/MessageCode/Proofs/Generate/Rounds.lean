import MessageCode.Proofs.Generate.AddAll
import MessageCode.Proofs.Generate.Coerced

/-!
Rounds over a list. Each of them takes the item at the index and hands what is stored of it to the builder,
so that the loop does for the items in order what one round does for one of them.
-/

namespace MessageCode

open Stateful

namespace Filling

/-- The stored form of an element, after what an extension needs first, where what is called for the first
field acts on the second. -/
def readElement (host : Host) (f g : Field) (c : Coercion) (type : ValueType) (item : Value) :
    Run Stored := do
  if f.isExtension then identify
  storedIn host f g c type (.boxed type.boxedKind) false (← element host type.boxedKind item)

def visit (host : Host) (m : Message) (f g : Field) (c : Coercion) (type : ValueType) (message : String)
    (id : ObjectId) (item : Value) : Run Unit :=
  readElement host f g c type item >>= deposit (m.store g) message id

/-- The values have changed the contents of the builder one after the other, and nothing else has been done
that could be seen but for objects made. -/
structure Gained (change : Stored → MessageData → MessageData) (message : String) (id : ObjectId)
    (m : Machine) (values : List Stored) (m' : Machine) : Prop where
  contents : m'.store.builderData id message =
    values.foldl (fun data a => change a data) (m.store.builderData id message)
  others : ∀ k, k ≠ id → m'.store.builders.get? k = m.store.builders.get? k
  lists : m'.store.lists = m.store.lists
  suspensions : m'.suspensions = m.suspensions

namespace Gained

variable {change : Stored → MessageData → MessageData} {message : String} {id : ObjectId} {m m' m'' : Machine}
  {values more : List Stored}

theorem none (m : Machine) (n : ObjectId) : Gained change message id m [] (m.numbered n) :=
  ⟨rfl, fun _ _ => rfl, rfl, rfl⟩

theorem trans (h : Gained change message id m values m') (h' : Gained change message id m' more m'') :
    Gained change message id m (values ++ more) m'' where
  contents := by rw [h'.contents, h.contents, List.foldl_append]
  others k other := (h'.others k other).trans (h.others k other)
  lists := h'.lists.trans h.lists
  suspensions := h'.suspensions.trans h.suspensions

theorem one (m : Machine) (n : ObjectId) (a : Stored) :
    Gained change message id m [a] { m.numbered n with
      store := (m.numbered n).store.setBuilder id (change a (m.store.builderData id message)) } where
  contents := congrArg (Option.getD · _) Cells.get?_set_self
  others _ other := Cells.get?_set_ne other
  lists := rfl
  suspensions := rfl

end Gained

theorem quiet_deposit {x : Run Stored} {P : Stored → Prop} {mayFault : Prop} (h : Quiet x P mayFault)
    (change : Stored → MessageData → MessageData) (message : String) (id : ObjectId) (machine : Machine) :
    (∃ a machine', (x >>= deposit change message id).run machine = (.ok (), machine') ∧ P a ∧
        Gained change message id machine [a] machine') ∨
      mayFault ∧ ∃ fault machine', (x >>= deposit change message id).run machine =
        (.error (.fault fault), machine') ∧ Gained change message id machine [] machine' := by
  rcases h machine with ⟨a, n, run, holds⟩ | ⟨may, fault, n, run⟩
  · refine .inl ⟨a, _, ?_, holds, .one machine n a⟩
    rw [run_bind_ok run, run_deposit]
    rfl
  · exact .inr ⟨may, fault, _, run_bind_error run _, .none machine n⟩

theorem identify_quiet {mayFault : Prop} : Quiet identify (fun _ => True) mayFault :=
  fun m => .inl ⟨(), m.store.nextId + 1, rfl, trivial⟩

/-- Whatever an item is, something is stored of it or it ends in a fault. -/
theorem readElement_keeps {s : Schema} {f : Field} {c : Coercion} (loaded : s.Loaded) (covers : c.Covers s f)
    (g : Field) (type : ValueType) (item : Value) :
    Quiet (readElement (.ofSchema s) f g c type item) (fun _ => True) True := by
  have taken : ∀ w, Quiet (Run.ofExcept (f.take g c w)) (fun _ => True) True :=
    fun _ => .ofExcept (fun _ _ => trivial) fun _ _ => trivial
  have wrapped : ∀ t w, Quiet (wrapFrom t w) (fun _ => True) True := by
    intro t w
    unfold wrapFrom
    split
    · split
      · exact (Quiet.alloc _).imp fun _ _ => trivial
      · exact .fault trivial
    · exact .pure trivial
  have read : Quiet (element (.ofSchema s) type.boxedKind item >>=
      storedIn (.ofSchema s) f g c type (.boxed type.boxedKind) false) (fun _ => True) True := by
    refine (element_resolves s type.boxedKind item).bind fun v _ => ?_
    refine (operand_keeps loaded covers type type.boxedKind v).bind fun w _ => ?_
    split
    · exact (wrapped _ w).bind fun x _ => taken x
    · exact taken w
  unfold readElement
  cases f.isExtension with
  | true => exact identify_quiet.bind fun _ _ => read
  | false => exact read

theorem visit_keeps_lists {s : Schema} {f g : Field} {c : Coercion} {type : ValueType} {m : Message}
    {message : String} {id : ObjectId} {item : Value} (loaded : s.Loaded) (covers : c.Covers s f)
    {machine machine' : Machine}
    (run : (visit (.ofSchema s) m f g c type message id item).run machine = (.ok (), machine')) :
    machine'.store.lists = machine.store.lists := by
  rcases quiet_deposit (readElement_keeps loaded covers g type item) (m.store g) message id machine with
    ⟨a, _, run', -, gained⟩ | ⟨-, fault, _, run', -⟩
  · cases run.symm.trans run'
    exact gained.lists
  · cases run.symm.trans run'

/-- Steps for items that each end with a value handed to the builder or with a fault: all values are handed
to it in order, or those up to the first fault, which ends the run. -/
theorem visits {change : Stored → MessageData → MessageData} {message : String} {id : ObjectId}
    {put : Value → Run Unit} {P : Value → Stored → Prop} {Q : Value → Fault → Prop} {items : List Value}
    (each : ∀ item ∈ items, ∀ machine,
      (∃ a machine', (put item).run machine = (.ok (), machine') ∧ P item a ∧
          Gained change message id machine [a] machine') ∨
        ∃ fault machine', (put item).run machine = (.error (.fault fault), machine') ∧
          Gained change message id machine [] machine' ∧ Q item fault) (machine : Machine) :
    (∃ values machine', (items.forM put).run machine = (.ok (), machine') ∧ List.Forall₂ P items values ∧
        Gained change message id machine values machine') ∨
      ∃ before bad after values fault machine', items = before ++ bad :: after ∧
        List.Forall₂ P before values ∧ Q bad fault ∧
        (items.forM put).run machine = (.error (.fault fault), machine') ∧
        Gained change message id machine values machine' := by
  induction items generalizing machine with
  | nil => exact .inl ⟨[], machine, rfl, .nil, .none machine machine.store.nextId⟩
  | cons item items ih =>
      have left := fun item mem => each item (List.mem_cons_of_mem _ mem)
      rcases each item List.mem_cons_self machine with
        ⟨a, next, run, known, gained⟩ | ⟨fault, last, run, gained, failed⟩
      · rcases ih left next with ⟨values, last, run', all, more⟩ |
          ⟨before, bad, after, values, fault, last, rfl, all, failed, run', more⟩
        · refine .inl ⟨a :: values, last, ?_, .cons known all, gained.trans more⟩
          exact (run_bind_ok run _).trans run'
        · refine .inr ⟨item :: before, bad, after, a :: values, fault, last, rfl, .cons known all, failed, ?_,
            gained.trans more⟩
          exact (run_bind_ok run _).trans run'
      · refine .inr ⟨[], item, items, [], fault, last, rfl, .nil, failed, ?_, gained⟩
        exact run_bind_error run _

end Filling

/-- Where the steps can be written with some values above the builder, they take all but the builder and
do what is said with the item at the index, and nothing else. -/
def Visits (s : Schema) (fuel : Nat) (message : String) (list index : Local) (under : List NativeType)
    (below : List Value → Prop) (t t' : NativeType) (steps : Assembler GenerateError Unit)
    (put : ObjectId → Value → Run Unit) : Prop :=
  ∀ a a', a.stack = under ++ [t] → steps.run a = (.ok (), a') →
    ∃ ops, Wrote a ops [t'] a' ∧ ∀ id item others locals machine, below others →
      Pointed list index item (fun _ => True) locals machine →
        (Op.execAll (.ofSchema s) fuel ops ⟨others ++ [.ref id (.builder message)], locals⟩).run machine =
          (put id item >>= fun _ => pure ⟨[.ref id (.builder message)], locals⟩).run machine

namespace Visits

variable {s : Schema} {fuel : Nat} {message : String} {list index : Local} {under : List NativeType}
  {below : List Value → Prop} {t t' t'' : NativeType} {steps more : Assembler GenerateError Unit}
  {put : ObjectId → Value → Run Unit} {m : Message} {f g : Field}

theorem pointed (type : list.type = Signature.list) (type' : index.type = .int)
    (h : Deposits s fuel message under below Signature.object t' steps put) :
    Visits s fuel message list index under below (.builder message) t'
      (Assembler.load list >>= fun _ => Assembler.load index >>= fun _ =>
        Assembler.invoke Signature.listGet >>= fun _ => steps) put := by
  intro a a' stack run
  rw [Assembler.run_loadItem type type'] at run
  obtain ⟨ops, wrote, exec⟩ := h _ a' (by rw [Assembly.put_stack, stack]) run
  refine ⟨_, (Wrote.put ..).trans wrote, ?_⟩
  intro id item others locals machine ready around
  rw [Op.execAll_append]
  refine (run_bind_ok (around.run_load fuel _) _).trans ?_
  rw [exec id item others locals ready]

theorem identifyFirst {identifier : StaticField} (refers : Refers s f g identifier)
    (h : Visits s fuel message list index [Signature.extension] (Identified s g) t t' more put) :
    Visits s fuel message list index [] (· = []) t t' (Assembler.getStatic identifier >>= fun _ => more)
      (fun id item => Filling.identify >>= fun _ => put id item) := by
  intro a a' stack run
  rw [run_bind_ok (refers.run_getStatic a)] at run
  have stack' : (a.put [.getStatic identifier] (Signature.extension :: a.stack)).stack =
      [Signature.extension] ++ [t] := congrArg _ stack
  obtain ⟨ops, wrote, exec⟩ := h _ a' stack' run
  refine ⟨[.getStatic identifier] ++ ops, (Wrote.put ..).trans wrote, ?_⟩
  rintro id item _ locals machine rfl around
  obtain ⟨owner, name, resolves, fetched⟩ := refers.exec_getStatic fuel [.ref id (.builder message)] locals
  have pushed : ((Op.getStatic identifier).exec (.ofSchema s) fuel
      ⟨[.ref id (.builder message)], locals⟩).run machine =
        (.ok ⟨[.ref machine.store.nextId (.extension owner name)] ++ [.ref id (.builder message)], locals⟩,
          machine.numbered (machine.store.nextId + 1)) := by
    rw [fetched]
    rfl
  have same : Pointed list index item (fun _ => True) locals
      (machine.numbered (machine.store.nextId + 1)) := around
  rw [List.nil_append, Op.execAll_append, Op.execAll_singleton, run_bind_ok pushed,
    exec id item _ locals _ ⟨_, owner, name, resolves, rfl⟩ same]
  rfl

theorem asExtendable (h : Visits s fuel message list index [] (· = []) (.builder message)
      (.ref .extendableBuilder) steps put) :
    Visits s fuel message list index [] (· = []) (.builder message) (.builder message)
      (Assembler.checkCast .extendableBuilder >>= fun _ => steps >>= fun _ =>
        Assembler.checkCast (.builder message)) put := by
  intro a a' stack run
  obtain ⟨b, d, opening, top, -, second, opens, closes⟩ := Assembler.asExtendable_eq_ok s stack run
  obtain ⟨ops, wrote, exec⟩ := h b d top second
  obtain ⟨closing, whole, -, ends⟩ := closes ops wrote
  refine ⟨opening ++ (ops ++ closing), whole, ?_⟩
  rintro id item _ locals machine rfl around
  have inner := exec id item [] locals machine rfl around
  rw [List.nil_append] at inner ⊢
  rw [Op.execAll_append, opens, pure_bind, Op.execAll_append, run_bind, inner, ← run_bind, bind_assoc]
  simp only [pure_bind, ends]

theorem round (addressed : Addressed s message m f g) (repeated : f.isRepeated = true) (c : Coercion)
    (element : ValueType) {list index : Local} (type : list.type = Signature.list)
    (type' : index.type = .int) :
    Visits s fuel message list index [] (· = []) (.builder message) (.builder message)
      (if f.isExtension then Construction.addExtensionElement f c element list index
        else Construction.loadElement list index element.boxedKind >>= fun _ =>
          Construction.storeValue f c element)
      (fun id item => Filling.visit (.ofSchema s) m f g c element message id item) := by
  rcases addressed.declared_or_refers with ⟨declared, own⟩ | ⟨extension, identifier, refers⟩
  · have deposits : Deposits s fuel message _ _ _ _ _ _ := Deposits.of_operand
      (Becomes.element s element.boxedKind)
      (Deposits.declared addressed declared c element (.boxed element.boxedKind) false)
    have visits := pointed type type' deposits
    unfold Construction.loadElement Filling.visit Filling.readElement
    simp only [bind_assoc, own, Bool.false_eq_true, if_false] at visits ⊢
    exact visits
  · have method : Filling.method f c = Signature.addExtension := by
      rw [Filling.method_extension extension, repeated]
      rfl
    have deposits : Deposits s fuel message _ _ _ _ _ _ := Deposits.of_operand
      (Becomes.element s element.boxedKind)
      (Deposits.extension addressed extension c element (.boxed element.boxedKind))
    rw [method] at deposits
    have visits := (identifyFirst refers (pointed type type' deposits)).asExtendable
    unfold Construction.addExtensionElement Construction.loadElement Filling.visit Filling.readElement
    rw [refers.ofExcept_eq, addressed.container]
    simp only [bind_assoc, extension, if_true, pure_bind] at visits ⊢
    exact visits

end Visits

theorem Counting.step {list size index : Local} {items : List Value} {done : Nat}
    {hidden : ObjectId → Prop} {locals : List Value} {m m' : Machine}
    (h : Counting list size index items done hidden locals m) (lists : m'.store.lists = m.store.lists)
    (apart : list.index ≠ index.index) (apart' : size.index ≠ index.index) :
    Counting list size index items (done + 1) hidden
      (locals.set index.index (.int (Int32.ofNat done + 1))) m' := by
  obtain ⟨listId, out, content, slot⟩ := h.list
  refine ⟨⟨listId, out, by rw [lists, content], ?_⟩, ?_, ?_⟩
  · rw [List.getElem?_set_ne apart.symm, slot]
  · rw [List.getElem?_set_ne apart'.symm, h.size]
  · have inside : index.index < locals.length := (List.getElem?_eq_some_iff.mp h.index).1
    rw [List.getElem?_set_self inside, Int32.ofNat_add]
    rfl

def Op.Round (host : Host) (fuel : Nat) (list index : Local) (message : String) (id : ObjectId)
    (body : List Op) (put : Value → Run Unit) : Prop :=
  ∀ item locals m, Pointed list index item (fun _ => True) locals m →
    (Op.execAll host fuel body ⟨[.ref id (.builder message)], locals⟩).run m =
      (put item >>= fun _ => pure ⟨[.ref id (.builder message)], locals⟩).run m

/-- The rounds of the loop do for the items that are left, in order, what the body does for the item at the
index. Only the index changes in the locals. -/
theorem Op.rounds_visit {host : Host} {fuel : Nat} {id : ObjectId} {message : String}
    {list size index : Local} {items : List Value} {body : List Op} {put : Value → Run Unit}
    (apart : list.index ≠ index.index) (apart' : size.index ≠ index.index)
    (round : Op.Round host fuel list index message id body put)
    (lists : ∀ item ∈ Filling.reached items, ∀ m m', (put item).run m = (.ok (), m') →
      m'.store.lists = m.store.lists)
    {rest : List Value} {done bound : Nat} {locals : List Value} {m : Machine}
    (left : (Filling.reached items).drop done = rest)
    (within : done ≤ (Filling.reached items).length) (enough : rest.length < bound)
    (counting : Counting list size index items done (fun _ => True) locals m) :
    (Op.rounds host fuel [.load index, .load size] .intLt (body ++ [.increment index 1]) bound
        ⟨[.ref id (.builder message)], locals⟩).run m =
      (rest.forM put >>= fun _ => pure ⟨[.ref id (.builder message)],
        locals.set index.index (.int (Int32.ofNat (done + rest.length)))⟩).run m := by
  induction rest generalizing done bound locals m with
  | nil =>
      obtain ⟨bound, rfl⟩ : ∃ n, bound = n + 1 := ⟨bound - 1, by omega⟩
      obtain ⟨inside, held⟩ := List.getElem?_eq_some_iff.mp counting.index
      have same : locals.set index.index (.int (Int32.ofNat done)) = locals := by
        rw [← held, List.set_getElem_self inside]
      rw [counting.rounds_nil within left, List.length_nil, Nat.add_zero, same]
      rfl
  | cons item rest ih =>
      obtain ⟨bound, rfl⟩ : ∃ n, bound = n + 1 := ⟨bound - 1, by omega⟩
      have left' : (Filling.reached items).drop (done + 1) = rest := by
        rw [← List.tail_drop, left]
        rfl
      have here := round item locals m (counting.pointed left)
      rw [counting.rounds_cons left, Op.execAll_append, bind_assoc]
      change _ = ((put item >>= fun _ => rest.forM put) >>= _).run m
      rw [bind_assoc, run_bind, here, ← run_bind, bind_assoc]
      rcases added : (put item).run m with ⟨e | ⟨⟩, m'⟩
      · rw [run_bind_error added, run_bind_error added]
      · have mem : item ∈ Filling.reached items := by
          apply List.mem_of_mem_drop
          rw [left]
          exact List.mem_cons_self
        have counting' := counting.step (lists item mem m m' added) apart apart'
        rw [run_bind_ok added, run_bind_ok added, pure_bind, Op.execAll_singleton, Op.exec_increment,
          counting.index, pure_bind, List.length_cons, Nat.add_comm rest.length 1, ← Nat.add_assoc]
        refine (ih left' (Counting.lt_of_left left) (by simpa using enough) counting').trans ?_
        rw [List.set_set]

def Op.released (k : Nat) (locals : List Value) : List Value :=
  ((locals.set k .null).set (k + 1) .null).set (k + 2) .null

/-- Whatever the locals of the loop held, they are null again. -/
theorem Op.released_counters (k : Nat) (listId : ObjectId) (items locals : List Value) (v : Value) :
    released k ((counters k listId items locals).set (k + 2) v) = released k locals := by
  unfold released counters
  apply List.ext_getElem?
  intro i
  by_cases first : i = k
  · simp [first, List.getElem?_set]
  · by_cases second : i = k + 1
    · simp [second, List.getElem?_set]
    · by_cases third : i = k + 2
      · simp [third, List.getElem?_set]
      · simp [Ne.symm first, Ne.symm second, Ne.symm third]

/-- Going over a list does for its items in order what the body does for the item at the index, and
releases the locals. -/
theorem Op.run_overList {s : Schema} {fuel k : Nat} {name message : String} {id listId : ObjectId}
    {items : List Value} {body : List Op} {put : Value → Run Unit}
    (round : Op.Round (.ofSchema s) fuel ⟨k, Signature.list⟩ ⟨k + 2, .int⟩ message id body put)
    (lists : ∀ item ∈ Filling.reached items, ∀ m m', (put item).run m = (.ok (), m') →
      m'.store.lists = m.store.lists)
    {locals : List Value} {m : Machine} (content : m.store.lists.get? listId = some items)
    (enough : (Filling.reached items).length < fuel) (slots : k + 3 ≤ locals.length) :
    ((Op.overList name k body).exec (.ofSchema s) fuel
        ⟨[.ref listId .list, .ref id (.builder message)], locals⟩).run m =
      ((Filling.reached items).forM put >>= fun _ =>
        pure ⟨[.ref id (.builder message)], released k locals⟩).run m := by
  have looped := Op.rounds_visit (by simp) (by simp) round lists List.drop_zero (Nat.zero_le _) enough
    (.start trivial content slots)
  unfold overList
  rw [exec]
  change (execAll (.ofSchema s) fuel ([.store ⟨k, Signature.list⟩, .load ⟨k, Signature.list⟩,
    .invoke Signature.listSize, .store ⟨k + 1, .int⟩, .push (.int 0), .store ⟨k + 2, .int⟩] ++
      [.loop _ _ _]) _ >>= _).run m = _
  rw [execAll_append, bind_assoc, run_bind_ok (run_counters content slots), execAll_singleton, exec_loop,
    run_bind, looped, ← run_bind, bind_assoc]
  refine congrArg (fun x : Run Frame => x.run m) (congrArg _ (funext fun _ => ?_))
  rw [pure_bind, Frame.run_release]
  · exact congrArg (fun locals => pure (Frame.mk _ locals)) (released_counters k listId items locals _)
  · simp [counters]
    omega

/-- The code that stores the elements of the list value on top: it unboxes the list, waits for it, and goes
over it. -/
theorem Construction.listSteps_eq_ok {s : Schema} (fuel : Nat) {message : String} {m : Message} {f g : Field}
    (addressed : Addressed s message m f g) (repeated : f.isRepeated = true) (c : Coercion) (type : ValueType)
    {a a' : Assembly} {t : NativeType} (stack : a.stack = [t, .builder message])
    (run : (unboxTop Signature.list >>= fun _ => Assembler.append ListResolver.wait >>= fun _ =>
      addAll f c f.isExtension type).run a = (.ok (), a')) :
    ∃ unbox body, Wrote a (unbox ++ [.suspend Signature.resolveAll] ++ [Op.overList f.name a.nextLocal body])
        [.builder message] a' ∧
      Acts (.ofSchema s) unbox (unboxFrom (.ofSchema s) t Signature.list) ∧ a.nextLocal + 3 ≤ a'.maxLocals ∧
      ∀ id, Op.Round (.ofSchema s) fuel ⟨a.nextLocal, Signature.list⟩ ⟨a.nextLocal + 2, .int⟩ message id body
        (Filling.visit (.ofSchema s) m f g c type message id) := by
  rw [Construction.addAll_eq] at run
  obtain ⟨⟨⟩, b, first, rest⟩ := bind_eq_ok.mp run
  obtain ⟨⟨⟩, d, second, third⟩ := bind_eq_ok.mp rest
  obtain ⟨unbox, wrote, acts⟩ := Becomes.unboxTop (.ofSchema s) t Signature.list a _ b stack first
  have waits := ListResolver.append_wait wrote.stack second
  obtain ⟨e, e', stack', inUse, body, room, slots, wrote'⟩ := Construction.overList_eq_ok waits.stack third
  have visits : Visits s fuel message ⟨d.nextLocal, Signature.list⟩ ⟨d.nextLocal + 2, .int⟩ [] (· = [])
      _ _ _ _ := .round addressed repeated c type rfl rfl
  obtain ⟨ops, inner, exec⟩ := visits e e' stack' body
  have same : d.nextLocal = a.nextLocal := waits.nextLocal.trans wrote.nextLocal
  rw [same] at slots exec
  have whole := (wrote.trans waits).trans (wrote' ops inner)
  rw [same] at whole
  exact ⟨unbox, ops, whole, acts, slots, fun id item locals machine around =>
    exec id item [] locals machine rfl around⟩

/-- The code above comes after the code of the value, behind a test where the value may be null. -/
theorem Construction.setRepeated_eq_ok {s : Schema} (fuel : Nat) {message : String} {m : Message}
    {f g : Field} (addressed : Addressed s message m f g) (repeated : f.isRepeated = true) (c : Coercion)
    {v : TypedValue}
    (listed : v.type ≠ .emptyList) {a a' : Assembly}
    (stack : a.stack = v.code.inputs.reverse ++ [.builder message])
    (run : (setRepeated .immediate f c f.isExtension v).run a = (.ok (), a')) :
    ∃ unbox body, Wrote a (Op.relocateAll a.nextLocal v.code.ops ++ Op.unlessNull (needsNullTest v)
        (unbox ++ [.suspend Signature.resolveAll] ++ [Op.overList f.name a.nextLocal body]))
        [.builder message] a' ∧
      Acts (.ofSchema s) unbox (unboxFrom (.ofSchema s) v.native Signature.list) ∧
      a.nextLocal + 3 ≤ a'.maxLocals ∧
      ∀ id, Op.Round (.ofSchema s) fuel ⟨a.nextLocal, Signature.list⟩ ⟨a.nextLocal + 2, .int⟩ message id body
        (Filling.visit (.ofSchema s) m f g c (elementType v.type) message id) := by
  unfold setRepeated at run
  rw [if_neg listed, ListResolver.immediate_eq, pure_bind] at run
  obtain ⟨b, b', top, same, steps, inner, written⟩ := unlessNull_eq_ok stack run
  obtain ⟨unbox, body, wrote, acts, slots, rounds⟩ :=
    listSteps_eq_ok fuel addressed repeated c (elementType v.type) top steps
  rw [same] at wrote slots rounds
  obtain ⟨wrote', -⟩ := written _ _ _ wrote (Fills.joins_builder message _)
  exact ⟨unbox, body, wrote', acts, slots.trans inner, rounds⟩

end MessageCode
