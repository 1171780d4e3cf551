import MessageCode.Proofs.Generate.Construct
import MessageCode.Proofs.Generate.Rounds
import MessageCode.Proofs.Machine.Identifiers
import MessageCode.Proofs.Schema.Names

/-!
Handing arguments to a builder. The code for a message goes through the arguments, and behind the code of
each value there is code that hands the value to the builder, whatever it turns out to be and whatever
field its operations lead to.
-/

namespace MessageCode

open Stateful

theorem Schema.Loaded.exists_addressed {s : Schema} (loaded : s.Loaded) {message : String} {m : Message}
    (found : s.message? message = some m) {f : Field} (mem : f ∈ s.fieldsOf message) :
    ∃ g, Addressed s message m f g := by
  have container := loaded.container found mem
  rcases (Schema.Loaded.mem_fieldsOf found).mp mem with own | ⟨shared, -⟩
  · have declared := (loaded.message m (Schema.Loaded.mem_messages found)).declared f own
    rcases first : m.fields.find? (fun g => Naming.setter g = Naming.setter f) with _ | g
    · simpa using List.find?_eq_none.mp first f own
    · have same : Naming.setter g = Naming.setter f := by simpa using List.find?_some first
      refine ⟨g, found, container, ?_, fun _ => (Naming.setter_eq_iff.mp same).1, ?_⟩
      · unfold Field.Addresses Message.builderMethod?
        rw [declared, if_neg (Naming.setter_ne_build f), first]
        rfl
      · intro extension
        cases (Field.isExtension_of_declared declared).symm.trans extension
  · obtain ⟨scope, declared⟩ := Option.isSome_iff_exists.mp (loaded.scope f shared)
    obtain ⟨g, mem', finds, shares⟩ := Schema.exists_extensionById? shared declared
    refine ⟨g, found, container, ?_, ?_, fun _ => loaded.alone g mem'⟩
    · unfold Field.Addresses
      rw [declared]
      exact finds
    · intro same
      have within := (Schema.Loaded.mem_fieldsOf found).mpr (.inr ⟨mem', same⟩)
      cases (loaded.apart_fieldsOf found).eq_of_name within mem shares.1
      rfl

namespace Filling

/-- The argument is left out, and its code is not written. -/
def Skips (f : Field) (v : TypedValue) : Prop := v.type = .null ∨ f.isRepeated ∧ v.type = .emptyList

/-- The value of an argument is handed to the builder, a list item by item after it is waited for. Null is
left out where it is tested for. -/
def hand (host : Host) (m : Message) (f g : Field) (c : Coercion) (v : TypedValue) (message : String)
    (id : ObjectId) (w : Value) : Run Unit :=
  if Construction.needsNullTest v && w.isNull then pure ()
  else if f.isRepeated then
    unboxFrom host v.native Signature.list w >>= waitFor >>= fun items =>
      (reached items).forM (visit host m f g c (Construction.elementType v.type) message id)
  else
    storedIn host f g c v.type v.native (Construction.needsNullTest v) w >>= deposit (m.store g) message id

end Filling

/-- Where the steps can be written with a value above the builder, they take the value, do with it what is
said, and leave the builder. -/
def Consumes (s : Schema) (fuel : Nat) (message : String) (t t' : NativeType)
    (steps : Assembler GenerateError Unit) (put : ObjectId → Value → Run Unit) : Prop :=
  ∀ a a', a.stack = [t, .builder message] → steps.run a = (.ok (), a') →
    ∃ code, Wrote a code [t'] a' ∧ ∀ id w locals machine, a'.maxLocals ≤ locals.length → ∃ after,
      (Op.execAll (.ofSchema s) fuel code ⟨[w, .ref id (.builder message)], locals⟩).run machine =
        (put id w >>= fun _ => pure ⟨[.ref id (.builder message)], after⟩).run machine

/-- The first code prepares the stack for a value, and the second does with the value what is said. They
leave the builder. -/
def Delivers (s : Schema) (fuel : Nat) (message : String) (room : Nat) (front back : List Op)
    (put : ObjectId → Value → Run Unit) : Prop :=
  ∀ id before start, ∃ stack started,
    (Op.execAll (.ofSchema s) fuel front ⟨[.ref id (.builder message)], before⟩).run start =
      (.ok ⟨stack, before⟩, started) ∧
    ∀ w locals machine, room ≤ locals.length → ∃ after,
      (Op.execAll (.ofSchema s) fuel back ⟨w :: stack, locals⟩).run machine =
        (put id w >>= fun _ => pure ⟨[.ref id (.builder message)], after⟩).run machine

/-- Where the steps can be written with the builder on top, they write such code before and behind the code
of the value. -/
def Hands (s : Schema) (fuel : Nat) (message : String) (v : TypedValue) (t' : NativeType)
    (steps : Assembler GenerateError Unit) (put : ObjectId → Value → Run Unit) : Prop :=
  ∀ a a', a.stack = [.builder message] → steps.run a = (.ok (), a') →
    ∃ front back, Wrote a (front ++ Op.relocateAll a.nextLocal v.code.ops ++ back) [t'] a' ∧
      Delivers s fuel message a'.maxLocals front back put

section

variable {s : Schema} {fuel : Nat} {message : String} {t t' u : NativeType} {v : TypedValue}
  {steps : Assembler GenerateError Unit} {put : ObjectId → Value → Run Unit} {m : Message} {f g : Field}

theorem Delivers.mono {room room' : Nat} {front back : List Op}
    (h : Delivers s fuel message room front back put) (le : room ≤ room') :
    Delivers s fuel message room' front back put := by
  intro id before start
  obtain ⟨stack, started, prepared, exec⟩ := h id before start
  exact ⟨stack, started, prepared, fun w locals machine enough => exec w locals machine (le.trans enough)⟩

theorem Deposits.consumes (h : Deposits s fuel message [] (· = []) t t' steps put) :
    Consumes s fuel message t t' steps put := by
  intro a a' stack run
  obtain ⟨code, wrote, exec⟩ := h a a' stack run
  refine ⟨code, wrote, fun id w locals machine _ => ⟨locals, ?_⟩⟩
  exact congrArg (fun x : Run Frame => x.run machine) (exec id w [] locals rfl)

theorem Consumes.listSteps (enough : Int32.maxValue.toInt.toNat < fuel) (loaded : s.Loaded)
    (addressed : Addressed s message m f g) (repeated : f.isRepeated = true) {c : Coercion}
    (covers : c.Covers s f) (type : ValueType) (t : NativeType) :
    Consumes s fuel message t (.builder message)
      (unboxTop Signature.list >>= fun _ => Assembler.append ListResolver.wait >>= fun _ =>
        Construction.addAll f c f.isExtension type)
      (fun id w => unboxFrom (.ofSchema s) t Signature.list w >>= Filling.waitFor >>= fun items =>
        (Filling.reached items).forM (Filling.visit (.ofSchema s) m f g c type message id)) := by
  intro a a' stack run
  obtain ⟨unbox, body, wrote, acts, slots, rounds⟩ :=
    Construction.listSteps_eq_ok fuel addressed repeated c type stack run
  refine ⟨_, wrote, fun id w locals machine room => ⟨Op.released a.nextLocal locals, ?_⟩⟩
  rw [Op.execAll_append, Op.execAll_append, acts.exec, bind_assoc, bind_assoc, bind_assoc, bind_assoc]
  rcases unboxed : (unboxFrom (.ofSchema s) t Signature.list w).run machine with ⟨e | list, machine'⟩
  · rw [run_bind_error unboxed, run_bind_error unboxed]
  rw [run_bind_ok unboxed, run_bind_ok unboxed, pure_bind, Op.execAll_singleton, run_bind, Op.run_wait]
  have waited := Filling.run_wait list machine'
  cases given : Call.listArg ⟨Signature.resolveAll, none, [list]⟩ 0 with
  | error e =>
      rw [given] at waited
      rw [run_bind_error waited, run_bind_error waited]
  | ok listId =>
      rw [given] at waited
      rw [run_bind_ok waited, run_bind_ok waited]
      have held : (machine'.waited ((machine'.store.listItems listId).map Native.resolved)).store.lists.get?
          machine'.store.nextId = some _ := Cells.get?_set_self
      have short : (Filling.reached ((machine'.store.listItems listId).map Native.resolved)).length < fuel :=
        (List.length_take_le _ _).trans_lt enough
      rw [← Op.run_overList (rounds id) (fun _ _ _ _ => Filling.visit_keeps_lists loaded covers) held short
        (slots.trans room), ← Op.execAll_singleton]
      rfl

namespace Hands

theorem unlessNull (alone : v.code.inputs = []) (h : Consumes s fuel message v.native u steps put)
    (joins : if Construction.needsNullTest v then
        Assembler.mergeSlots ([] ++ [.builder message]) [u] = some [t']
      else [u] = [t']) :
    Hands s fuel message v t' (Construction.unlessNull v steps)
      (fun id w => if Construction.needsNullTest v && w.isNull then pure () else put id w) := by
  intro a a' stack run
  have stack' : a.stack = v.code.inputs.reverse ++ [.builder message] := by
    rw [alone]
    exact stack
  obtain ⟨b, b', top, same, taken, inner, written⟩ := Construction.unlessNull_eq_ok stack' run
  obtain ⟨code, wrote, exec⟩ := h b b' top taken
  obtain ⟨wrote', -⟩ := written code [u] [t'] wrote joins
  refine ⟨[], Op.unlessNull (Construction.needsNullTest v) code, wrote', ?_⟩
  intro id before start
  refine ⟨_, start, rfl, fun w locals machine room => ?_⟩
  rw [Op.execAll_unlessNull]
  dsimp only
  cases Construction.needsNullTest v && w.isNull with
  | true => exact ⟨locals, rfl⟩
  | false => exact exec id w locals machine (inner.trans room)

/-- The identifier of an extension may be fetched before the value, which is then not tested. -/
theorem identifyFirst {identifier : StaticField} (refers : Refers s f g identifier)
    (alone : v.code.inputs = [])
    (h : Deposits s fuel message [Signature.extension] (Identified s g) v.native t' steps put) :
    Hands s fuel message v t'
      (Assembler.getStatic identifier >>= fun _ => Assembler.append v.code >>= fun _ => steps) put := by
  intro a a' stack run
  rw [run_bind_ok (refers.run_getStatic a)] at run
  obtain ⟨⟨⟩, b, first, second⟩ := bind_eq_ok.mp run
  have stack' : (a.put [.getStatic identifier] (Signature.extension :: a.stack)).stack =
      v.code.inputs.reverse ++ ([Signature.extension] ++ [.builder message]) := by
    rw [alone, ← stack]
    rfl
  obtain ⟨wrote, -⟩ := v.append_wrote stack' first
  obtain ⟨code, wrote', exec⟩ := h b a' wrote.stack second
  have whole := ((Wrote.put a [.getStatic identifier] _).trans wrote).trans wrote'
  refine ⟨[.getStatic identifier], code, whole, ?_⟩
  intro id before start
  obtain ⟨owner, name, resolves, fetched⟩ := refers.exec_getStatic fuel [.ref id (.builder message)] before
  refine ⟨[.ref start.store.nextId (.extension owner name)] ++ [.ref id (.builder message)],
    start.numbered (start.store.nextId + 1), ?_, fun w locals machine _ => ⟨locals, ?_⟩⟩
  · rw [Op.execAll_singleton, fetched]
    rfl
  · rw [exec id w _ locals ⟨_, owner, name, resolves, rfl⟩]

/-- Steps around it that take the builder for an extendable one. -/
theorem asExtendable (h : Hands s fuel message v (.ref .extendableBuilder) steps put) :
    Hands s fuel message v (.builder message)
      (Assembler.checkCast .extendableBuilder >>= fun _ => steps >>= fun _ =>
        Assembler.checkCast (.builder message)) put := by
  intro a a' stack run
  obtain ⟨b, d, opening, top, same, second, opens, closes⟩ := Assembler.asExtendable_eq_ok s stack run
  obtain ⟨front, back, wrote, delivers⟩ := h b d top second
  obtain ⟨closing, whole, inner, ends⟩ := closes _ wrote
  rw [same] at whole
  refine ⟨opening ++ front, back ++ closing, ?_, ?_⟩
  · simpa only [List.append_assoc] using whole
  intro id before start
  obtain ⟨stack, started, prepared, exec⟩ := delivers id before start
  refine ⟨stack, started, ?_, fun w locals machine room => ?_⟩
  · rw [Op.execAll_append, opens, pure_bind, prepared]
  · obtain ⟨after, taken⟩ := exec w locals machine (inner.trans room)
    refine ⟨after, ?_⟩
    rw [Op.execAll_append, run_bind, taken, ← run_bind, bind_assoc]
    simp only [pure_bind, ends]

theorem setSingular (addressed : Addressed s message m f g) (alone : v.code.inputs = [])
    (declared : f.extensionScope = none) (singular : f.isRepeated = false) (c : Coercion) :
    Hands s fuel message v (.builder message) (Construction.setSingular f c v)
      (Filling.hand (.ofSchema s) m f g c v message) := by
  unfold Filling.hand
  rw [singular]
  exact unlessNull alone (Deposits.declared addressed declared c v.type v.native _).consumes
    (Fills.joins_builder message _)

theorem setExtension (addressed : Addressed s message m f g) (alone : v.code.inputs = [])
    (extension : f.isExtension = true) (singular : f.isRepeated = false) {identifier : StaticField}
    (refers : Refers s f g identifier) (c : Coercion) :
    Hands s fuel message v (.builder message) (Construction.setExtension f c v)
      (Filling.hand (.ofSchema s) m f g c v message) := by
  have method : Filling.method f c = Signature.setExtension := by
    rw [Filling.method_extension extension, singular]
    rfl
  unfold Construction.setExtension Filling.hand
  rw [refers.ofExcept_eq, pure_bind, addressed.container, singular]
  cases test : Construction.needsNullTest v with
  | true =>
      have deposits : Deposits s fuel message _ _ _ _ _ _ :=
        Deposits.extensionLate addressed extension refers c v.type v.native
      have hands : Hands s fuel message v _ _ _ := (unlessNull alone deposits.consumes
        (by rw [test]; exact Fills.joins_extendable message)).asExtendable
      rw [method] at hands
      unfold Construction.unlessNull at hands
      rw [test] at hands
      simp only [bind_assoc, if_true] at hands
      simp only [if_true]
      exact hands
  | false =>
      have deposits : Deposits s fuel message _ _ _ _ _ _ :=
        Deposits.extension addressed extension c v.type v.native
      have hands : Hands s fuel message v _ _ _ := (identifyFirst refers alone deposits).asExtendable
      rw [method] at hands
      simp only [bind_assoc] at hands
      simp only [Bool.false_eq_true, if_false, Bool.false_and]
      exact hands

theorem setRepeated (enough : Int32.maxValue.toInt.toNat < fuel) (loaded : s.Loaded)
    (addressed : Addressed s message m f g) (alone : v.code.inputs = []) (repeated : f.isRepeated = true)
    {c : Coercion} (covers : c.Covers s f) (listed : v.type ≠ .emptyList) :
    Hands s fuel message v (.builder message) (Construction.setRepeated .immediate f c f.isExtension v)
      (Filling.hand (.ofSchema s) m f g c v message) := by
  unfold Construction.setRepeated Filling.hand
  rw [if_neg listed, ListResolver.immediate_eq, pure_bind, repeated]
  exact unlessNull alone
    (Consumes.listSteps enough loaded addressed repeated covers (Construction.elementType v.type) v.native)
    (Fills.joins_builder message _)

end Hands

theorem Assembler.of_checked {p : Prop} [Decidable p] {e : GenerateError}
    {more : PUnit → Assembler GenerateError Unit} {a a' : Assembly}
    (run : (if p then steps else throw e >>= more).run a = (.ok (), a')) : steps.run a = (.ok (), a') := by
  by_cases holds : p
  · rwa [if_pos holds] at run
  · rw [if_neg holds] at run
    cases run

/-- An argument is left out, or the code for it hands its value to the builder. -/
theorem Construction.setArgument_eq_ok (enough : Int32.maxValue.toInt.toNat < fuel) (loaded : s.Loaded)
    (found : s.message? message = some m) {name : String} {a a' : Assembly}
    (stack : a.stack = [.builder message])
    (run : (setArgument s .immediate message (name, v)).run a = (.ok (), a')) :
    ∃ f g c, s.field? message name = some f ∧ Coercion.of s f = .ok c ∧ Addressed s message m f g ∧
      (Filling.Skips f v ∧ a' = a ∨ ∃ front back,
        Wrote a (front ++ Op.relocateAll a.nextLocal v.code.ops ++ back) [.builder message] a' ∧
          Delivers s fuel message a'.maxLocals front back
            (Filling.hand (.ofSchema s) m f g c v message)) := by
  unfold setArgument at run
  dsimp only at run
  cases named : s.field? message name with
  | none =>
      rw [named] at run
      cases run
  | some f =>
      have mem := Schema.Loaded.mem_of_field? found named
      obtain ⟨g, addressed⟩ := loaded.exists_addressed found mem
      obtain ⟨c, coercion⟩ := Coercion.exists_of (loaded.field found mem)
      have covers := Coercion.covers_of_eq_ok coercion
      refine ⟨f, g, c, rfl, coercion, addressed, ?_⟩
      rw [named] at run
      dsimp only at run
      by_cases isEmpty : v.code.inputs.isEmpty = true
      swap
      · rw [if_neg isEmpty] at run
        cases run
      rw [if_pos isEmpty] at run
      have alone : v.code.inputs = [] := List.isEmpty_iff.mp isEmpty
      by_cases null : v.type = .null
      · rw [if_pos null] at run
        cases run
        exact .inl ⟨.inl null, rfl⟩
      rw [if_neg null] at run
      -- The shape of the field tells which steps are written.
      cases many : f.isRepeated with
      | true =>
          rw [Shape.of_repeated coercion many] at run
          have run := Assembler.of_checked run
          by_cases listed : v.type = .emptyList
          · unfold setRepeated at run
            rw [if_pos listed] at run
            cases run
            exact .inl ⟨.inr ⟨many, listed⟩, rfl⟩
          · exact .inr (Hands.setRepeated enough loaded addressed alone many covers listed a a' stack run)
      | false =>
          rcases addressed.declared_or_refers with ⟨declared, own⟩ | ⟨extension, identifier, refers⟩
          · obtain ⟨test, shape⟩ := Shape.exists_of_declared coercion many own
            rw [shape] at run
            have run := Assembler.of_checked run
            exact .inr (Hands.setSingular addressed alone declared many c a a' stack run)
          · obtain ⟨presence, shape⟩ := Shape.exists_of_extension coercion many extension
            rw [shape] at run
            have run := Assembler.of_checked run
            exact .inr (Hands.setExtension addressed alone extension many refers c a a' stack run)

theorem Construction.setArguments_eq_ok (enough : Int32.maxValue.toInt.toNat < fuel) (loaded : s.Loaded)
    (found : s.message? message = some m) {arguments : List (String × TypedValue)} {a a' : Assembly}
    (stack : a.stack = [.builder message])
    (run : (arguments.forM (setArgument s .immediate message)).run a = (.ok (), a')) :
    ∃ ops, Wrote a ops [.builder message] a' ∧ ∀ name v, (name, v) ∈ arguments →
      ∃ f g c, s.field? message name = some f ∧ Coercion.of s f = .ok c ∧ Addressed s message m f g ∧
        (Filling.Skips f v ∨ ∃ opening front base back closing,
          ops = opening ++ (front ++ Op.relocateAll base v.code.ops ++ back) ++ closing ∧
            Delivers s fuel message a'.maxLocals front back
              (Filling.hand (.ofSchema s) m f g c v message)) := by
  induction arguments generalizing a with
  | nil =>
      cases run
      exact ⟨[], .nothing stack, nofun⟩
  | cons argument arguments ih =>
      obtain ⟨name, v⟩ := argument
      obtain ⟨⟨⟩, b, first, second⟩ := bind_eq_ok.mp run
      obtain ⟨f, g, c, named, coercion, addressed, written⟩ :=
        setArgument_eq_ok enough loaded found stack first
      have stack' : b.stack = [.builder message] := by
        rcases written with ⟨-, rfl⟩ | ⟨front, back, wrote, -⟩
        · exact stack
        · exact wrote.stack
      obtain ⟨ops, wrote', others⟩ := ih stack' second
      rcases written with ⟨skipped, rfl⟩ | ⟨front, back, wrote, delivers⟩
      · refine ⟨ops, wrote', fun name' v' mem => ?_⟩
        rcases List.mem_cons.mp mem with same | mem
        · cases same
          exact ⟨f, g, c, named, coercion, addressed, .inl skipped⟩
        · exact others name' v' mem
      · refine ⟨_, wrote.trans wrote', fun name' v' mem => ?_⟩
        rcases List.mem_cons.mp mem with same | mem
        · cases same
          exact ⟨f, g, c, named, coercion, addressed, .inr ⟨[], front, a.nextLocal, back, ops, rfl,
            delivers.mono wrote'.maxLocals⟩⟩
        · obtain ⟨f', g', c', named', coercion', addressed', written'⟩ := others name' v' mem
          refine ⟨f', g', c', named', coercion', addressed', written'.imp_right ?_⟩
          rintro ⟨opening, front', base, back', closing, rfl, delivers'⟩
          refine ⟨(front ++ Op.relocateAll a.nextLocal v.code.ops ++ back) ++ opening, front', base, back',
            closing, ?_, delivers'⟩
          simp only [List.append_assoc]

/-- In the code for a message, every argument is left out, or its code stands before code that hands its
value to the builder. -/
theorem Filling.generated_hands (enough : Int32.maxValue.toInt.toNat < fuel) (loaded : s.Loaded)
    (found : s.message? message = some m) {arguments : List (String × TypedValue)} {k : TypedValue}
    (generated : generateConstruction s .immediate message arguments = .ok k) {name : String}
    (mem : (name, v) ∈ arguments) :
    ∃ f g c, s.field? message name = some f ∧ Coercion.of s f = .ok c ∧ Addressed s message m f g ∧
      (Skips f v ∨ ∃ opening front base back closing,
        k.code.ops = opening ++ (front ++ Op.relocateAll base v.code.ops ++ back) ++ closing ∧
          Delivers s fuel message k.code.maxLocals front back (hand (.ofSchema s) m f g c v message)) := by
  obtain ⟨-, assembled⟩ := generateConstruction_eq_ok.mp generated
  obtain ⟨-, a, run, finished⟩ := TypedValue.assemble_eq_ok assembled
  have some : arguments.isEmpty = false := by
    cases arguments with
    | nil => cases mem
    | cons _ _ => rfl
  rw [some, if_neg Bool.false_ne_true, run_bind_ok (Method.run_invoke rfl rfl .nil)] at run
  obtain ⟨⟨⟩, b, filled, built⟩ := bind_eq_ok.mp run
  obtain ⟨ops, wrote, written⟩ := Construction.setArguments_eq_ok enough loaded found rfl filled
  rw [Method.run_invoke rfl wrote.stack (.refl _)] at built
  cases built
  obtain ⟨code, -, room, -⟩ := Assembly.Finishes.eq (.inl ⟨_, finished⟩)
  obtain ⟨f, g, c, named, coercion, addressed, placed⟩ := written name v mem
  refine ⟨f, g, c, named, coercion, addressed, placed.imp_right ?_⟩
  rintro ⟨opening, front, base, back, closing, rfl, delivers⟩
  refine ⟨[.invoke (Signature.newBuilder message)] ++ opening, front, base, back,
    closing ++ [.invoke (Signature.build message)], ?_, ?_⟩
  · rw [code, Assembly.put_ops, wrote.ops]
    simp [Assembly.put, Assembly.start]
  · rw [room]
    exact delivers

end

end MessageCode
