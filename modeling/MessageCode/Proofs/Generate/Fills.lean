import MessageCode.Proofs.Generate.Stores

/-!
Filling a builder. The code of an argument works on the builder on top, and leaves it there with the
contents that the argument comes to.
-/

namespace MessageCode

open Stateful

/-- What can be known, next to the builder, of the hidden objects and of the locals. -/
abbrev Setting := (ObjectId → Prop) → List Value → Machine → Prop

/-- It stays true while the locals in use and the hidden lists stay as they are. -/
def Setting.Lasts (setting : Setting) (inUse : Nat) : Prop :=
  ∀ hidden id stack locals m frame data m', Filled hidden id inUse stack locals m frame data m' →
    setting hidden locals m → setting hidden frame.locals m'

def Setting.any : Setting := fun _ _ _ => True

theorem Setting.any_lasts (inUse : Nat) : Setting.any.Lasts inUse := by
  intro hidden id stack locals m frame data m' _ _
  trivial

/-- Where the steps can be written with some values above the builder, they take all but the builder and
change its contents. -/
def Fills (s : Schema) (fuel : Nat) (message : String) (setting : Setting) (under : List NativeType)
    (below : List Value → Prop) (t t' : NativeType) (steps : Assembler GenerateError Unit)
    (fill : ObjectId → MessageData → Run MessageData) : Prop :=
  ∀ a a', a.stack = under ++ [t] → setting.Lasts a.nextLocal → steps.run a = (.ok (), a') →
    ∃ ops, Wrote a ops [t'] a' ∧ ∀ hidden id data others locals m, below others →
      setting hidden locals m → a'.maxLocals ≤ locals.length → m.Keeps hidden id data →
        Alike (Op.execAll (.ofSchema s) fuel ops ⟨others ++ [.ref id (.builder message)], locals⟩)
          (fill id data) m (Filled hidden id a.nextLocal [.ref id (.builder message)] locals m)

namespace Fills

variable {s : Schema} {fuel : Nat} {message : String} {setting : Setting} {t t' t'' : NativeType}
  {under : List NativeType} {below : List Value → Prop} {steps more : Assembler GenerateError Unit}
  {fill fill' : ObjectId → MessageData → Run MessageData}

theorem of_eq (h : Fills s fuel message setting under below t t' steps fill)
    (same : ∀ id data, fill' id data = fill id data) :
    Fills s fuel message setting under below t t' steps fill' := by
  obtain rfl : fill' = fill := funext fun id => funext fun data => same id data
  exact h

theorem nothing (t : NativeType) :
    Fills s fuel message setting [] (· = []) t t (Pure.pure ()) (fun _ data => Pure.pure data) := by
  intro a a' stack lasts run
  cases run
  refine ⟨[], .nothing stack, ?_⟩
  rintro hidden id data _ locals m rfl _ _ keeps
  exact .pure (Filled.here keeps a.nextLocal _ locals)

theorem seq (h : Fills s fuel message setting under below t t' steps fill)
    (h' : Fills s fuel message setting [] (· = []) t' t'' more fill') :
    Fills s fuel message setting under below t t'' (steps >>= fun _ => more)
      (fun id data => fill id data >>= fill' id) := by
  intro a a' stack lasts run
  obtain ⟨⟨⟩, b, first, second⟩ := bind_eq_ok.mp run
  obtain ⟨ops, wrote, exec⟩ := h a b stack lasts first
  have lasts' : setting.Lasts b.nextLocal := by
    rw [wrote.nextLocal]
    exact lasts
  obtain ⟨ops', wrote', exec'⟩ := h' b a' wrote.stack lasts' second
  refine ⟨ops ++ ops', wrote.trans wrote', ?_⟩
  intro hidden id data others locals m ready around room keeps
  rw [Op.execAll_append]
  apply (exec hidden id data others locals m ready around (wrote'.maxLocals.trans room) keeps).bind
  intro frame data' m' after
  obtain ⟨stack', locals'⟩ := frame
  cases after.stack
  have room' : a'.maxLocals ≤ locals'.length := room.trans after.length.ge
  have around' : setting hidden locals' m' := lasts _ _ _ _ _ _ _ _ after around
  apply (exec' hidden id data' [] locals' m' rfl around' room' after.keeps).imp
  intro frame data'' m'' later
  rw [wrote.nextLocal] at later
  exact after.trans later

theorem of_becomes {act : Value → Run Value} (h : Becomes (.ofSchema s) t t' steps act)
    (same : ∀ id, act (.ref id (.builder message)) = Pure.pure (.ref id (.builder message))) :
    Fills s fuel message setting [] (· = []) t t' steps (fun _ data => Pure.pure data) := by
  intro a a' stack lasts run
  obtain ⟨ops, wrote, acts⟩ := h a [] a' stack run
  refine ⟨ops, wrote, ?_⟩
  rintro hidden id data _ locals m rfl _ _ keeps
  rw [List.nil_append, acts.exec, same, pure_bind]
  exact .pure (Filled.here keeps a.nextLocal _ locals)

theorem widen : Fills s fuel message setting [] (· = []) (.builder message) (.builder message)
    (Assembler.checkCast .extendableBuilder) (fun _ data => Pure.pure data) :=
  of_becomes (.widen _ message) fun _ => rfl

theorem narrow : Fills s fuel message setting [] (· = []) (.ref .extendableBuilder) (.builder message)
    (Assembler.checkCast (.builder message)) (fun _ data => Pure.pure data) :=
  of_becomes (.narrow _ message) fun id => Turns.castTo_builder message id

/-- The identifier of an extension may be fetched first, to be used below all that follows. -/
theorem identifyFirst {f : Field} {identifier : StaticField}
    (refers : Refers s f f identifier)
    (h : Fills s fuel message setting [Signature.extension] (Identified s f) t t' more fill) :
    Fills s fuel message setting [] (· = []) t t' (Assembler.getStatic identifier >>= fun _ => more)
      (fun id data => Filling.identify >>= fun _ => fill id data) := by
  intro a a' stack lasts run
  rw [run_bind_ok (refers.run_getStatic a)] at run
  have stack' : (a.put [.getStatic identifier] (Signature.extension :: a.stack)).stack =
      [Signature.extension] ++ [t] := congrArg _ stack
  obtain ⟨ops, wrote, exec⟩ := h _ a' stack' lasts run
  refine ⟨[.getStatic identifier] ++ ops, (Wrote.put ..).trans wrote, ?_⟩
  rintro hidden id data _ locals m rfl around room keeps
  rw [List.nil_append, Op.execAll_append, Op.execAll_singleton]
  apply (refers.pushed keeps fuel a.nextLocal [.ref id (.builder message)] locals).bind
  intro frame _ m' pushed
  obtain ⟨others, ready, after⟩ := pushed
  obtain ⟨stack', locals'⟩ := frame
  cases after.stack
  have room' : a'.maxLocals ≤ locals'.length := room.trans after.length.ge
  have around' : setting hidden locals' m' := lasts _ _ _ _ _ _ _ _ after around
  apply (exec hidden id data others locals' m' ready around' room' after.keeps).imp
  intro frame data' m'' later
  exact after.trans later

end Fills

/-- What the assembler does with the code of a value. -/
theorem TypedValue.append_wrote {v : TypedValue} {a a' : Assembly} {rest : List NativeType}
    (stack : a.stack = v.code.inputs.reverse ++ rest)
    (run : (Assembler.append v.code : Assembler GenerateError Unit).run a = (.ok (), a')) :
    Wrote a (Op.relocateAll a.nextLocal v.code.ops) (v.native :: rest) a' ∧
      a.nextLocal + v.code.maxLocals ≤ a'.maxLocals := by
  obtain ⟨found, left, stack', fits, rfl⟩ := Assembler.append_eq_ok.mp run
  obtain ⟨rfl, rfl⟩ : found = v.code.inputs.reverse ∧ left = rest :=
    List.append_inj (stack'.symm.trans stack) fits.length_eq
  rw [v.output_eq]
  exact ⟨⟨rfl, rfl, rfl, rfl, rfl, le_max_left ..⟩, le_max_right ..⟩

theorem TypedValue.append_start {v : TypedValue} {a : Assembly}
    (run : (Assembler.append v.code : Assembler GenerateError Unit).run (.start v.code.inputs) =
      (.ok (), a)) : Wrote (.start v.code.inputs) v.code.ops [v.native] a := by
  obtain ⟨wrote, -⟩ := v.append_wrote (List.append_nil _).symm run
  rwa [Assembly.start, Op.relocateAll_zero] at wrote

/-- Code for the value on top, which is taken away where it is tested for null and is null. -/
def Op.unlessNull (tested : Bool) (code : List Op) : List Op :=
  if tested then [.dup, .branch .isNull [.pop] code] else code

theorem Op.execAll_unlessNull (host : Host) (fuel : Nat) (tested : Bool) (code : List Op) (w : Value)
    (stack locals : List Value) :
    execAll host fuel (unlessNull tested code) ⟨w :: stack, locals⟩ =
      if tested && w.isNull then pure ⟨stack, locals⟩ else execAll host fuel code ⟨w :: stack, locals⟩ := by
  cases tested with
  | false => rfl
  | true =>
      have holds : Run.ofExcept (Test.isNull.holds [w]) = pure w.isNull := rfl
      unfold unlessNull
      rw [if_pos rfl, execAll_cons, exec_dup, pure_bind, execAll_singleton, exec_branch]
      change Op.choose .isNull _ _ ⟨[w] ++ (w :: stack), locals⟩ = _
      rw [Op.choose_append rfl, holds, pure_bind, Bool.true_and]
      cases w.isNull <;> rfl

/-- Behind the code of a value that may have to be skipped, the steps are written from the value, and what
they write is tested or not. -/
theorem Construction.unlessNull_eq_ok {v : TypedValue} {steps : Assembler GenerateError Unit}
    {a a' : Assembly} {rest : List NativeType} (stack : a.stack = v.code.inputs.reverse ++ rest)
    (run : (unlessNull v steps).run a = (.ok (), a')) :
    ∃ b b', b.stack = v.native :: rest ∧ b.nextLocal = a.nextLocal ∧ steps.run b = (.ok (), b') ∧
      b'.maxLocals ≤ a'.maxLocals ∧ ∀ code left joined, Wrote b code left b' →
        (if needsNullTest v then Assembler.mergeSlots rest left = some joined else left = joined) →
        Wrote a (Op.relocateAll a.nextLocal v.code.ops ++ Op.unlessNull (needsNullTest v) code) joined a' ∧
          a.nextLocal + v.code.maxLocals ≤ a'.maxLocals := by
  unfold unlessNull at run
  obtain ⟨⟨⟩, b, first, second⟩ := bind_eq_ok.mp run
  obtain ⟨wrote, room⟩ := v.append_wrote stack first
  cases test : needsNullTest v with
  | false =>
      rw [test, if_neg Bool.false_ne_true] at second
      refine ⟨b, a', wrote.stack, wrote.nextLocal, second, le_rfl, ?_⟩
      rintro code left _ wrote' rfl
      exact ⟨wrote.trans wrote', room.trans wrote'.maxLocals⟩
  | true =>
      rw [test, if_pos rfl] at second
      obtain ⟨⟨⟩, d, copied, branched⟩ := bind_eq_ok.mp second
      obtain ⟨t, _, stack', rfl⟩ := Assembler.dup_eq_ok.mp copied
      rw [wrote.stack] at stack'
      cases stack'
      obtain ⟨found, under, thenArm, elseArm, joined, stack', fits, popped, stored, merged, rfl⟩ :=
        Assembler.branch_eq_ok.mp branched
      -- The test takes one of the two references to the value.
      obtain ⟨_, rfl⟩ : ∃ t, found = [t] := List.length_eq_one_iff.mp fits.length_eq
      cases stack'
      obtain ⟨_, _, stack', rfl⟩ := Assembler.pop_eq_ok.mp popped
      cases stack'
      refine ⟨((b.put [Op.dup] (v.native :: v.native :: rest)).put [] (v.native :: rest)).fork, elseArm, rfl,
        wrote.nextLocal, stored, le_max_right .., ?_⟩
      intro code left joined' wrote' same
      rw [if_pos rfl] at same
      rw [wrote'.stack, Assembly.put_stack, same] at merged
      cases merged
      have branched := (Wrote.put _ [.pop] rest).branch wrote' .isNull joined
      exact ⟨wrote.trans ((Wrote.put ..).trans branched), room.trans branched.maxLocals⟩

namespace Fills

variable {s : Schema} {fuel : Nat} {message : String} {setting : Setting} {under : List NativeType}
  {below : List Value → Prop} {t' u : NativeType} {v : TypedValue}
  {steps : Assembler GenerateError Unit} {store : ObjectId → MessageData → Value → Run MessageData}

/-- The code of an argument stores its value unless it is null. -/
theorem unlessNull (proper : v.code.IsProper) (alone : v.code.inputs = [])
    (truthful : v.Truthful (.ofSchema s) fuel)
    (stores : Stores s fuel message under below v.native u steps store)
    (bare : Construction.needsNullTest v = true → ∀ others, below others → others = [])
    (joins : if Construction.needsNullTest v then
        Assembler.mergeSlots (under ++ [.builder message]) [u] = some [t']
      else [u] = [t']) :
    Fills s fuel message setting under below (.builder message) t' (Construction.unlessNull v steps)
      (Filling.unlessNull (.ofSchema s) fuel v store) := by
  intro a a' stack lasts run
  have stack' : a.stack = v.code.inputs.reverse ++ (under ++ [.builder message]) := by
    rw [alone]
    exact stack
  obtain ⟨b, b', top, same, stored, inner, written⟩ := Construction.unlessNull_eq_ok stack' run
  obtain ⟨code, wrote', exec⟩ := stores b b' top stored
  obtain ⟨wrote, room⟩ := written code [u] [t'] wrote' joins
  refine ⟨_, wrote, ?_⟩
  intro hidden id data others locals m ready _ enough keeps
  rw [Op.execAll_append]
  apply ((TypedValue.valued proper (Host.ofSchema_guards s hidden) alone (room.trans enough) keeps fuel).also
    (fun w m' evaluated marked => truthful marked m w m' evaluated)).bind
  intro frame w m' h
  obtain ⟨⟨after, leads⟩, notNull⟩ := h
  obtain ⟨stack', locals'⟩ := frame
  cases after.stack
  rw [Op.execAll_unlessNull]
  cases null : w.isNull with
  | true =>
      cases test : Construction.needsNullTest v with
      | true =>
          obtain rfl := bare test others ready
          exact .pure (after.trans (Filled.here after.keeps _ _ locals'))
      | false =>
          have marked : v.code.nonNull = true ∨ v.native.isPrimitive = true := by
            unfold Construction.needsNullTest TypedValue.isNullable at test
            simpa [or_iff_not_imp_left] using test
          cases w with
          | null => exact absurd rfl (notNull marked)
          | _ => cases null
  | false =>
      rw [Bool.and_false, if_neg Bool.false_ne_true, if_neg Bool.false_ne_true]
      have enough' : b'.maxLocals ≤ locals'.length := inner.trans (enough.trans after.length.ge)
      apply (exec hidden id data w others locals' m' ready enough' leads after.keeps).imp
      intro frame data' m'' later
      rw [same] at later
      exact after.trans later

theorem joins_builder (message : String) (tested : Bool) :
    if tested then Assembler.mergeSlots ([] ++ [NativeType.builder message]) [.builder message] =
        some [.builder message]
      else [NativeType.builder message] = [.builder message] := by
  cases tested with
  | true => exact Assembler.mergeSlots_self _
  | false => rfl

/-- An extendable builder is joined with the builder that is left where the value is null. -/
theorem joins_extendable (message : String) :
    Assembler.mergeSlots ([] ++ [.builder message]) [.ref .extendableBuilder] =
      some [.ref .extendableBuilder] := by
  simp [Assembler.mergeSlots, NativeType.merge, RefType.assignableTo]

variable {m : Message} {f : Field}

theorem setSingular (proper : v.code.IsProper) (alone : v.code.inputs = [])
    (truthful : v.Truthful (.ofSchema s) fuel) (settable : Settable s message m f)
    (declared : f.extensionScope = none) (c : Coercion) :
    Fills s fuel message setting [] (· = []) (.builder message) (.builder message)
      (Construction.setSingular f c v)
      (Filling.unlessNull (.ofSchema s) fuel v (Filling.setValue (.ofSchema s) m f c v)) :=
  unlessNull proper alone truthful (Stores.declared settable declared c v.type v.native _)
    (fun _ _ => id) (joins_builder message _)

theorem asExtendable {fill : ObjectId → MessageData → Run MessageData}
    (h : Fills s fuel message setting [] (· = []) (.builder message) (.ref .extendableBuilder) steps fill) :
    Fills s fuel message setting [] (· = []) (.builder message) (.builder message)
      (Assembler.checkCast .extendableBuilder >>= fun _ => steps >>= fun _ =>
        Assembler.checkCast (.builder message)) fill := by
  apply (widen.seq (h.seq narrow)).of_eq
  intro id data
  rw [pure_bind, bind_pure]

/-- The code of an argument for a singular extension stores its value. -/
theorem setExtension (proper : v.code.IsProper) (alone : v.code.inputs = [])
    (truthful : v.Truthful (.ofSchema s) fuel) (settable : Settable s message m f)
    (extension : f.isExtension = true) (singular : f.isRepeated = false) {identifier : StaticField}
    (refers : Refers s f f identifier) (c : Coercion) :
    Fills s fuel message setting [] (· = []) (.builder message) (.builder message)
      (Construction.setExtension f c v)
      (fun id data => (if Construction.needsNullTest v then pure () else Filling.identify) >>= fun _ =>
        Filling.unlessNull (.ofSchema s) fuel v (Filling.setValue (.ofSchema s) m f c v) id data) := by
  have method : Filling.method f c = Signature.setExtension := by
    rw [Filling.method_extension extension, singular]
    rfl
  unfold Construction.setExtension Filling.setValue
  rw [refers.ofExcept_eq, pure_bind, settable.container]
  cases test : Construction.needsNullTest v with
  | true =>
      have stores : Stores s fuel message _ _ _ _ _ _ :=
        Stores.extensionLate settable extension refers c v.type v.native
      have fills : Fills s fuel message setting _ _ _ _ _ _ := (unlessNull proper alone truthful stores
        (fun _ _ => id) (by rw [test]; exact joins_extendable message)).asExtendable
      rw [method] at fills
      unfold Construction.unlessNull at fills
      rw [test] at fills
      simp only [bind_assoc, if_true] at fills
      simp only [if_true, pure_bind]
      exact fills
  | false =>
      have stores : Stores s fuel message _ _ _ _ _ _ :=
        Stores.extension settable extension c v.type v.native
      have fills : Fills s fuel message setting _ _ _ _ _ _ := (identifyFirst refers
        (unlessNull proper alone truthful stores (by rw [test]; nofun) (by rw [test]; rfl))).asExtendable
      rw [method] at fills
      unfold Construction.unlessNull at fills
      rw [test] at fills
      simp only [bind_assoc, Bool.false_eq_true, if_false] at fills
      simp only [Bool.false_eq_true, if_false]
      exact fills

end Fills

end MessageCode
