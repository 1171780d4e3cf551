import MessageCode.Proofs.Code.Outline

/-!
Numbering of locals. Locals in use at the same point have different numbers, however regions and spliced
sequences are nested; each number is below the count of the sequence, which is no larger than it has to be;
and each scope carries exactly the locals that are declared in it.
-/

namespace MessageCode

/-- What the assembler keeps between two states is what the outline of the code between them says. -/
structure Assembly.Accounts (a₀ : Assembly) (code : List Outline) (a : Assembly) : Prop where
  numbers : Outline.Numbers a₀.nextLocal code a.nextLocal
  declared : a.declared = a₀.declared ++ Outline.keptAll code
  scopes : Op.scopesAll a.ops = Op.scopesAll a₀.ops ++ Outline.scopesAll code
  within : a₀.nextLocal ≤ a₀.maxLocals → a.nextLocal ≤ a.maxLocals
  /-- The count is the least one with room for every local. -/
  count : a₀.nextLocal ≤ a₀.maxLocals → ∀ size, a.maxLocals ≤ size ↔
    a₀.maxLocals ≤ size ∧ ∀ d ∈ Outline.declaredAll code, d.slot.index < size

namespace Assembly.Accounts

variable {a₀ a b c : Assembly} {code first second : List Outline}

theorem start (a : Assembly) : a.Accounts [] a where
  numbers := .nil _
  declared := (List.append_nil _).symm
  scopes := (List.append_nil _).symm
  within le := le
  count _ _ := ⟨fun le => ⟨le, nofun⟩, fun h => h.1⟩

theorem count_snoc (h : a₀.Accounts code a) (le : a₀.nextLocal ≤ a₀.maxLocals) (o : Outline) (size : Nat) :
    (a₀.maxLocals ≤ size ∧ ∀ d ∈ Outline.declaredAll (code ++ [o]), d.slot.index < size) ↔
      a.maxLocals ≤ size ∧ ∀ d ∈ o.declared, d.slot.index < size := by
  rw [h.count le size, Outline.declaredAll_append, List.forall_mem_append, and_assoc]
  simp only [Outline.declaredAll, List.append_nil]

theorem put (h : a₀.Accounts code a) {ops : List Op} (plain : Op.scopesAll ops = [])
    (stack : List NativeType) : a₀.Accounts code (a.put ops stack) where
  numbers := h.numbers
  declared := h.declared
  scopes := by rw [put_ops, Op.scopesAll_append, plain, List.append_nil, h.scopes]
  within := h.within
  count := h.count

theorem declare (h : a₀.Accounts code a) (name : String) (type : NativeType) :
    a₀.Accounts (code ++ [.declare ⟨name, ⟨a.nextLocal, type⟩⟩])
      (a.declare ⟨name, ⟨a.nextLocal, type⟩⟩) where
  numbers := h.numbers.append (.declare name type (.nil _))
  declared := by simp [Assembly.declare, h.declared, Outline.keptAll, Outline.kept]
  scopes := by simp [Assembly.declare, h.scopes, Outline.scopesAll, Outline.scopes]
  within _ := le_max_right ..
  count le size := by
    rw [h.count_snoc le, Outline.declared, List.forall_mem_singleton]
    exact max_le_iff

theorem splice (h : a₀.Accounts code a) {inputs : List NativeType}
    (h' : (Assembly.start inputs).Accounts first b) (stack : List NativeType) :
    a₀.Accounts (code ++ [.splice a.nextLocal first])
      ({ a with maxLocals := max a.maxLocals (a.nextLocal + b.maxLocals) }.put
        (Op.relocateAll a.nextLocal b.ops) stack) where
  numbers := h.numbers.append (.splice h'.numbers (.nil _))
  declared := by simp [h.declared, Outline.keptAll, Outline.kept]
  scopes := by
    have inner : Op.scopesAll b.ops = Outline.scopesAll first := h'.scopes
    simp [h.scopes, Op.scopesAll_relocate, inner, Outline.scopesAll, Outline.scopes]
  within le := (h.within le).trans (le_max_left ..)
  count le size := by
    have numbered := h.within le
    have room : a.maxLocals ≤ size → (a.nextLocal + b.maxLocals ≤ size ↔
        ∀ d ∈ Outline.declaredAll first, d.slot.index + a.nextLocal < size) := by
      intro counted
      have inner := h'.count le_rfl (size - a.nextLocal)
      constructor
      · intro sum d mem
        have lt := (inner.mp (by omega)).2 d mem
        omega
      · intro all
        have fits : b.maxLocals ≤ size - a.nextLocal := by
          refine inner.mpr ⟨Nat.zero_le _, fun d mem => ?_⟩
          have lt := all d mem
          omega
        omega
    rw [h.count_snoc le, Outline.declared, List.forall_mem_map]
    exact max_le_iff.trans (and_congr_right room)

theorem room (h : a.fork.Accounts code b) (numbered : a.nextLocal ≤ a.maxLocals) {size : Nat}
    (counted : a.maxLocals ≤ size) :
    b.maxLocals ≤ size ↔ ∀ d ∈ Outline.declaredAll code, d.slot.index < size :=
  (h.count le_rfl size).trans (and_iff_right (numbered.trans counted))

theorem count_region (h : a.fork.Accounts code b) (numbered : a.nextLocal ≤ a.maxLocals) (size : Nat) :
    max a.maxLocals b.maxLocals ≤ size ↔
      a.maxLocals ≤ size ∧ ∀ d ∈ Outline.declaredAll code, d.slot.index < size :=
  max_le_iff.trans (and_congr_right (h.room numbered))

theorem branch (h : a₀.Accounts code a) (h' : a.fork.Accounts first b) (h'' : a.fork.Accounts second c)
    (test : Test) (stack : List NativeType) :
    a₀.Accounts (code ++ [.branch first second])
      (((a.adopt b).adopt c).put [.branch test b.ops c.ops] stack) where
  numbers := h.numbers.append (.branch h'.numbers h''.numbers (.nil _))
  declared := by
    simp [Assembly.adopt, Assembly.fork, h.declared, h'.declared, h''.declared, Outline.keptAll,
      Outline.kept]
  scopes := by
    simp [h.scopes, h'.scopes, h''.scopes, Op.scopesAll, Op.scopes, Outline.scopesAll, Outline.scopes]
  within le := max_le_max (max_le_max (h.within le) (h'.within le_rfl)) (h''.within le_rfl)
  count le size := by
    have numbered := h.within le
    rw [h.count_snoc le, Outline.declared, List.forall_mem_append, ← and_assoc,
      ← h'.count_region numbered size]
    exact max_le_iff.trans (and_congr_right fun counted =>
      h''.room numbered ((le_max_left ..).trans counted))

theorem loop (h : a₀.Accounts code a) (h' : a.fork.Accounts first b)
    (h'' : (a.adopt b).fork.Accounts second c) (test : Test) (stack : List NativeType) :
    a₀.Accounts (code ++ [.loop first second])
      (((a.adopt b).adopt c).put [.loop b.ops test c.ops] stack) where
  numbers := h.numbers.append (.loop h'.numbers h''.numbers (.nil _))
  declared := by
    simp [Assembly.adopt, Assembly.fork, h.declared, h'.declared, h''.declared, Outline.keptAll,
      Outline.kept]
  scopes := by
    simp [h.scopes, h'.scopes, h''.scopes, Op.scopesAll, Op.scopes, Outline.scopesAll, Outline.scopes]
  within le := max_le_max (max_le_max (h.within le) (h'.within le_rfl)) (h''.within le_rfl)
  count le size := by
    have numbered := h.within le
    have numbered' : (a.adopt b).nextLocal ≤ (a.adopt b).maxLocals :=
      max_le_max numbered (h'.within le_rfl)
    rw [h.count_snoc le, Outline.declared, List.forall_mem_append, ← and_assoc,
      ← h'.count_region numbered size]
    exact h''.count_region numbered' size

/-- The numbers of a scope are free again behind it. -/
theorem scope (h : a₀.Accounts code a) (h' : a.fork.Accounts first b) :
    a₀.Accounts (code ++ [.scope first])
      ({ a with maxLocals := max a.maxLocals b.maxLocals }.put [.scope b.declared b.ops] b.stack) where
  numbers := h.numbers.append (.scope h'.numbers (.nil _))
  declared := by simp [h.declared, Outline.keptAll, Outline.kept]
  scopes := by
    simp [Assembly.fork, h.scopes, h'.scopes, h'.declared, Op.scopesAll, Op.scopes, Outline.scopesAll,
      Outline.scopes]
  within le := (h.within le).trans (le_max_left ..)
  count le size := by
    rw [h.count_snoc le, Outline.declared]
    exact h'.count_region (h.within le) size

end Assembly.Accounts

/-- Every call keeps the accounts. -/
theorem Outlined.accounts {a₀ a : Assembly} {code : List Outline} (h : Outlined a₀ code a) :
    a₀.Accounts code a := by
  induction h with
  | start a => exact .start a
  | call d _ written ih =>
      rcases Directive.write_eq_ok written with ⟨rfl, -⟩ | ⟨op, stack, rfl, effect, -⟩
      · exact ih
      · exact ih.put (by simp [Op.scopesAll, effect.scopes_eq]) stack
  | declare name type _ declared ih =>
      cases declared
      exact ih.declare name type
  | append s _ _ finish appended ih innerIh =>
      obtain ⟨found, rest, -, -, rfl⟩ := Assembler.append_eq_ok.mp appended
      obtain ⟨ops, -, size, -⟩ := finish.eq
      rw [ops, size]
      exact ih.splice innerIh _
  | branch test _ tested _ _ joined ih thenIh elseIh =>
      obtain ⟨found, rest, -, -, rfl⟩ := Assembler.popTest_eq_ok.mp tested
      obtain ⟨stack, -, rfl⟩ := Assembler.joinArms_eq_ok.mp joined
      exact (ih.put rfl rest).branch thenIh elseIh test stack
  | loop test _ _ closed _ closed' ih conditionIh bodyIh =>
      obtain ⟨found, -, -, rfl, rfl⟩ := Assembler.closeCondition_eq_ok.mp closed
      obtain ⟨-, rfl⟩ := Assembler.closeLoop_eq_ok.mp closed'
      exact ih.loop conditionIh bodyIh test _
  | scope _ _ closed ih bodyIh =>
      cases closed
      exact ih.scope bodyIh

/-- The numbers of the locals rise. They start at the first bound or above and stay below the second. -/
inductive Rises : Nat → List Local → Nat → Prop
  | nil {low high} : low ≤ high → Rises low [] high
  | cons {low high l rest} : low ≤ l.index → Rises (l.index + 1) rest high → Rises low (l :: rest) high

namespace Rises

variable {low mid high : Nat} {live more : List Local}

theorem lower (h : Rises mid live high) (le : low ≤ mid) : Rises low live high := by
  cases h with
  | nil le' => exact .nil (le.trans le')
  | cons le' rest => exact .cons (le.trans le') rest

theorem raise (h : Rises low live mid) (le : mid ≤ high) : Rises low live high := by
  induction h with
  | nil le' => exact .nil (le'.trans le)
  | cons le' _ ih => exact .cons le' (ih le)

theorem append (h : Rises low live mid) (h' : Rises mid more high) : Rises low (live ++ more) high := by
  induction h with
  | nil le => exact h'.lower le
  | cons le _ ih => exact .cons le (ih h')

theorem relocate (h : Rises low live high) (offset : Nat) :
    Rises (low + offset) (live.map (.relocate offset)) (high + offset) := by
  induction h with
  | nil le => exact .nil (Nat.add_le_add_right le offset)
  | cons le _ ih => exact .cons (Nat.add_le_add_right le offset) (ih.lower (Nat.succ_add ..).ge)

theorem le_of_mem (h : Rises low live high) {l : Local} (mem : l ∈ live) : low ≤ l.index := by
  induction h with
  | nil _ => cases mem
  | cons le _ ih =>
      rcases List.mem_cons.mp mem with rfl | mem
      · exact le
      · exact le.trans ((Nat.le_succ _).trans (ih mem))

theorem nodup (h : Rises low live high) : (live.map Local.index).Nodup := by
  induction h with
  | nil _ => exact .nil
  | cons _ rest ih =>
      refine List.nodup_cons.mpr ⟨?_, ih⟩
      intro mem
      obtain ⟨k, mem, same⟩ := List.mem_map.mp mem
      exact absurd (rest.le_of_mem mem) (by omega)

end Rises

/-- The numbers of the locals in use rise from the first one, at the points of code as behind it, where the
second one is free. -/
structure Climbs (n : Nat) (after points : List (List Local)) (next : Nat) : Prop where
  after : ∀ live ∈ after, Rises n live next
  points : ∀ live ∈ points, ∃ high, Rises n live high

namespace Climbs

variable {n m next left right : Nat} {o : Outline} {rest first second : List Outline}

theorem nil (n : Nat) : Climbs n (Outline.afterAll []) (Outline.pointsAll []) n where
  after live mem := by
    cases List.mem_singleton.mp mem
    exact .nil le_rfl
  points live mem := by
    cases List.mem_singleton.mp mem
    exact ⟨n, .nil le_rfl⟩

/-- A point is before the first instruction, in it or behind it. -/
theorem cons (h : Climbs n o.after o.points m)
    (h' : Climbs m (Outline.afterAll rest) (Outline.pointsAll rest) next) :
    Climbs n (Outline.afterAll (o :: rest)) (Outline.pointsAll (o :: rest)) next where
  after live mem := by
    obtain ⟨own, before, more, behind, rfl⟩ := Outline.mem_chain.mp mem
    exact (h.after own before).append (h'.after more behind)
  points live mem := by
    rcases List.mem_cons.mp mem with rfl | mem
    · exact ⟨n, .nil le_rfl⟩
    · rcases List.mem_append.mp mem with inside | mem
      · exact h.points live inside
      · obtain ⟨own, before, more, behind, rfl⟩ := Outline.mem_chain.mp mem
        obtain ⟨high, risen⟩ := h'.points more behind
        exact ⟨high, (h.after own before).append risen⟩

theorem declare (d : Declaration) :
    Climbs d.slot.index (Outline.declare d).after (Outline.declare d).points (d.slot.index + 1) where
  after live mem := by
    cases List.mem_singleton.mp mem
    exact .cons le_rfl (.nil le_rfl)
  points live mem := by cases mem

theorem branch (h : Climbs n (Outline.afterAll first) (Outline.pointsAll first) left)
    (h' : Climbs n (Outline.afterAll second) (Outline.pointsAll second) right) :
    Climbs n (Outline.branch first second).after (Outline.branch first second).points
      (max (max n left) right) where
  after live mem := by
    rcases List.mem_append.mp mem with arm | arm
    · exact (h.after live arm).raise ((le_max_right ..).trans (le_max_left ..))
    · exact (h'.after live arm).raise (le_max_right ..)
  points live mem := by
    rcases List.mem_append.mp mem with arm | arm
    · exact h.points live arm
    · exact h'.points live arm

theorem loop (h : Climbs n (Outline.afterAll first) (Outline.pointsAll first) left)
    (h' : Climbs (max n left) (Outline.afterAll second) (Outline.pointsAll second) right) :
    Climbs n (Outline.loop first second).after (Outline.loop first second).points
      (max (max n left) right) where
  after live mem := by
    obtain ⟨condition, before, body, within, rfl⟩ := Outline.mem_chain.mp mem
    have risen : Rises n condition (max n left) := (h.after condition before).raise (le_max_right ..)
    exact risen.append ((h'.after body within).raise (le_max_right ..))
  points live mem := by
    rcases List.mem_append.mp mem with inCondition | mem
    · exact h.points live inCondition
    · obtain ⟨condition, before, body, within, rfl⟩ := Outline.mem_chain.mp mem
      obtain ⟨high, risen⟩ := h'.points body within
      exact ⟨high, ((h.after condition before).raise (le_max_right ..)).append risen⟩

theorem scope (h : Climbs n (Outline.afterAll first) (Outline.pointsAll first) left) :
    Climbs n (Outline.scope first).after (Outline.scope first).points n where
  after live mem := by
    cases List.mem_singleton.mp mem
    exact .nil le_rfl
  points live mem := h.points live mem

/-- The locals of a spliced sequence are numbered above those in use. -/
theorem splice (h : Climbs 0 (Outline.afterAll first) (Outline.pointsAll first) left) (n : Nat) :
    Climbs n (Outline.splice n first).after (Outline.splice n first).points n where
  after live mem := by
    cases List.mem_singleton.mp mem
    exact .nil le_rfl
  points live mem := by
    obtain ⟨inner, listed, rfl⟩ := List.mem_map.mp mem
    obtain ⟨high, risen⟩ := h.points inner listed
    have shifted := risen.relocate n
    rw [Nat.zero_add] at shifted
    exact ⟨_, shifted⟩

end Climbs

theorem Outline.Numbers.climbs {n next : Nat} {code : List Outline} (h : Outline.Numbers n code next) :
    Climbs n (Outline.afterAll code) (Outline.pointsAll code) next := by
  induction h with
  | nil n => exact .nil n
  | declare name type _ ih => exact (Climbs.declare ⟨name, _, type⟩).cons ih
  | branch _ _ _ thenIh elseIh ih => exact (thenIh.branch elseIh).cons ih
  | loop _ _ _ conditionIh bodyIh ih => exact (conditionIh.loop bodyIh).cons ih
  | scope _ _ bodyIh ih => exact bodyIh.scope.cons ih
  | splice _ _ innerIh ih => exact (innerIh.splice _).cons ih

/-- The program uses no other locals than those that it declares, in this region or in another. -/
def Sequence.UsesDeclared (s : Sequence) (code : List Outline) : Prop :=
  ∀ l ∈ Op.usesAll s.ops, ∃ d ∈ Outline.declaredAll code, d.slot = l

/-- Where a program uses its own locals only, and at most 65535 slots, the locals in use at a point have
different numbers, every number in its code is below the count of the sequence, and each scope carries the
locals that were declared in it. The count is at most 65535 as well, and no number on the way is above it, so
that all of them fit 16 bits. -/
theorem Sequence.Outlined.numbering {s : Sequence} {code : List Outline} (h : s.Outlined code)
    (own : s.UsesDeclared code) (few : ∀ d ∈ Outline.declaredAll code, d.slot.index < 65535) :
    (∀ live ∈ Outline.pointsAll code, (live.map Local.index).Nodup) ∧
      (∀ l ∈ Op.usesAll s.ops, l.index < s.maxLocals) ∧
      (∀ locals ∈ Op.scopesAll s.ops, ∀ d ∈ locals, d.slot.index < s.maxLocals) ∧
      Op.scopesAll s.ops = Outline.scopesAll code ∧ s.maxLocals ≤ 65535 := by
  obtain ⟨a, run, finish⟩ := h
  obtain ⟨ops, -, size, -⟩ := finish.eq
  have accounts := run.accounts
  have count := accounts.count le_rfl
  have scopes : Op.scopesAll s.ops = Outline.scopesAll code := by
    rw [ops]
    exact accounts.scopes
  have bounded : ∀ d ∈ Outline.declaredAll code, d.slot.index < s.maxLocals := by
    rw [size]
    exact ((count a.maxLocals).mp le_rfl).2
  refine ⟨?_, ?_, ?_, scopes, ?_⟩
  · intro live mem
    obtain ⟨high, risen⟩ := accounts.numbers.climbs.points live mem
    exact risen.nodup
  · intro l uses
    obtain ⟨d, mem, rfl⟩ := own l uses
    exact bounded d mem
  · intro locals mem d mem'
    rw [scopes] at mem
    exact bounded d (Outline.mem_declaredAll_of_scopes mem mem')
  · rw [size]
    exact (count 65535).mpr ⟨Nat.zero_le _, few⟩

def Sequence.stashed : Sequence :=
  { ops := [.push (.long 7), .store ⟨0, .long⟩, .load ⟨0, .long⟩]
    inputs := []
    output := some .long
    nonNull := true
    maxLocals := 1 }

/-- Two arms that share a number, a loop that declares in its body, and a spliced sequence, in one scope. -/
def Sequence.nested : Sequence :=
  { ops :=
      [.scope [⟨"flag", ⟨0, .int⟩⟩, ⟨"other", ⟨0, .long⟩⟩, ⟨"step", ⟨1, .int⟩⟩, ⟨"last", ⟨2, .long⟩⟩]
        [.branch .isTrue [] [], .loop [.push (.bool false)] .isTrue [],
          .push (.long 7), .store ⟨2, .long⟩, .load ⟨2, .long⟩, .store ⟨2, .long⟩]]
    inputs := [.bool]
    output := none
    nonNull := false
    maxLocals := 3 }

def Sequence.nestedOutline : List Outline :=
  [.scope
    [.branch [.declare ⟨"flag", ⟨0, .int⟩⟩] [.declare ⟨"other", ⟨0, .long⟩⟩],
      .loop [] [.declare ⟨"step", ⟨1, .int⟩⟩], .splice 2 [.declare ⟨"kept", ⟨0, .long⟩⟩],
      .declare ⟨"last", ⟨2, .long⟩⟩]]

theorem Sequence.stashed_outlined : stashed.Outlined [.declare ⟨"kept", ⟨0, .long⟩⟩] := by
  have declared : MessageCode.Outlined (.start []) [.declare ⟨"kept", ⟨0, .long⟩⟩] _ :=
    .declare "kept" .long (.start _) rfl
  have pushed := declared.call (.push (.long 7)) rfl
  have stored := pushed.call (.store ⟨0, .long⟩) rfl
  exact ⟨_, stored.call (.load ⟨0, .long⟩) rfl, .inl ⟨true, rfl⟩⟩

theorem Sequence.nested_outlined : nested.Outlined nestedOutline := by
  obtain ⟨inner, kept, finish⟩ := stashed_outlined
  have flag : MessageCode.Outlined ⟨[], [], [], 0, 0, []⟩ [.declare ⟨"flag", ⟨0, .int⟩⟩]
      ⟨[], [], [], 1, 1, [⟨"flag", ⟨0, .int⟩⟩]⟩ := .declare "flag" .int (.start _) rfl
  have other : MessageCode.Outlined ⟨[], [], [], 0, 0, []⟩ [.declare ⟨"other", ⟨0, .long⟩⟩]
      ⟨[], [], [], 1, 1, [⟨"other", ⟨0, .long⟩⟩]⟩ := .declare "other" .long (.start _) rfl
  have branched : MessageCode.Outlined ⟨[], [], [.bool], 0, 0, []⟩ _
      ⟨[.branch .isTrue [] []], [], [], 1, 1, [⟨"flag", ⟨0, .int⟩⟩, ⟨"other", ⟨0, .long⟩⟩]⟩ :=
    (MessageCode.Outlined.start _).branch .isTrue rfl flag other rfl
  have condition : MessageCode.Outlined ⟨[], [], [], 1, 1, []⟩ []
      ⟨[.push (.bool false)], [], [.bool], 1, 1, []⟩ := .call (.push (.bool false)) (.start _) rfl
  have step : MessageCode.Outlined ⟨[], [], [], 1, 1, []⟩ [.declare ⟨"step", ⟨1, .int⟩⟩]
      ⟨[], [], [], 2, 2, [⟨"step", ⟨1, .int⟩⟩]⟩ := .declare "step" .int (.start _) rfl
  have looped : MessageCode.Outlined ⟨[], [], [.bool], 0, 0, []⟩ _
      ⟨[.branch .isTrue [] [], .loop [.push (.bool false)] .isTrue []], [], [], 2, 2,
        [⟨"flag", ⟨0, .int⟩⟩, ⟨"other", ⟨0, .long⟩⟩, ⟨"step", ⟨1, .int⟩⟩]⟩ :=
    branched.loop .isTrue condition rfl step rfl
  have spliced := looped.append stashed kept finish rfl
  have stored := (spliced.declare "last" .long rfl).call (.store ⟨2, .long⟩) rfl
  exact ⟨_, (MessageCode.Outlined.start (Assembly.start [.bool])).scope stored rfl, .inr rfl⟩

/-- Behind the branch, if it went the second way, and up to the end of the scope three locals are in use. -/
theorem Sequence.nested_numbering :
    [⟨0, .long⟩, ⟨1, .int⟩, ⟨2, .long⟩] ∈ Outline.pointsAll nestedOutline ∧
      (([⟨0, .long⟩, ⟨1, .int⟩, ⟨2, .long⟩] : List Local).map Local.index).Nodup ∧
      (∀ l ∈ Op.usesAll nested.ops, l.index < 3) ∧
      Op.scopesAll nested.ops = Outline.scopesAll nestedOutline ∧ nested.maxLocals ≤ 65535 := by
  have own : nested.UsesDeclared nestedOutline := by
    unfold UsesDeclared
    decide
  have few : ∀ d ∈ Outline.declaredAll nestedOutline, d.slot.index < 65535 := by decide
  have at_end : [⟨0, .long⟩, ⟨1, .int⟩, ⟨2, .long⟩] ∈ Outline.pointsAll nestedOutline := by decide
  obtain ⟨points, uses, -, scopes, size⟩ := Sequence.Outlined.numbering nested_outlined own few
  exact ⟨at_end, points _ at_end, uses, scopes, size⟩

end MessageCode
