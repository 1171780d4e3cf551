import MessageCode.Proofs.Code.Assembled
import Mathlib.Data.Nat.Basic
import Mathlib.Order.MinMax

/-!
Outlines of programs: what a program declares, and in which of its regions. The numbers of the locals, their
count, the list of declared locals and the lists that scopes carry all follow from the outline.
-/

namespace MessageCode

/-- What a program declares at one place: a local, or those of the regions of an instruction. -/
inductive Outline where
  | declare (d : Declaration)
  | branch (thenArm elseArm : List Outline)
  | loop (condition body : List Outline)
  | scope (body : List Outline)
  /-- A finished sequence, spliced with its locals shifted by the offset. Behind it they are free again. -/
  | splice (offset : Nat) (inner : List Outline)

namespace Outline

mutual

/-- The locals that stay declared behind it, until the scope around it ends. -/
def kept : Outline → List Declaration
  | .declare d => [d]
  | .branch thenArm elseArm => keptAll thenArm ++ keptAll elseArm
  | .loop condition body => keptAll condition ++ keptAll body
  | .scope _ => []
  | .splice _ _ => []

def keptAll : List Outline → List Declaration
  | [] => []
  | o :: rest => o.kept ++ keptAll rest

end

mutual

def declared : Outline → List Declaration
  | .declare d => [d]
  | .branch thenArm elseArm => declaredAll thenArm ++ declaredAll elseArm
  | .loop condition body => declaredAll condition ++ declaredAll body
  | .scope body => declaredAll body
  | .splice offset inner => (declaredAll inner).map (.relocate offset)

def declaredAll : List Outline → List Declaration
  | [] => []
  | o :: rest => o.declared ++ declaredAll rest

end

mutual

/-- For each scope in it the locals that are declared in the scope, outside of inner scopes and of spliced
sequences. -/
def scopes : Outline → List (List Declaration)
  | .declare _ => []
  | .branch thenArm elseArm => scopesAll thenArm ++ scopesAll elseArm
  | .loop condition body => scopesAll condition ++ scopesAll body
  | .scope body => keptAll body :: scopesAll body
  | .splice offset inner => (scopesAll inner).map (List.map (.relocate offset))

def scopesAll : List Outline → List (List Declaration)
  | [] => []
  | o :: rest => o.scopes ++ scopesAll rest

end

def chain (firsts seconds : List (List Local)) : List (List Local) :=
  firsts.flatMap fun first => seconds.map (first ++ ·)

theorem mem_chain {firsts seconds : List (List Local)} {live : List Local} :
    live ∈ chain firsts seconds ↔ ∃ first ∈ firsts, ∃ second ∈ seconds, first ++ second = live := by
  simp only [chain, List.mem_flatMap, List.mem_map]

mutual

/-- The locals in use behind it, a list for each way through its branches. -/
def after : Outline → List (List Local)
  | .declare d => [[d.slot]]
  | .branch thenArm elseArm => afterAll thenArm ++ afterAll elseArm
  | .loop condition body => chain (afterAll condition) (afterAll body)
  | .scope _ => [[]]
  | .splice _ _ => [[]]

def afterAll : List Outline → List (List Local)
  | [] => [[]]
  | o :: rest => chain o.after (afterAll rest)

end

mutual

/-- The locals in use at each point inside, a list for each way through the branches before the point. So
two locals in use at a point are on one list unless opposite arms of a branch declare them. -/
def points : Outline → List (List Local)
  | .declare _ => []
  | .branch thenArm elseArm => pointsAll thenArm ++ pointsAll elseArm
  | .loop condition body => pointsAll condition ++ chain (afterAll condition) (pointsAll body)
  | .scope body => pointsAll body
  | .splice offset inner => (pointsAll inner).map (List.map (.relocate offset))

def pointsAll : List Outline → List (List Local)
  | [] => [[]]
  | o :: rest => [] :: o.points ++ chain o.after (pointsAll rest)

end

@[simp] theorem keptAll_append (code more : List Outline) :
    keptAll (code ++ more) = keptAll code ++ keptAll more := by
  induction code with
  | nil => rfl
  | cons o code ih => simp [keptAll, ih]

@[simp] theorem declaredAll_append (code more : List Outline) :
    declaredAll (code ++ more) = declaredAll code ++ declaredAll more := by
  induction code with
  | nil => rfl
  | cons o code ih => simp [declaredAll, ih]

@[simp] theorem scopesAll_append (code more : List Outline) :
    scopesAll (code ++ more) = scopesAll code ++ scopesAll more := by
  induction code with
  | nil => rfl
  | cons o code ih => simp [scopesAll, ih]

mutual

theorem mem_declared_of_kept {o : Outline} {d : Declaration} (mem : d ∈ o.kept) : d ∈ o.declared := by
  cases o with
  | declare k => exact mem
  | branch thenArm elseArm =>
      exact List.mem_append.mpr ((List.mem_append.mp mem).imp mem_declaredAll_of_kept mem_declaredAll_of_kept)
  | loop condition body =>
      exact List.mem_append.mpr ((List.mem_append.mp mem).imp mem_declaredAll_of_kept mem_declaredAll_of_kept)
  | scope body => cases mem
  | splice offset inner => cases mem

theorem mem_declaredAll_of_kept {code : List Outline} {d : Declaration} (mem : d ∈ keptAll code) :
    d ∈ declaredAll code := by
  cases code with
  | nil => cases mem
  | cons o rest =>
      exact List.mem_append.mpr ((List.mem_append.mp mem).imp mem_declared_of_kept mem_declaredAll_of_kept)

end

mutual

theorem mem_declared_of_scopes {o : Outline} {locals : List Declaration} {d : Declaration}
    (mem : locals ∈ o.scopes) (mem' : d ∈ locals) : d ∈ o.declared := by
  cases o with
  | declare k => cases mem
  | branch thenArm elseArm =>
      exact List.mem_append.mpr ((List.mem_append.mp mem).imp
        (mem_declaredAll_of_scopes · mem') (mem_declaredAll_of_scopes · mem'))
  | loop condition body =>
      exact List.mem_append.mpr ((List.mem_append.mp mem).imp
        (mem_declaredAll_of_scopes · mem') (mem_declaredAll_of_scopes · mem'))
  | scope body =>
      rcases List.mem_cons.mp mem with rfl | mem
      · exact mem_declaredAll_of_kept mem'
      · exact mem_declaredAll_of_scopes mem mem'
  | splice offset inner =>
      obtain ⟨own, listed, rfl⟩ := List.mem_map.mp mem
      obtain ⟨k, isOwn, rfl⟩ := List.mem_map.mp mem'
      exact List.mem_map_of_mem (mem_declaredAll_of_scopes listed isOwn)

theorem mem_declaredAll_of_scopes {code : List Outline} {locals : List Declaration} {d : Declaration}
    (mem : locals ∈ scopesAll code) (mem' : d ∈ locals) : d ∈ declaredAll code := by
  cases code with
  | nil => cases mem
  | cons o rest =>
      exact List.mem_append.mpr ((List.mem_append.mp mem).imp
        (mem_declared_of_scopes · mem') (mem_declaredAll_of_scopes · mem'))

end

mutual

theorem exists_after (o : Outline) : ∃ live, live ∈ o.after := by
  cases o with
  | declare d => exact ⟨_, List.mem_singleton_self _⟩
  | branch thenArm elseArm =>
      obtain ⟨live, mem⟩ := exists_afterAll thenArm
      exact ⟨live, List.mem_append_left _ mem⟩
  | loop condition body =>
      obtain ⟨first, before⟩ := exists_afterAll condition
      obtain ⟨second, within⟩ := exists_afterAll body
      exact ⟨_, mem_chain.mpr ⟨first, before, second, within, rfl⟩⟩
  | scope body => exact ⟨_, List.mem_singleton_self _⟩
  | splice offset inner => exact ⟨_, List.mem_singleton_self _⟩

theorem exists_afterAll (code : List Outline) : ∃ live, live ∈ afterAll code := by
  cases code with
  | nil => exact ⟨_, List.mem_singleton_self _⟩
  | cons o rest =>
      obtain ⟨first, before⟩ := exists_after o
      obtain ⟨second, behind⟩ := exists_afterAll rest
      exact ⟨_, mem_chain.mpr ⟨first, before, second, behind, rfl⟩⟩

end

/-- What is on a list of either side is on a list of the chain, if the other side has a list at all. -/
theorem exists_chain {firsts seconds : List (List Local)} {l : Local}
    (oneBefore : ∃ first, first ∈ firsts) (oneBehind : ∃ second, second ∈ seconds)
    (mem : (∃ first ∈ firsts, l ∈ first) ∨ ∃ second ∈ seconds, l ∈ second) :
    ∃ live ∈ chain firsts seconds, l ∈ live := by
  rcases mem with ⟨first, before, mem⟩ | ⟨second, behind, mem⟩
  · obtain ⟨second, behind⟩ := oneBehind
    exact ⟨_, mem_chain.mpr ⟨first, before, second, behind, rfl⟩, List.mem_append_left _ mem⟩
  · obtain ⟨first, before⟩ := oneBefore
    exact ⟨_, mem_chain.mpr ⟨first, before, second, behind, rfl⟩, List.mem_append_right _ mem⟩

mutual

/-- A local that stays declared is in use behind it, on some way through the branches. -/
theorem exists_after_of_kept {o : Outline} {d : Declaration} (mem : d ∈ o.kept) :
    ∃ live ∈ o.after, d.slot ∈ live := by
  cases o with
  | declare k =>
      cases List.mem_singleton.mp mem
      exact ⟨_, List.mem_singleton_self _, List.mem_singleton_self _⟩
  | branch thenArm elseArm =>
      rcases List.mem_append.mp mem with arm | arm
      · obtain ⟨live, listed, mem⟩ := exists_afterAll_of_kept arm
        exact ⟨live, List.mem_append_left _ listed, mem⟩
      · obtain ⟨live, listed, mem⟩ := exists_afterAll_of_kept arm
        exact ⟨live, List.mem_append_right _ listed, mem⟩
  | loop condition body =>
      exact exists_chain (exists_afterAll condition) (exists_afterAll body)
        ((List.mem_append.mp mem).imp exists_afterAll_of_kept exists_afterAll_of_kept)
  | scope body => cases mem
  | splice offset inner => cases mem

theorem exists_afterAll_of_kept {code : List Outline} {d : Declaration} (mem : d ∈ keptAll code) :
    ∃ live ∈ afterAll code, d.slot ∈ live := by
  cases code with
  | nil => cases mem
  | cons o rest =>
      exact exists_chain (exists_after o) (exists_afterAll rest)
        ((List.mem_append.mp mem).imp exists_after_of_kept exists_afterAll_of_kept)

end

theorem append_mem_pointsAll {code more : List Outline} {before live : List Local}
    (first : before ∈ afterAll code) (mem : live ∈ pointsAll more) :
    before ++ live ∈ pointsAll (code ++ more) := by
  induction code generalizing before with
  | nil =>
      cases List.mem_singleton.mp first
      exact mem
  | cons o code ih =>
      obtain ⟨own, listed, rest, behind, rfl⟩ := mem_chain.mp first
      have inside : own ++ (rest ++ live) ∈ chain o.after (pointsAll (code ++ more)) :=
        mem_chain.mpr ⟨own, listed, _, ih behind, rfl⟩
      rw [List.append_assoc]
      exact List.mem_cons_of_mem _ (List.mem_append_right _ inside)

/-- Two locals that stay declared at two places of a region are in use together. -/
theorem exists_point_of_kept {code more : List Outline} {d d' : Declaration} (mem : d ∈ keptAll code)
    (mem' : d' ∈ keptAll more) : ∃ live ∈ pointsAll (code ++ more), d.slot ∈ live ∧ d'.slot ∈ live := by
  obtain ⟨before, listed, mem⟩ := exists_afterAll_of_kept mem
  obtain ⟨behind, listed', mem'⟩ := exists_afterAll_of_kept mem'
  have point : behind ∈ pointsAll (more ++ []) :=
    List.append_nil behind ▸ append_mem_pointsAll listed' (List.mem_singleton_self _)
  rw [List.append_nil] at point
  exact ⟨_, append_mem_pointsAll listed point, List.mem_append_left _ mem, List.mem_append_right _ mem'⟩

/-- The locals of the code are numbered from the first number on, and the second comes next. Both arms of a
branch start with the same number, a scope gives its numbers back, and a spliced sequence has its own. -/
inductive Numbers : Nat → List Outline → Nat → Prop
  | nil (n) : Numbers n [] n
  | declare {n rest next} (name type) : Numbers (n + 1) rest next →
      Numbers n (.declare ⟨name, ⟨n, type⟩⟩ :: rest) next
  | branch {n thenArm left elseArm right rest next} : Numbers n thenArm left →
      Numbers n elseArm right → Numbers (max (max n left) right) rest next →
      Numbers n (.branch thenArm elseArm :: rest) next
  | loop {n condition first body second rest next} : Numbers n condition first →
      Numbers (max n first) body second → Numbers (max (max n first) second) rest next →
      Numbers n (.loop condition body :: rest) next
  | scope {n body last rest next} : Numbers n body last → Numbers n rest next →
      Numbers n (.scope body :: rest) next
  | splice {n inner last rest next} : Numbers 0 inner last → Numbers n rest next →
      Numbers n (.splice n inner :: rest) next

namespace Numbers

variable {n m next : Nat} {code more : List Outline}

theorem le (h : Numbers n code next) : n ≤ next := by
  induction h with
  | nil n => exact le_rfl
  | declare _ _ _ ih => exact (Nat.le_succ _).trans ih
  | branch _ _ _ _ _ ih => exact ((le_max_left ..).trans (le_max_left ..)).trans ih
  | loop _ _ _ _ _ ih => exact ((le_max_left ..).trans (le_max_left ..)).trans ih
  | scope _ _ _ ih => exact ih
  | splice _ _ _ ih => exact ih

theorem append (h : Numbers n code m) (h' : Numbers m more next) : Numbers n (code ++ more) next := by
  induction h with
  | nil n => exact h'
  | declare name type _ ih => exact .declare name type (ih h')
  | branch thenArm elseArm _ _ _ ih => exact .branch thenArm elseArm (ih h')
  | loop condition body _ _ _ ih => exact .loop condition body (ih h')
  | scope body _ _ ih => exact .scope body (ih h')
  | splice inner _ _ ih => exact .splice inner (ih h')

end Numbers

end Outline

namespace Op

mutual

def uses : Op → List Local
  | .load l => [l]
  | .store l => [l]
  | .increment l _ => [l]
  | .branch _ thenOps elseOps => usesAll thenOps ++ usesAll elseOps
  | .loop condition _ body => usesAll condition ++ usesAll body
  | .scope _ body => usesAll body
  | _ => []

def usesAll : List Op → List Local
  | [] => []
  | op :: rest => op.uses ++ usesAll rest

end

mutual

def scopes : Op → List (List Declaration)
  | .branch _ thenOps elseOps => scopesAll thenOps ++ scopesAll elseOps
  | .loop condition _ body => scopesAll condition ++ scopesAll body
  | .scope locals body => locals :: scopesAll body
  | _ => []

def scopesAll : List Op → List (List Declaration)
  | [] => []
  | op :: rest => op.scopes ++ scopesAll rest

end

@[simp] theorem scopesAll_append (code more : List Op) :
    scopesAll (code ++ more) = scopesAll code ++ scopesAll more := by
  induction code with
  | nil => rfl
  | cons op code ih => simp [scopesAll, ih]

theorem Effect.scopes_eq {op : Op} {before after : List NativeType} (h : op.Effect before after) :
    op.scopes = [] := by
  cases h <;> rfl

mutual

theorem scopes_relocate (offset : Nat) (op : Op) :
    (op.relocate offset).scopes = op.scopes.map (List.map (.relocate offset)) := by
  cases op with
  | branch test thenOps elseOps =>
      simp only [relocate, scopes, scopesAll_relocate offset thenOps, scopesAll_relocate offset elseOps,
        List.map_append]
  | loop condition test body =>
      simp only [relocate, scopes, scopesAll_relocate offset condition, scopesAll_relocate offset body,
        List.map_append]
  | scope locals body => simp only [relocate, scopes, scopesAll_relocate offset body, List.map_cons]
  | _ => rfl

theorem scopesAll_relocate (offset : Nat) (code : List Op) :
    scopesAll (relocateAll offset code) = (scopesAll code).map (List.map (.relocate offset)) := by
  cases code with
  | nil => rfl
  | cons op rest =>
      simp only [relocateAll, scopesAll, scopes_relocate offset op, scopesAll_relocate offset rest,
        List.map_append]

end

end Op

/-- Runs of the assembler in which every call succeeds, with the outline of what they declare. -/
inductive Outlined : Assembly → List Outline → Assembly → Prop
  | start (a) : Outlined a [] a
  | call {a₀ code a a'} (d : Directive) : Outlined a₀ code a →
      (d.write : Assembler EmitError Unit).run a = (.ok (), a') → Outlined a₀ code a'
  | declare {a₀ code a a' l} (name : String) (type : NativeType) : Outlined a₀ code a →
      (Assembler.declareLocal name type : Assembler EmitError Local).run a = (.ok l, a') →
      Outlined a₀ (code ++ [.declare ⟨name, l⟩]) a'
  | append {a₀ code a inner b a'} (s : Sequence) : Outlined a₀ code a →
      Outlined (.start s.inputs) inner b → b.Finishes s →
      (Assembler.append s : Assembler EmitError Unit).run a = (.ok (), a') →
      Outlined a₀ (code ++ [.splice a.nextLocal inner]) a'
  | branch {a₀ code a b thenCode thenArm elseCode elseArm a'} (test : Test) : Outlined a₀ code a →
      (Assembler.popTest test : Assembler EmitError Unit).run a = (.ok (), b) →
      Outlined b.fork thenCode thenArm → Outlined b.fork elseCode elseArm →
      (Assembler.joinArms test thenArm elseArm : Assembler EmitError Unit).run b = (.ok (), a') →
      Outlined a₀ (code ++ [.branch thenCode elseCode]) a'
  | loop {a₀ code a conditionCode condition conditionOps b bodyCode body a'} (test : Test) :
      Outlined a₀ code a → Outlined a.fork conditionCode condition →
      (Assembler.closeCondition condition test : Assembler EmitError (List Op)).run a
        = (.ok conditionOps, b) →
      Outlined b.fork bodyCode body →
      (Assembler.closeLoop conditionOps test body : Assembler EmitError Unit).run b
        = (.ok (), a') →
      Outlined a₀ (code ++ [.loop conditionCode bodyCode]) a'
  | scope {a₀ code a bodyCode body a'} : Outlined a₀ code a → Outlined a.fork bodyCode body →
      (Assembler.closeScope body : Assembler EmitError Unit).run a = (.ok (), a') →
      Outlined a₀ (code ++ [.scope bodyCode]) a'

/-- A sequence that a program for the assembler finished, with the outline of the program. -/
def Sequence.Outlined (s : Sequence) (code : List Outline) : Prop :=
  ∃ a, MessageCode.Outlined (.start s.inputs) code a ∧ a.Finishes s

/-- Every run in which all calls succeed has an outline. -/
theorem Assembled.exists_outline {use : LocalUse} {a₀ a : Assembly} {seen₀ seen : List Local}
    {record : List Recorded} (h : Assembled use a₀ seen₀ record a seen) :
    ∃ code, Outlined a₀ code a := by
  induction h with
  | start a seen => exact ⟨[], .start a⟩
  | call d _ _ written ih =>
      obtain ⟨code, run⟩ := ih
      exact ⟨code, run.call d written⟩
  | declare name type _ declared ih =>
      obtain ⟨code, run⟩ := ih
      exact ⟨_, run.declare name type declared⟩
  | append s _ _ finish appended ih innerIh =>
      obtain ⟨code, run⟩ := ih
      obtain ⟨inner, run'⟩ := innerIh
      exact ⟨_, run.append s run' finish appended⟩
  | branch test _ tested _ _ joined ih thenIh elseIh =>
      obtain ⟨code, run⟩ := ih
      obtain ⟨thenCode, thenRun⟩ := thenIh
      obtain ⟨elseCode, elseRun⟩ := elseIh
      exact ⟨_, run.branch test tested thenRun elseRun joined⟩
  | loop test _ _ closed _ closed' ih conditionIh bodyIh =>
      obtain ⟨code, run⟩ := ih
      obtain ⟨conditionCode, conditionRun⟩ := conditionIh
      obtain ⟨bodyCode, bodyRun⟩ := bodyIh
      exact ⟨_, run.loop test conditionRun closed bodyRun closed'⟩
  | scope _ _ closed ih bodyIh =>
      obtain ⟨code, run⟩ := ih
      obtain ⟨bodyCode, bodyRun⟩ := bodyIh
      exact ⟨_, run.scope bodyRun closed⟩

end MessageCode
