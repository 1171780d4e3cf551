import MessageCode.Code.Listing
import Mathlib.Data.List.Nodup
import Mathlib.Data.List.Perm.Basic

/-!
Labels of listings. Every branch and every loop has two labels of its own, which are marked once, and
jumps go to marked labels only, so that flat code cannot jump out of itself either.
-/

namespace MessageCode

namespace Line

def label? : Line → Option Nat
  | .mark label => some label
  | _ => none

def target? : Line → Option Nat
  | .jumpIf _ label | .jumpUnless _ label | .jump label => some label
  | _ => none

def marks (lines : List Line) : List Nat := lines.filterMap label?

@[simp] theorem marks_nil : marks [] = [] := rfl

@[simp] theorem marks_append (lines more : List Line) : marks (lines ++ more) = marks lines ++ marks more :=
  List.filterMap_append

@[simp] theorem marks_cons (line : Line) (lines : List Line) :
    marks (line :: lines) = line.label?.toList ++ marks lines := by
  cases line <;> rfl

theorem mem_marks {label : Nat} {lines : List Line} : label ∈ marks lines ↔ .mark label ∈ lines := by
  rw [marks, List.mem_filterMap]
  constructor
  · rintro ⟨line, mem, same⟩
    cases line with
    | mark l =>
        cases same
        exact mem
    | _ => cases same
  · exact fun mem => ⟨_, mem, rfl⟩

/-- The lines from the position of a label on. -/
def seek (label : Nat) : List Line → Option (List Line)
  | [] => none
  | line :: rest => if line.label? = some label then some (line :: rest) else seek label rest

theorem seek_suffix {program rest : List Line} {label : Nat} (once : (marks program).Nodup)
    (suffix : (.mark label :: rest) <:+ program) : seek label program = some (.mark label :: rest) := by
  obtain ⟨before, rfl⟩ := suffix
  induction before with
  | nil => exact if_pos rfl
  | cons line before ih =>
      rw [List.cons_append, marks_cons] at once
      have other : line.label? ≠ some label := by
        intro same
        rw [same] at once
        have fresh := (List.nodup_cons.mp once).1
        exact fresh (mem_marks.mpr (by simp))
      rw [List.cons_append, seek, if_neg other]
      exact ih once.of_append_right

end Line

mutual

/-- The number of branches and loops, those inside regions included. -/
def Op.forks : Op → Nat
  | .branch _ thenOps elseOps => 1 + Op.forksAll thenOps + Op.forksAll elseOps
  | .loop condition _ body => 1 + Op.forksAll condition + Op.forksAll body
  | .scope _ body => Op.forksAll body
  | _ => 0

def Op.forksAll : List Op → Nat
  | [] => 0
  | op :: rest => op.forks + Op.forksAll rest

end

def Op.isPlain : Op → Bool
  | .branch .. | .loop .. | .scope .. => false
  | _ => true

/-- Flat code of a number of branches and loops: it marks their labels, the first of which is given, each
of them once, jumps to no others, and has no instruction with regions left. -/
structure Labelled (free forks : Nat) (lines : List Line) : Prop where
  marks : (Line.marks lines).Perm (List.range' free (2 * forks))
  targets : ∀ line ∈ lines, ∀ label, line.target? = some label → Line.mark label ∈ lines
  plain : ∀ op, Line.plain op ∈ lines → op.isPlain = true

namespace Labelled

variable {free a b : Nat} {lines more : List Line}

theorem nil (free : Nat) : Labelled free 0 [] := ⟨.refl _, nofun, nofun⟩

theorem append (h : Labelled free a lines) (h' : Labelled (free + 2 * a) b more) :
    Labelled free (a + b) (lines ++ more) where
  marks := by
    rw [Line.marks_append, Nat.mul_add, ← List.range'_append_1]
    exact h.marks.append h'.marks
  targets line mem label target := by
    rcases List.mem_append.mp mem with mem | mem
    · exact List.mem_append_left _ (h.targets line mem label target)
    · exact List.mem_append_right _ (h'.targets line mem label target)
  plain op mem := by
    rcases List.mem_append.mp mem with mem | mem
    · exact h.plain op mem
    · exact h'.plain op mem

theorem single {op : Op} (plain : op.isPlain = true) (free : Nat) : Labelled free 0 [.plain op] := by
  refine ⟨.refl _, ?_, ?_⟩
  · intro line mem label target
    obtain rfl := List.mem_singleton.mp mem
    cases target
  · intro op' mem
    cases List.mem_singleton.mp mem
    exact plain

/-- Two labels more than those of two parts, each of them marked once among lines that jump nowhere else
and have the instructions of the parts. -/
theorem fork (h : Labelled (free + 2) a lines) (h' : Labelled (free + 2 + 2 * a) b more)
    {whole : List Line}
    (marks : (Line.marks whole).Perm (free :: (free + 1) :: (Line.marks lines ++ Line.marks more)))
    (mem : ∀ line ∈ whole, line ∈ lines ∨ line ∈ more ∨
      (line.target? = none ∨ line.target? = some free ∨ line.target? = some (free + 1)) ∧
        ∀ op, line ≠ .plain op) :
    Labelled free (1 + a + b) whole := by
  have inner := (h.append h').marks
  rw [Line.marks_append] at inner
  have labels : (Line.marks whole).Perm (List.range' free (2 * (1 + a + b))) := by
    have count : 2 * (1 + a + b) = 2 * (a + b) + 1 + 1 := by omega
    rw [count, List.range'_succ, List.range'_succ]
    exact marks.trans ((inner.cons _).cons _)
  have found (label : Nat) (of : label ∈ Line.marks lines ∨ label ∈ Line.marks more ∨ label = free ∨
      label = free + 1) : Line.mark label ∈ whole := by
    rw [← Line.mem_marks, marks.mem_iff]
    simp only [List.mem_cons, List.mem_append]
    tauto
  refine ⟨labels, ?_, ?_⟩
  · intro line of label target
    rcases mem line of with of | of | ⟨of, -⟩
    · exact found label (.inl (Line.mem_marks.mpr (h.targets line of label target)))
    · exact found label (.inr (.inl (Line.mem_marks.mpr (h'.targets line of label target))))
    · rw [target] at of
      exact found label (.inr (.inr (by simpa using of)))
  · intro op of
    rcases mem _ of with of | of | ⟨-, other⟩
    · exact h.plain op of
    · exact h'.plain op of
    · exact absurd rfl (other op)

/-- The lines of declarations and releases have no labels. -/
theorem scope (h : Labelled free a lines) (locals : List Declaration) :
    Labelled free a (locals.map .declare ++ lines ++ locals.map .release) := by
  have unlabelled (make : Declaration → Line) (apart : ∀ d, (make d).label? = none ∧
      (make d).target? = none ∧ ∀ op, make d ≠ .plain op) (free : Nat) :
      Labelled free 0 (locals.map make) := by
    refine ⟨?_, ?_, ?_⟩
    · have marks : Line.marks (locals.map make) = [] := by simp [Line.marks, apart]
      rw [marks]
      exact .refl _
    · intro line mem label target
      obtain ⟨d, -, rfl⟩ := List.mem_map.mp mem
      rw [(apart d).2.1] at target
      cases target
    · intro op mem
      obtain ⟨d, -, same⟩ := List.mem_map.mp mem
      exact absurd same ((apart d).2.2 op)
  have declares := unlabelled .declare (fun d => ⟨rfl, rfl, nofun⟩) free
  have releases (free : Nat) := unlabelled .release (fun d => ⟨rfl, rfl, nofun⟩) free
  have whole := (declares.append h).append (releases _)
  rwa [Nat.add_zero, Nat.zero_add] at whole

end Labelled

namespace Op

mutual

/-- The flat code of an instruction uses two labels for each of its branches and loops. -/
theorem flatten_labelled (free : Nat) : ∀ op : Op,
    (op.flatten free).2 = free + 2 * op.forks ∧ Labelled free op.forks (op.flatten free).1
  | .branch test thenOps elseOps => by
      obtain ⟨next, elseLines⟩ := flattenAll_labelled (free + 2) elseOps
      obtain ⟨last, thenLines⟩ := flattenAll_labelled (flattenAll (free + 2) elseOps).2 thenOps
      rw [next] at thenLines last
      rw [flatten, forks]
      dsimp only
      have count : 1 + forksAll thenOps + forksAll elseOps = 1 + forksAll elseOps + forksAll thenOps :=
        Nat.add_right_comm ..
      rw [next, last, count]
      refine ⟨by omega, elseLines.fork thenLines ?_ ?_⟩
      · simp only [Line.marks_append, Line.marks_cons, Line.marks_nil, Line.label?, Option.toList,
          List.nil_append, List.cons_append, List.append_nil, List.append_assoc]
        refine List.perm_middle.trans (.cons _ ?_)
        rw [← List.append_assoc]
        exact List.perm_append_singleton ..
      · intro line of
        simp only [List.cons_append, List.append_assoc, List.mem_append, List.mem_cons,
          List.not_mem_nil, or_false] at of
        rcases of with rfl | of | rfl | rfl | of | rfl <;> simp [Line.target?, *]
  | .loop condition test body => by
      obtain ⟨next, conditionLines⟩ := flattenAll_labelled (free + 2) condition
      obtain ⟨last, bodyLines⟩ := flattenAll_labelled (flattenAll (free + 2) condition).2 body
      rw [next] at bodyLines last
      rw [flatten, forks]
      dsimp only
      rw [next, last]
      refine ⟨by omega, conditionLines.fork bodyLines ?_ ?_⟩
      · simp only [Line.marks_append, Line.marks_cons, Line.marks_nil, Line.label?, Option.toList,
          List.nil_append, List.cons_append, List.append_nil, List.append_assoc]
        refine .cons _ ?_
        rw [← List.append_assoc]
        exact List.perm_append_singleton ..
      · intro line of
        simp only [List.cons_append, List.append_assoc, List.mem_append, List.mem_cons,
          List.not_mem_nil, or_false] at of
        rcases of with rfl | of | rfl | of | rfl | rfl <;> simp [Line.target?, *]
  | .scope locals body => by
      obtain ⟨next, bodyLines⟩ := flattenAll_labelled free body
      rw [flatten, forks]
      exact ⟨next, bodyLines.scope locals⟩
  | .push _ | .dup | .pop | .swap | .load _ | .store _ | .increment .. | .invoke _ | .suspend _
  | .getStatic _ | .convert .. | .checkCast _ | .box _ => ⟨rfl, .single rfl free⟩

theorem flattenAll_labelled (free : Nat) : ∀ ops : List Op,
    (flattenAll free ops).2 = free + 2 * forksAll ops ∧ Labelled free (forksAll ops) (flattenAll free ops).1
  | [] => ⟨rfl, .nil free⟩
  | op :: rest => by
      obtain ⟨next, lines⟩ := flatten_labelled free op
      obtain ⟨last, more⟩ := flattenAll_labelled (op.flatten free).2 rest
      rw [next] at more last
      rw [flattenAll, forksAll]
      dsimp only
      rw [next, last]
      exact ⟨by omega, lines.append more⟩

end

end Op

end MessageCode
