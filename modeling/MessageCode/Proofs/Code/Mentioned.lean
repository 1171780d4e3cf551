import Mathlib.Data.Nat.Basic
import Mathlib.Order.MinMax
import MessageCode.Proofs.Code.Assembled
import MessageCode.Proofs.Code.Path

/-!
What code does to locals anywhere in it, whichever way its tests come out. A program that uses no other
locals than those it declares, in whatever region it does so, keeps to the slots that are counted for it.
-/

namespace MessageCode

/-- The program uses the local, rather than open or close its slot. -/
def LocalEvent.IsUse : LocalEvent → Prop
  | .load _ => True
  | .store _ => True
  | .increment _ => True
  | _ => False

theorem LocalEvent.isUse_relocate {offset : Nat} {e : LocalEvent} :
    (e.relocate offset).IsUse ↔ e.IsUse := by
  cases e <;> rfl

theorem LocalEvent.Reads.isUse {l : Local} {e : LocalEvent} (h : e.Reads l) : e.IsUse := by
  cases e with
  | load k => trivial
  | increment k => trivial
  | _ => cases h

namespace Recorded

mutual

def mentions : Recorded → List LocalEvent
  | .plain _ op => op.event?.toList
  | .declare l => [.declare l]
  | .branch _ _ thenCode elseCode => mentionsAll thenCode ++ mentionsAll elseCode
  | .loop _ condition _ body => mentionsAll condition ++ mentionsAll body
  | .scope _ locals body => mentionsAll body ++ locals.map fun d => .release d.slot

def mentionsAll : List Recorded → List LocalEvent
  | [] => []
  | r :: rest => r.mentions ++ mentionsAll rest

end

@[simp] theorem mentionsAll_append (code more : List Recorded) :
    mentionsAll (code ++ more) = mentionsAll code ++ mentionsAll more := by
  induction code with
  | nil => rfl
  | cons r code ih => simp [mentionsAll, ih]

@[simp] theorem mentionsAll_singleton (r : Recorded) : mentionsAll [r] = r.mentions := by
  simp [mentionsAll]

mutual

theorem mentions_splice (offset : Nat) (below : List NativeType) (r : Recorded) :
    (r.splice offset below).mentions = r.mentions.map (.relocate offset) := by
  cases r with
  | plain before op =>
      rw [splice, mentions, mentions, Op.event?_relocate]
      cases op.event? <;> rfl
  | declare l => rfl
  | branch before test thenCode elseCode =>
      simp only [splice, mentions, mentionsAll_splice offset below thenCode,
        mentionsAll_splice offset below elseCode, List.map_append]
  | loop before condition test body =>
      simp only [splice, mentions, mentionsAll_splice offset below condition,
        mentionsAll_splice offset below body, List.map_append]
  | scope before locals body =>
      simp only [splice, mentions, mentionsAll_splice offset below body, List.map_append,
        List.map_map]
      rfl

theorem mentionsAll_splice (offset : Nat) (below : List NativeType) (code : List Recorded) :
    mentionsAll (spliceAll offset below code) = (mentionsAll code).map (.relocate offset) := by
  cases code with
  | nil => rfl
  | cons r rest =>
      rw [spliceAll, mentionsAll, mentionsAll, mentions_splice offset below r,
        mentionsAll_splice offset below rest, List.map_append]

end

end Recorded

/-- Nothing else happens to locals on a path. -/
theorem Path.mentioned {code : List Recorded} {trace : List LocalEvent} (h : Path code trace) :
    ∀ e ∈ trace, e ∈ Recorded.mentionsAll code := by
  induction h with
  | done => exact nofun
  | plain _ ih =>
      intro e mem
      rcases List.mem_append.mp mem with mem | mem
      · exact List.mem_append_left _ mem
      · exact List.mem_append_right _ (ih e mem)
  | declare _ ih =>
      intro e mem
      rcases List.mem_cons.mp mem with rfl | mem
      · exact List.mem_append_left _ List.mem_cons_self
      · exact List.mem_append_right _ (ih e mem)
  | thenArm _ _ armIh ih =>
      intro e mem
      rcases List.mem_append.mp mem with mem | mem
      · exact List.mem_append_left _ (List.mem_append_left _ (armIh e mem))
      · exact List.mem_append_right _ (ih e mem)
  | elseArm _ _ armIh ih =>
      intro e mem
      rcases List.mem_append.mp mem with mem | mem
      · exact List.mem_append_left _ (List.mem_append_right _ (armIh e mem))
      · exact List.mem_append_right _ (ih e mem)
  | exit _ _ conditionIh ih =>
      intro e mem
      rcases List.mem_append.mp mem with mem | mem
      · exact List.mem_append_left _ (List.mem_append_left _ (conditionIh e mem))
      · exact List.mem_append_right _ (ih e mem)
  | round _ _ _ conditionIh bodyIh ih =>
      intro e mem
      rcases List.mem_append.mp mem with mem | mem
      · exact List.mem_append_left _ (List.mem_append_left _ (conditionIh e mem))
      · rcases List.mem_append.mp mem with mem | mem
        · exact List.mem_append_left _ (List.mem_append_right _ (bodyIh e mem))
        · exact ih e mem
  | scope _ _ bodyIh ih =>
      intro e mem
      rcases List.mem_append.mp mem with mem | mem
      · exact List.mem_append_left _ (List.mem_append_left _ (bodyIh e mem))
      · rcases List.mem_append.mp mem with mem | mem
        · exact List.mem_append_left _ (List.mem_append_right _ mem)
        · exact List.mem_append_right _ (ih e mem)

theorem Directive.mentions_since {d : Directive} {a a' : Assembly}
    (written : (d.write : Assembler EmitError Unit).run a = (.ok (), a')) :
    Recorded.mentionsAll (a'.since a) = d.event?.toList := by
  rcases write_eq_ok written with ⟨rfl, event⟩ | ⟨op, stack, rfl, -, event⟩
  · rw [Assembly.since_self, event]
    rfl
  · rw [Assembly.since_put, List.map_singleton, Recorded.mentionsAll_singleton, Recorded.mentions,
      event]

theorem Directive.isUse {d : Directive} {e : LocalEvent} (h : d.event? = some e) : e.IsUse := by
  cases d <;> cases h <;> trivial

namespace Assembly

/-- A later state of the assembly: it numbers and counts at least as many locals, and the locals that
it declares in addition are numbered among those in between. -/
structure Extends (a a₀ : Assembly) : Prop where
  nextLocal : a₀.nextLocal ≤ a.nextLocal
  maxLocals : a₀.maxLocals ≤ a.maxLocals
  within : a₀.nextLocal ≤ a₀.maxLocals → a.nextLocal ≤ a.maxLocals
  declared : ∀ d ∈ a.declared, d ∈ a₀.declared ∨
    a₀.nextLocal ≤ d.slot.index ∧ d.slot.index < a.maxLocals

namespace Extends

variable {a₀ a b region : Assembly}

theorem refl (a : Assembly) : a.Extends a := ⟨le_rfl, le_rfl, id, fun _ => .inl⟩

theorem put (h : a.Extends a₀) (ops : List Op) (stack : List NativeType) :
    (a.put ops stack).Extends a₀ := ⟨h.nextLocal, h.maxLocals, h.within, h.declared⟩

/-- More locals are counted. -/
theorem count (h : a.Extends a₀) (size : Nat) :
    ({ a with maxLocals := max a.maxLocals size }).Extends a₀ where
  nextLocal := h.nextLocal
  maxLocals := h.maxLocals.trans (le_max_left ..)
  within le := (h.within le).trans (le_max_left ..)
  declared d mem := by
    rcases h.declared d mem with mem | ⟨le, lt⟩
    · exact .inl mem
    · exact .inr ⟨le, lt.trans_le (le_max_left ..)⟩

theorem declare (h : a.Extends a₀) (name : String) (type : NativeType) :
    (a.declare ⟨name, ⟨a.nextLocal, type⟩⟩).Extends a₀ where
  nextLocal := h.nextLocal.trans (Nat.le_succ _)
  maxLocals := h.maxLocals.trans (le_max_left ..)
  within _ := le_max_right ..
  declared d mem := by
    rcases List.mem_append.mp mem with mem | mem
    · rcases h.declared d mem with mem | ⟨le, lt⟩
      · exact .inl mem
      · exact .inr ⟨le, lt.trans_le (le_max_left ..)⟩
    · cases List.mem_singleton.mp mem
      exact .inr ⟨h.nextLocal, Nat.lt_of_lt_of_le (Nat.lt_succ_self _) (le_max_right ..)⟩

theorem adopt (h : a.Extends a₀) (inner : region.Extends b.fork) (le : a₀.nextLocal ≤ b.nextLocal) :
    (a.adopt region).Extends a₀ where
  nextLocal := h.nextLocal.trans (le_max_left ..)
  maxLocals := h.maxLocals.trans (le_max_left ..)
  within le := max_le_max (h.within le) (inner.within le_rfl)
  declared d mem := by
    rcases List.mem_append.mp mem with mem | mem
    · rcases h.declared d mem with mem | ⟨le, lt⟩
      · exact .inl mem
      · exact .inr ⟨le, lt.trans_le (le_max_left ..)⟩
    · rcases inner.declared d mem with mem | ⟨le', lt⟩
      · cases mem
      · exact .inr ⟨le.trans le', lt.trans_le (le_max_right ..)⟩

end Extends

end Assembly

namespace Assembled

variable {use : LocalUse} {a₀ a : Assembly} {seen₀ seen : List Local} {code : List Recorded}

theorem extends_start (h : Assembled use a₀ seen₀ code a seen) : a.Extends a₀ := by
  induction h with
  | start a seen => exact .refl a
  | call d _ _ written ih =>
      rcases Directive.write_eq_ok written with ⟨rfl, -⟩ | ⟨op, stack, rfl, -⟩
      · exact ih
      · exact ih.put ..
  | declare name type _ declared ih =>
      cases declared
      exact ih.declare name type
  | append s _ _ _ appended ih =>
      obtain ⟨found, rest, -, -, rfl⟩ := Assembler.append_eq_ok.mp appended
      exact (ih.count _).put ..
  | branch test _ tested _ _ joined ih thenIh elseIh =>
      obtain ⟨found, rest, -, -, rfl⟩ := Assembler.popTest_eq_ok.mp tested
      obtain ⟨stack, -, rfl⟩ := Assembler.joinArms_eq_ok.mp joined
      exact (((ih.put [] rest).adopt thenIh ih.nextLocal).adopt elseIh ih.nextLocal).put ..
  | loop test _ _ closed _ closed' ih conditionIh bodyIh =>
      obtain ⟨found, -, -, rfl, rfl⟩ := Assembler.closeCondition_eq_ok.mp closed
      obtain ⟨-, rfl⟩ := Assembler.closeLoop_eq_ok.mp closed'
      have adopted := ih.adopt conditionIh ih.nextLocal
      exact (adopted.adopt bodyIh adopted.nextLocal).put ..
  | scope _ _ closed ih bodyIh =>
      cases closed
      exact (ih.count _).put ..

/-- Every local that a program declares or releases has a slot. -/
theorem opened_below (h : Assembled use a₀ seen₀ code a seen) {e : LocalEvent}
    (mem : e ∈ Recorded.mentionsAll code) (opened : ¬e.IsUse) : e.target.index < a.maxLocals := by
  induction h generalizing e with
  | start a seen => cases mem
  | @call _ _ _ a _ a' d _ _ written ih =>
      have size : a'.maxLocals = a.maxLocals := by
        rcases Directive.write_eq_ok written with ⟨rfl, -⟩ | ⟨op, stack, rfl, -⟩ <;> rfl
      rw [Recorded.mentionsAll_append, Directive.mentions_since written] at mem
      rw [size]
      rcases List.mem_append.mp mem with mem | mem
      · exact ih mem opened
      · exact absurd (Directive.isUse (Option.mem_toList.mp mem)) opened
  | declare name type _ declared ih =>
      cases declared
      rw [Recorded.mentionsAll_append, Recorded.mentionsAll_singleton] at mem
      rcases List.mem_append.mp mem with mem | mem
      · exact (ih mem opened).trans_le (le_max_left ..)
      · cases List.mem_singleton.mp mem
        exact Nat.lt_of_lt_of_le (Nat.lt_succ_self _) (le_max_right ..)
  | append s _ _ finish appended ih innerIh =>
      obtain ⟨found, rest, -, -, rfl⟩ := Assembler.append_eq_ok.mp appended
      rw [Recorded.mentionsAll_append, Recorded.mentionsAll_splice] at mem
      rcases List.mem_append.mp mem with mem | mem
      · exact (ih mem opened).trans_le (le_max_left ..)
      · obtain ⟨k, mem', rfl⟩ := List.mem_map.mp mem
        have lt := innerIh mem' (mt LocalEvent.isUse_relocate.mpr opened)
        rw [← finish.eq.2.2.1] at lt
        rw [LocalEvent.target_relocate]
        exact (Nat.add_lt_add_right lt _).trans_le ((Nat.add_comm ..).trans_le (le_max_right ..))
  | branch test _ tested _ _ joined ih thenIh elseIh =>
      obtain ⟨found, rest, -, -, rfl⟩ := Assembler.popTest_eq_ok.mp tested
      obtain ⟨stack, -, rfl⟩ := Assembler.joinArms_eq_ok.mp joined
      rw [Recorded.mentionsAll_append, Recorded.mentionsAll_singleton, Recorded.mentions] at mem
      rcases List.mem_append.mp mem with mem | mem
      · exact (ih mem opened).trans_le ((le_max_left ..).trans (le_max_left ..))
      · rcases List.mem_append.mp mem with mem | mem
        · exact (thenIh mem opened).trans_le ((le_max_right ..).trans (le_max_left ..))
        · exact (elseIh mem opened).trans_le (le_max_right ..)
  | loop test _ _ closed _ closed' ih conditionIh bodyIh =>
      obtain ⟨found, -, -, rfl, rfl⟩ := Assembler.closeCondition_eq_ok.mp closed
      obtain ⟨-, rfl⟩ := Assembler.closeLoop_eq_ok.mp closed'
      rw [Recorded.mentionsAll_append, Recorded.mentionsAll_singleton, Recorded.mentions] at mem
      rcases List.mem_append.mp mem with mem | mem
      · exact (ih mem opened).trans_le ((le_max_left ..).trans (le_max_left ..))
      · rcases List.mem_append.mp mem with mem | mem
        · exact (conditionIh mem opened).trans_le ((le_max_right ..).trans (le_max_left ..))
        · exact (bodyIh mem opened).trans_le (le_max_right ..)
  | scope _ body closed ih bodyIh =>
      cases closed
      rw [Recorded.mentionsAll_append, Recorded.mentionsAll_singleton, Recorded.mentions] at mem
      rcases List.mem_append.mp mem with mem | mem
      · exact (ih mem opened).trans_le (le_max_left ..)
      · rcases List.mem_append.mp mem with mem | mem
        · exact (bodyIh mem opened).trans_le (le_max_right ..)
        · obtain ⟨d, mem', rfl⟩ := List.mem_map.mp mem
          rcases body.extends_start.declared d mem' with mem | ⟨-, lt⟩
          · cases mem
          · exact lt.trans_le (le_max_right ..)

end Assembled

/-- Every local that the code uses is one that it declares, in this region or in another. -/
def UsesOwn (code : List Recorded) : Prop :=
  ∀ e ∈ Recorded.mentionsAll code, e.IsUse → .declare e.target ∈ Recorded.mentionsAll code

/-- A program that uses its own locals only keeps to the slots of its sequence. -/
theorem Finished.bounded {use : LocalUse} {s : Sequence} {code : List Recorded}
    (h : Finished use s code) (own : UsesOwn code) {trace : List LocalEvent} (path : Path code trace) :
    ∀ e ∈ trace, e.target.index < s.maxLocals := by
  obtain ⟨a, seen, program, finish⟩ := h
  rw [finish.eq.2.2.1]
  intro e mem
  have mentioned := path.mentioned e mem
  by_cases isUse : e.IsUse
  · exact program.opened_below (e := .declare e.target) (own e mentioned isUse) id
  · exact program.opened_below mentioned isUse

end MessageCode
