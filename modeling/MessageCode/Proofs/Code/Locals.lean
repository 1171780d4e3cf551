import MessageCode.Proofs.Code.Mentioned

/-!
Local discipline. Where a program uses only visible locals, and on every path stores to a local before
it uses its value, each use finds in the slot what was stored through this very local, and every slot
is within the count of the sequence. Slots are shared, so this rests on how they are numbered.
-/

namespace MessageCode

/-- The local was stored since it was declared last. -/
def Assigned (past : List LocalEvent) (l : Local) : Prop :=
  ∃ earlier later, past = earlier ++ .store l :: later ∧ .declare l ∉ later

/-- The slot of the local still has what was stored through it. -/
def Held (past : List LocalEvent) (l : Local) : Prop :=
  ∃ earlier later, past = earlier ++ .store l :: later ∧ ∀ e ∈ later, e.Spares l

def Along (P : List LocalEvent → LocalEvent → Prop) : List LocalEvent → List LocalEvent → Prop
  | _, [] => True
  | past, e :: rest => P past e ∧ Along P (past ++ [e]) rest

/-- A local whose value is used was assigned. -/
def Initialised (past : List LocalEvent) (e : LocalEvent) : Prop := ∀ l, e.Reads l → Assigned past l

/-- A local whose value is used is held. -/
def Backed (past : List LocalEvent) (e : LocalEvent) : Prop := ∀ l, e.Reads l → Held past l

/-- There is a slot for the local, and its value is held there when it is used. -/
def Secure (size : Nat) (past : List LocalEvent) (e : LocalEvent) : Prop :=
  e.target.index < size ∧ Backed past e

theorem along_append {P : List LocalEvent → LocalEvent → Prop} {past first second : List LocalEvent} :
    Along P past (first ++ second) ↔ Along P past first ∧ Along P (past ++ first) second := by
  induction first generalizing past with
  | nil => simp [Along]
  | cons e first ih => simp [Along, ih, and_assoc]

theorem Along.of_mem {P : List LocalEvent → LocalEvent → Prop} {past trace : List LocalEvent}
    (h : Along P past trace) {e : LocalEvent} (mem : e ∈ trace) :
    ∃ earlier later, trace = earlier ++ e :: later ∧ P (past ++ earlier) e := by
  obtain ⟨earlier, later, rfl⟩ := List.append_of_mem mem
  exact ⟨earlier, later, rfl, (along_append.mp h).2.1⟩

theorem Along.imp {P Q : List LocalEvent → LocalEvent → Prop} {past trace : List LocalEvent}
    (h : Along P past trace) (imp : ∀ past e, P past e → Q past e) : Along Q past trace := by
  induction trace generalizing past with
  | nil => trivial
  | cons e trace ih => exact ⟨imp _ _ h.1, ih h.2⟩

theorem Along.and {P Q : List LocalEvent → LocalEvent → Prop} {past trace : List LocalEvent}
    (h : Along P past trace) (h' : Along Q past trace) :
    Along (fun past e => P past e ∧ Q past e) past trace := by
  induction trace generalizing past with
  | nil => trivial
  | cons e trace ih => exact ⟨⟨h.1, h'.1⟩, ih h.2 h'.2⟩

theorem along_of_forall {P : List LocalEvent → LocalEvent → Prop} {past trace : List LocalEvent}
    (h : ∀ e ∈ trace, ∀ past, P past e) : Along P past trace := by
  induction trace generalizing past with
  | nil => trivial
  | cons e trace ih =>
      exact ⟨h e (List.mem_cons_self ..) past, ih fun k mem => h k (List.mem_cons_of_mem _ mem)⟩

/-- Renumbered events fit what comes before them when the events alone fit. -/
theorem Along.relocate {P Q : List LocalEvent → LocalEvent → Prop} {trace : List LocalEvent}
    (h : Along P [] trace) (past : List LocalEvent) (offset : Nat)
    (imp : ∀ earlier e, P earlier e →
      Q (past ++ earlier.map (.relocate offset)) (e.relocate offset)) :
    Along Q past (trace.map (.relocate offset)) := by
  have general : ∀ earlier, Along P earlier trace →
      Along Q (past ++ earlier.map (.relocate offset)) (trace.map (.relocate offset)) := by
    clear h
    induction trace with
    | nil => exact fun _ _ => trivial
    | cons e trace ih =>
        intro earlier h
        have rest := ih _ h.2
        rw [List.map_append, ← List.append_assoc] at rest
        exact ⟨imp _ _ h.1, rest⟩
  have whole := general [] h
  rwa [List.map_nil, List.append_nil] at whole

theorem along_singleton {P : List LocalEvent → LocalEvent → Prop} {past : List LocalEvent}
    {e : LocalEvent} : Along P past [e] ↔ P past e := by
  simp [Along]

namespace Assigned

variable {past trace : List LocalEvent} {l : Local}

theorem of_append (h : Assigned (past ++ trace) l) :
    Assigned trace l ∨ .declare l ∉ trace ∧ Assigned past l := by
  obtain ⟨earlier, later, split, fresh⟩ := h
  rcases List.append_eq_append_iff.mp split with ⟨more, rfl, rfl⟩ | ⟨more, rfl, split'⟩
  · exact .inl ⟨more, later, rfl, fresh⟩
  · cases more with
    | nil => exact .inl ⟨[], later, split'.symm, fresh⟩
    | cons e more =>
        obtain ⟨rfl, rfl⟩ := List.cons.inj split'
        have apart := not_or.mp (fun mem => fresh (List.mem_append.mpr mem))
        exact .inr ⟨apart.2, earlier, more, rfl, apart.1⟩

/-- Declared events apart, only a store assigns. -/
theorem of_snoc {e : LocalEvent} (h : Assigned (past ++ [e]) l) :
    e = .store l ∨ e ≠ .declare l ∧ Assigned past l := by
  rcases h.of_append with ⟨earlier, later, split, -⟩ | ⟨fresh, assigned⟩
  · cases earlier with
    | nil =>
        cases split
        exact .inl rfl
    | cons e' earlier =>
        have empty := congrArg List.length split
        simp at empty
  · exact .inr ⟨fun same => fresh (by simp [same]), assigned⟩

end Assigned

theorem LocalEvent.Spares.relocate {l : Local} {e : LocalEvent} (h : e.Spares l) (offset : Nat) :
    (e.relocate offset).Spares (l.relocate offset) := by
  cases e with
  | declare k => trivial
  | load k => trivial
  | store k => exact fun same => h (Nat.add_right_cancel same)
  | increment k => exact fun same => congrArg _ (h (Nat.add_right_cancel same))
  | release k => exact fun same => h (Nat.add_right_cancel same)

theorem LocalEvent.spares_of_ne {l : Local} {e : LocalEvent} (h : e.target.index ≠ l.index) :
    e.Spares l := by
  cases e with
  | declare k => trivial
  | load k => trivial
  | store k => exact h
  | increment k => exact fun same => absurd same h
  | release k => exact h

namespace Held

variable {past trace : List LocalEvent} {l : Local}

theorem append (h : Held past l) (spared : ∀ e ∈ trace, e.Spares l) : Held (past ++ trace) l := by
  obtain ⟨earlier, later, rfl, spares⟩ := h
  refine ⟨earlier, later ++ trace, by simp, ?_⟩
  intro e mem
  rcases List.mem_append.mp mem with mem | mem
  · exact spares e mem
  · exact spared e mem

theorem store (past : List LocalEvent) (l : Local) : Held (past ++ [.store l]) l :=
  ⟨past, [], rfl, nofun⟩

theorem of_snoc {e : LocalEvent} (h : Held (past ++ [e]) l) :
    e = .store l ∨ e.Spares l ∧ Held past l := by
  obtain ⟨earlier, later, split, spares⟩ := h
  rcases List.eq_nil_or_concat later with rfl | ⟨later, e', rfl⟩
  · have same := List.append_inj_right' split rfl
    cases same
    exact .inl rfl
  · rw [List.concat_eq_append, ← List.cons_append, ← List.append_assoc] at split
    obtain ⟨rfl, same⟩ := List.append_inj' split rfl
    cases same
    refine .inr ⟨spares e (by simp), earlier, later, rfl, ?_⟩
    exact fun k mem => spares k (by simp [mem])

theorem after (h : Held trace l) (past : List LocalEvent) : Held (past ++ trace) l := by
  obtain ⟨earlier, later, rfl, spares⟩ := h
  exact ⟨past ++ earlier, later, by simp, spares⟩

theorem relocate (h : Held past l) (offset : Nat) :
    Held (past.map (LocalEvent.relocate offset)) (l.relocate offset) := by
  obtain ⟨earlier, later, rfl, spares⟩ := h
  refine ⟨earlier.map _, later.map _, List.map_append, ?_⟩
  intro e mem
  obtain ⟨e', mem', rfl⟩ := List.mem_map.mp mem
  exact (spares e' mem').relocate offset

end Held

/-- Visible locals have slots of their own among those that are numbered. -/
structure Numbered (next : Nat) (seen : List Local) : Prop where
  below : ∀ l ∈ seen, l.index < next
  distinct : ∀ l ∈ seen, ∀ k ∈ seen, l.index = k.index → l = k

namespace Numbered

variable {next : Nat} {seen : List Local}

theorem nil (next : Nat) : Numbered next [] := ⟨nofun, nofun⟩

theorem mono (h : Numbered next seen) {next' : Nat} (le : next ≤ next') : Numbered next' seen :=
  ⟨fun l mem => Nat.lt_of_lt_of_le (h.below l mem) le, h.distinct⟩

theorem declare (h : Numbered next seen) (type : NativeType) :
    Numbered (next + 1) (⟨next, type⟩ :: seen) := by
  have apart : ∀ l ∈ seen, l.index ≠ next := fun l mem => Nat.ne_of_lt (h.below l mem)
  constructor
  · intro l mem
    rcases List.mem_cons.mp mem with rfl | mem
    · exact Nat.lt_succ_self next
    · exact Nat.lt_succ_of_lt (h.below l mem)
  · intro l mem k mem' same
    rcases List.mem_cons.mp mem with rfl | mem <;> rcases List.mem_cons.mp mem' with rfl | mem'
    · rfl
    · exact absurd same.symm (apart k mem')
    · exact absurd same (apart l mem)
    · exact h.distinct l mem k mem' same

end Numbered

namespace Assembled

variable {use : LocalUse} {a₀ a : Assembly} {seen₀ seen : List Local} {code : List Recorded}

theorem seen_mono (h : Assembled use a₀ seen₀ code a seen) {l : Local} (mem : l ∈ seen₀) :
    l ∈ seen := by
  induction h with
  | start a seen => exact mem
  | call d _ _ _ ih => exact ih mem
  | declare name type _ _ ih => exact List.mem_cons_of_mem _ (ih mem)
  | append s _ _ _ _ ih => exact ih mem
  | branch test _ _ _ _ _ ih => exact ih mem
  | loop test _ _ _ _ _ ih => exact ih mem
  | scope _ _ _ ih => exact ih mem

theorem numbered (h : Assembled use a₀ seen₀ code a seen) (start : Numbered a₀.nextLocal seen₀) :
    Numbered a.nextLocal seen := by
  induction h with
  | start a seen => exact start
  | call d _ _ written ih =>
      rcases Directive.write_eq_ok written with ⟨rfl, -⟩ | ⟨op, stack, rfl, -⟩
      · exact ih start
      · exact ih start
  | declare name type _ declared ih =>
      cases declared
      exact (ih start).declare type
  | append s _ _ _ appended ih =>
      obtain ⟨found, rest, -, -, rfl⟩ := Assembler.append_eq_ok.mp appended
      exact ih start
  | branch test _ tested _ _ joined ih =>
      obtain ⟨found, rest, -, -, rfl⟩ := Assembler.popTest_eq_ok.mp tested
      obtain ⟨stack, -, rfl⟩ := Assembler.joinArms_eq_ok.mp joined
      exact (ih start).mono ((le_max_left ..).trans (le_max_left ..))
  | loop test _ _ closed _ closed' ih =>
      obtain ⟨found, -, -, -, rfl⟩ := Assembler.closeCondition_eq_ok.mp closed
      obtain ⟨-, rfl⟩ := Assembler.closeLoop_eq_ok.mp closed'
      exact (ih start).mono ((le_max_left ..).trans (le_max_left ..))
  | scope _ _ closed ih =>
      cases closed
      exact ih start

end Assembled

/-- What a call of the assembler writes does to locals what the call names. -/
theorem Directive.event_of_path {d : Directive} {a a' : Assembly} {trace : List LocalEvent}
    (written : (d.write : Assembler EmitError Unit).run a = (.ok (), a'))
    (path : Path (a'.since a) trace) : trace = d.event?.toList := by
  rcases write_eq_ok written with ⟨rfl, event⟩ | ⟨op, stack, rfl, -, event⟩
  · rw [Assembly.since_self] at path
    rw [Path.nil_iff.mp path, event]
    rfl
  · rw [Assembly.since_put] at path
    rw [Path.plain_iff.mp path, event]

def Known (past : List LocalEvent) (e : LocalEvent) : Prop := ∀ l, e.Reads l → .declare l ∈ past

def Opened (past : List LocalEvent) (e : LocalEvent) : Prop := e.IsUse → .declare e.target ∈ past

namespace Opened

variable {past earlier : List LocalEvent} {e : LocalEvent}

theorem known (h : Opened past e) : Known past e := by
  intro l reads
  rw [← LocalEvent.target_of_reads reads]
  exact h reads.isUse

theorem relocate (h : Opened earlier e) (past : List LocalEvent) (offset : Nat) :
    Opened (past ++ earlier.map (.relocate offset)) (e.relocate offset) := by
  intro used
  rw [LocalEvent.target_relocate]
  exact List.mem_append_right _ (List.mem_map_of_mem (h (LocalEvent.isUse_relocate.mp used)))

end Opened

namespace Assembled

variable {a₀ a : Assembly} {seen₀ seen : List Local} {code : List Recorded}
  {past trace : List LocalEvent}

/-- Every local that is used on a path was declared. -/
theorem opened (h : Assembled .visible a₀ seen₀ code a seen) (path : Path code trace)
    (start : ∀ l ∈ seen₀, .declare l ∈ past) :
    Along Opened past trace ∧ ∀ l ∈ seen, .declare l ∈ past ++ trace := by
  induction h generalizing past trace with
  | start a seen =>
      rw [Path.nil_iff.mp path, List.append_nil]
      exact ⟨trivial, start⟩
  | call d program allowed written ih =>
      obtain ⟨first, second, rfl, before, last⟩ := path.of_append
      obtain ⟨along, declared⟩ := ih before start
      rw [along_append, ← List.append_assoc, Directive.event_of_path written last]
      refine ⟨⟨along, ?_⟩, fun l mem => List.mem_append_left _ (declared l mem)⟩
      cases event : d.event? with
      | none => trivial
      | some e => exact along_singleton.mpr fun _ => declared _ (allowed e event)
  | declare name type program numbered ih =>
      obtain ⟨first, second, rfl, before, last⟩ := path.of_append
      obtain ⟨along, declared⟩ := ih before start
      rw [along_append, ← List.append_assoc, Path.declare_iff.mp last]
      refine ⟨⟨along, along_singleton.mpr nofun⟩, ?_⟩
      intro l mem
      rcases List.mem_cons.mp mem with rfl | mem
      · exact List.mem_append_right _ (List.mem_singleton_self _)
      · exact List.mem_append_left _ (declared l mem)
  | append s program _ finish appended ih innerIh =>
      obtain ⟨first, second, rfl, before, last⟩ := path.of_append
      obtain ⟨inner, spliced, rfl⟩ := last.of_splice
      obtain ⟨along, declared⟩ := ih before start
      rw [along_append, ← List.append_assoc]
      refine ⟨⟨along, ?_⟩, fun l mem => List.mem_append_left _ (declared l mem)⟩
      have alone := @innerIh [] inner spliced nofun
      exact alone.1.relocate (past ++ first) _ fun _ _ opened => opened.relocate _ _
  | branch test program tested thenArm elseArm joined ih thenIh elseIh =>
      obtain ⟨first, second, rfl, before, last⟩ := path.of_append
      obtain ⟨along, declared⟩ := ih before start
      rw [along_append, ← List.append_assoc]
      refine ⟨⟨along, ?_⟩, fun l mem => List.mem_append_left _ (declared l mem)⟩
      rcases Path.branch_iff.mp last with arm | arm
      · exact (thenIh arm declared).1
      · exact (elseIh arm declared).1
  | loop test program _ closed _ closed' ih conditionIh bodyIh =>
      obtain ⟨first, second, rfl, before, last⟩ := path.of_append
      obtain ⟨along, declared⟩ := ih before start
      rw [along_append, ← List.append_assoc]
      refine ⟨⟨along, ?_⟩, fun l mem => List.mem_append_left _ (declared l mem)⟩
      refine Path.loop_induction (motive := fun trace => ∀ past, (∀ l ∈ _, .declare l ∈ past) →
        Along Opened past trace) ?_ ?_ last _ declared
      · intro first part past declared
        exact (conditionIh part declared).1
      · intro first second rest part part' ih past declared
        have kept : ∀ trace l, l ∈ _ → .declare l ∈ past ++ trace :=
          fun _ l mem => List.mem_append_left _ (declared l mem)
        rw [along_append, along_append, List.append_assoc]
        exact ⟨(conditionIh part declared).1, (bodyIh part' (kept first)).1, ih _ (kept _)⟩
  | scope program body closed ih bodyIh =>
      obtain ⟨first, second, rfl, before, last⟩ := path.of_append
      obtain ⟨inner, region, rfl⟩ := Path.scope_iff.mp last
      obtain ⟨along, declared⟩ := ih before start
      rw [along_append, ← List.append_assoc, along_append]
      refine ⟨⟨along, (bodyIh region declared).1, along_of_forall ?_⟩,
        fun l mem => List.mem_append_left _ (declared l mem)⟩
      intro e mem past
      obtain ⟨d, -, rfl⟩ := List.mem_map.mp mem
      exact nofun

theorem bounded (h : Assembled .visible a₀ [] code a seen) (path : Path code trace) {e : LocalEvent}
    (mem : e ∈ trace) : e.target.index < a.maxLocals := by
  have along : Along Opened [] trace := (h.opened path nofun).1
  by_cases used : e.IsUse
  · obtain ⟨earlier, later, rfl, opened⟩ := along.of_mem mem
    have declared := path.mentioned _ (List.mem_append_left (e :: later) (opened used))
    exact h.opened_below (e := .declare e.target) declared id
  · exact h.opened_below (path.mentioned e mem) used

end Assembled

theorem Assigned.of_relocate {earlier : List LocalEvent} {l : Local} {offset : Nat}
    (h : Assigned (earlier.map (.relocate offset)) (l.relocate offset)) : Assigned earlier l := by
  obtain ⟨_, _, whole, fresh⟩ := h
  obtain ⟨first, rest, rfl, rfl, tail⟩ := List.map_eq_append_iff.mp whole
  obtain ⟨e, second, rfl, store, rfl⟩ := List.map_eq_cons_iff.mp tail
  have same : e = .store l := LocalEvent.relocate_injective offset store
  subst same
  exact ⟨first, second, rfl, fun mem => fresh (List.mem_map_of_mem mem)⟩

/-- A spliced use of a local follows a store on the path of the sequence itself. -/
theorem Along.initialised_alone {past trace : List LocalEvent} {offset : Nat}
    (h : Along Initialised past (trace.map (.relocate offset))) (known : Along Known [] trace) :
    Along Initialised [] trace := by
  have general : ∀ earlier,
      Along Initialised (past ++ earlier.map (.relocate offset)) (trace.map (.relocate offset)) →
      Along Known earlier trace → Along Initialised earlier trace := by
    clear h known
    induction trace with
    | nil => exact fun _ _ _ => trivial
    | cons e trace ih =>
        intro earlier h known
        refine ⟨?_, ih _ (by simpa using h.2) known.2⟩
        intro l reads
        rcases (h.1 _ reads.relocate).of_append with assigned | ⟨fresh, -⟩
        · exact assigned.of_relocate
        · exact absurd (List.mem_map_of_mem (known.1 l reads)) fresh
  exact general [] (by simpa using h) known

theorem Backed.relocate {earlier : List LocalEvent} {e : LocalEvent} (h : Backed earlier e)
    (past : List LocalEvent) (offset : Nat) :
    Backed (past ++ earlier.map (.relocate offset)) (e.relocate offset) := by
  intro l reads
  obtain ⟨k, rfl, reads'⟩ := LocalEvent.reads_relocate reads
  exact ((h k reads').relocate offset).after past

def Kept (seen : List Local) (past : List LocalEvent) : Prop :=
  ∀ l ∈ seen, Assigned past l → Held past l

namespace Kept

variable {seen : List Local} {past trace : List LocalEvent} {next : Nat}

/-- Events on other slots change nothing. -/
theorem append (h : Kept seen past) (apart : ∀ e ∈ trace, ∀ l ∈ seen, e.target.index ≠ l.index) :
    Kept seen (past ++ trace) := by
  intro l mem assigned
  have spared : ∀ e ∈ trace, e.Spares l :=
    fun e mem' => LocalEvent.spares_of_ne (apart e mem' l mem)
  rcases assigned.of_append with ⟨first, second, rfl, -⟩ | ⟨-, assigned⟩
  · exact absurd rfl (apart (.store l) (by simp) l mem)
  · exact (h l mem assigned).append spared

theorem call (h : Kept seen past) (numbered : Numbered next seen) {d : Directive} {e : LocalEvent}
    (event : d.event? = some e) (visible : e.target ∈ seen) : Kept seen (past ++ [e]) := by
  intro l mem assigned
  rcases assigned.of_snoc with rfl | ⟨-, assigned⟩
  · exact Held.store past l
  · by_cases stored : e = .store l
    · rw [stored]
      exact Held.store past l
    · refine (h l mem assigned).append fun e' mem' => ?_
      cases List.mem_singleton.mp mem'
      cases d with
      | load k =>
          cases event
          trivial
      | store k =>
          cases event
          exact fun same => stored (congrArg _ (numbered.distinct k visible l mem same))
      | increment k delta =>
          cases event
          exact fun same => numbered.distinct k visible l mem same
      | _ => cases event

theorem declare (h : Kept seen past) (l : Local) : Kept (l :: seen) (past ++ [.declare l]) := by
  intro k mem assigned
  rcases assigned.of_snoc with same | ⟨other, assigned⟩
  · cases same
  · rcases List.mem_cons.mp mem with rfl | mem
    · exact absurd rfl other
    · refine (h k mem assigned).append fun e mem' => ?_
      cases List.mem_singleton.mp mem'
      trivial

theorem leave {inner : List Local} (h : Kept inner past) (visible : ∀ l ∈ seen, l ∈ inner) :
    Kept seen past := fun l mem => h l (visible l mem)

end Kept

namespace Assembled

variable {a₀ a : Assembly} {seen₀ seen : List Local} {code : List Recorded}
  {past trace : List LocalEvent}

/-- Where values of locals are used after they were assigned, they are held. -/
theorem backed (h : Assembled .visible a₀ seen₀ code a seen) (start : Numbered a₀.nextLocal seen₀)
    (path : Path code trace) (initialised : Along Initialised past trace) (kept : Kept seen₀ past) :
    Along Backed past trace ∧ Kept seen (past ++ trace) := by
  induction h generalizing past trace with
  | start a seen =>
      rw [Path.nil_iff.mp path, List.append_nil]
      exact ⟨trivial, kept⟩
  | call d program allowed written ih =>
      obtain ⟨first, second, rfl, before, last⟩ := path.of_append
      rw [along_append] at initialised
      obtain ⟨along, kept⟩ := ih start before initialised.1 kept
      rw [Directive.event_of_path written last] at initialised ⊢
      rw [along_append, ← List.append_assoc]
      cases event : d.event? with
      | none =>
          rw [Option.toList_none, List.append_nil]
          exact ⟨⟨along, trivial⟩, kept⟩
      | some e =>
          rw [event] at initialised
          have visible := allowed e event
          refine ⟨⟨along, along_singleton.mpr fun l reads => ?_⟩,
            kept.call (program.numbered start) event visible⟩
          refine kept l ?_ (along_singleton.mp initialised.2 l reads)
          rwa [← LocalEvent.target_of_reads reads]
  | declare name type program numbered ih =>
      obtain ⟨first, second, rfl, before, last⟩ := path.of_append
      rw [along_append] at initialised
      obtain ⟨along, kept⟩ := ih start before initialised.1 kept
      rw [along_append, ← List.append_assoc, Path.declare_iff.mp last]
      exact ⟨⟨along, along_singleton.mpr nofun⟩, kept.declare _⟩
  | append s program innerProgram finish appended ih innerIh =>
      obtain ⟨first, second, rfl, before, last⟩ := path.of_append
      obtain ⟨inner, spliced, rfl⟩ := last.of_splice
      rw [along_append] at initialised
      obtain ⟨along, kept⟩ := ih start before initialised.1 kept
      rw [along_append, ← List.append_assoc]
      have opened : Along Opened [] inner := (innerProgram.opened spliced nofun).1
      have assigned := initialised.2.initialised_alone (opened.imp fun _ _ => Opened.known)
      have alone := innerIh (.nil _) spliced assigned nofun
      refine ⟨⟨along, alone.1.relocate _ _ fun _ _ backed => backed.relocate _ _⟩,
        kept.append ?_⟩
      intro e mem l seen
      obtain ⟨k, -, rfl⟩ := List.mem_map.mp mem
      rw [LocalEvent.target_relocate]
      exact Nat.ne_of_gt (((program.numbered start).below l seen).trans_le (Nat.le_add_left ..))
  | branch test program tested thenArm elseArm joined ih thenIh elseIh =>
      obtain ⟨first, second, rfl, before, last⟩ := path.of_append
      rw [along_append] at initialised
      obtain ⟨along, kept⟩ := ih start before initialised.1 kept
      obtain ⟨found, rest, -, -, rfl⟩ := Assembler.popTest_eq_ok.mp tested
      rw [along_append, ← List.append_assoc]
      have region := program.numbered start
      rcases Path.branch_iff.mp last with arm | arm
      · obtain ⟨inner, kept⟩ := thenIh region arm initialised.2 kept
        exact ⟨⟨along, inner⟩, kept.leave fun l => thenArm.seen_mono⟩
      · obtain ⟨inner, kept⟩ := elseIh region arm initialised.2 kept
        exact ⟨⟨along, inner⟩, kept.leave fun l => elseArm.seen_mono⟩
  | loop test program condition closed body closed' ih conditionIh bodyIh =>
      obtain ⟨first, second, rfl, before, last⟩ := path.of_append
      rw [along_append] at initialised
      obtain ⟨along, kept⟩ := ih start before initialised.1 kept
      obtain ⟨found, -, -, rfl, rfl⟩ := Assembler.closeCondition_eq_ok.mp closed
      rw [along_append, ← List.append_assoc, and_assoc]
      refine ⟨along, ?_⟩
      have region := program.numbered start
      refine Path.loop_induction (motive := fun trace => ∀ past, Along Initialised past trace →
        Kept _ past → Along Backed past trace ∧ Kept _ (past ++ trace)) ?_ ?_ last _ initialised.2 kept
      · intro first part past initialised kept
        obtain ⟨inner, kept⟩ := conditionIh region part initialised kept
        exact ⟨inner, kept.leave fun l => condition.seen_mono⟩
      · intro first second rest part part' ih past initialised kept
        rw [along_append, along_append] at initialised ⊢
        obtain ⟨inner, kept⟩ := conditionIh region part initialised.1 kept
        have kept := kept.leave fun l => condition.seen_mono
        obtain ⟨inner', kept⟩ :=
          bodyIh (region.mono (le_max_left ..)) part' initialised.2.1 kept
        have kept := kept.leave fun l => body.seen_mono
        obtain ⟨inner'', kept⟩ := ih _ initialised.2.2 kept
        rw [List.append_assoc, List.append_assoc] at kept
        exact ⟨⟨inner, inner', inner''⟩, kept⟩
  | scope program body closed ih bodyIh =>
      obtain ⟨first, second, rfl, before, last⟩ := path.of_append
      obtain ⟨inner, region, rfl⟩ := Path.scope_iff.mp last
      rw [along_append, along_append] at initialised
      obtain ⟨along, kept⟩ := ih start before initialised.1 kept
      have numbered := program.numbered start
      obtain ⟨within, kept⟩ := bodyIh numbered region initialised.2.1 kept
      rw [along_append, ← List.append_assoc, along_append, ← List.append_assoc]
      refine ⟨⟨along, within, along_of_forall ?_⟩,
        (kept.leave fun l => body.seen_mono).append ?_⟩
      · intro e mem past
        obtain ⟨d, -, rfl⟩ := List.mem_map.mp mem
        exact nofun
      · intro e mem l seen
        obtain ⟨d, mem', rfl⟩ := List.mem_map.mp mem
        rcases body.extends_start.declared d mem' with mem | ⟨le, -⟩
        · cases mem
        · exact Nat.ne_of_gt ((numbered.below l seen).trans_le le)

end Assembled

/-- A program uses the value of a local only after it stored to the local, on every path. -/
def UsesAssigned (code : List Recorded) : Prop :=
  ∀ trace, Path code trace → Along Initialised [] trace

/-- Every use of a local of a finished sequence finds its own value in a slot of the sequence. -/
theorem Finished.secure {s : Sequence} {code : List Recorded} (h : Finished .visible s code)
    (assigned : UsesAssigned code) {trace : List LocalEvent} (path : Path code trace) :
    Along (Secure s.maxLocals) [] trace := by
  obtain ⟨a, seen, program, finish⟩ := h
  rw [finish.eq.2.2.1]
  have backed := (program.backed (.nil _) path (assigned trace path) nofun).1
  exact (along_of_forall fun e mem _ => program.bounded path mem).and backed

end MessageCode
