import MessageCode.Proofs.Generate.ReadBack

/-!
Integers of fields that are narrower. A field of 32 bits takes the low bits of the integer that it is
given: what is read is the integer itself exactly when it has no more bits than these, and a legacy enum
refuses it exactly when it does not declare the number that is left.
-/

namespace MessageCode

open Stateful

def Field.IsNarrow (f : Field) : Prop := f.kind = .int32 ∨ ∃ name, f.kind = .enum name

/-- An integer is what its low bits are exactly when it has no more of them. -/
theorem toInt64_toInt32_iff {n : Int64} :
    n.toInt32.toInt64 = n ↔ -2147483648 ≤ n.toInt ∧ n.toInt ≤ 2147483647 := by
  rw [← Numeric.isSome_int32?]
  refine ⟨fun same => ?_, toInt64_toInt32_of_fits⟩
  rw [← same, Int32.toInt_toInt64, Numeric.isSome_int32?]
  exact ⟨Int32.minValue_le_toInt _, Int32.toInt_le _⟩

/-- An integer is refused where its low bits are not declared. -/
theorem Field.Lacks.refusal?_eq {s : Schema} {f : Field} {c : Coercion} {n : Int64}
    (lacks : f.Lacks s n.toInt32) (covers : c.Covers s f) :
    f.refusal? s c (.int n) = some (.nullPointer (Filling.method f c).render) := by
  obtain ⟨legacy, name, e, enum, found, undeclared⟩ := lacks
  have unknown := EnumType.valueByNumber?_eq_none_iff.mpr undeclared
  cases covers with
  | legacyEnum kind found' =>
      cases enum.symm.trans kind
      exact (Coercion.Meets.legacyEnum kind found' legacy).refusal?_eq_some_iff.mpr
        (.undeclared enum found legacy unknown)
  | modernEnum kind modern =>
      rw [legacy] at modern
      cases modern
  | _ kind => simp [kind] at enum

namespace Field.IsNarrow

variable {s : Schema} {f : Field} {c : Coercion} {n : Int64} (narrow : f.IsNarrow)

include narrow

theorem normalised_narrowed : f.normalised (f.narrowed (.int n)) = .int n.toInt32.toInt64 := by
  unfold Field.narrowed Field.normalised
  rcases narrow with kind | ⟨name, kind⟩
  · simp only [kind]
  · simp only [kind]

theorem logicalType_eq (covers : c.Covers s f) : c.logicalType = .int := by
  unfold IsNarrow at narrow
  cases covers with
  | int32 | legacyEnum | modernEnum => rfl
  | _ kind => simp [kind] at narrow

theorem refusal?_eq_none (covers : c.Covers s f) (declares : ¬f.Lacks s n.toInt32) :
    f.refusal? s c (.int n) = none := by
  have meets : c.Meets s f (.int n) := covers.meets (narrow.logicalType_eq covers)
  refine meets.refusal?_eq_none_iff.mpr fun fault refuses => ?_
  cases refuses with
  | @undeclared name e n kind found legacy unknown =>
      exact declares ⟨legacy, name, e, kind, found, EnumType.valueByNumber?_eq_none_iff.mp unknown⟩

end Field.IsNarrow

/-- An integer for a field of 32 bits: unless a legacy enum lacks the number in the low bits of the
integer, the code for a message with the argument runs to a message, and the read of the field gives these
low bits, which are the integer itself exactly when it has no more of them. Where the number is lacking
the run faults on a null. -/
theorem generateConstruction_narrows {files : List FileDescription} {s : Schema}
    (resolved : Schema.resolve files = .ok s) {message : String} {m : Message}
    (found : s.message? message = some m) {f : Field}
    (mem : f ∈ m.fields ∨ f ∈ s.extensions ∧ f.container = message) (leads : f.LeadsBack s m)
    (sets : f.SetsBack s m) (alone : f.isRepeated = false) (narrow : f.IsNarrow) {fuel : Nat}
    (enough : Int32.maxValue.toInt.toNat < fuel) {v : TypedValue} {boxed : Bool} {n : Int64}
    (offered : f.Offered s fuel v boxed (· = [.int n])) (boxedBase nullable : Bool) :
    ∃ c k base r, Coercion.of s f = .ok c ∧
      generateConstruction s .immediate message [(f.name, v)] = .ok k ∧
      TypedValue.input (.message message) boxedBase nullable = .ok base ∧
      generateAccess s message base f.name = .ok r ∧
      (n.toInt32.toInt64 = n ↔ -2147483648 ≤ n.toInt ∧ n.toInt ≤ 2147483647) ∧
      ∀ machine : Machine, machine.Tidy →
        (f.Lacks s n.toInt32 → ∃ stopped, (k.code.run s fuel []).run machine =
          (.error (.fault (.nullPointer (Filling.method f c).render)), stopped)) ∧
        (¬f.Lacks s n.toInt32 → ∃ id data built,
          (k.code.run s fuel []).run machine = (.ok (some (.ref id (.message data))), built) ∧
          data.typeName = message ∧
          ∀ input, Access.Form boxedBase (.message id data) input → ∀ fuel' machine',
            ∃ result machine'', (r.code.run s fuel' [input]).run machine' = (.ok (some result), machine'') ∧
              Access.Form r.isBoxed (.int n.toInt32.toInt64) result) := by
  have loaded := Schema.loaded_of_resolve resolved
  have within := (Schema.Loaded.mem_fieldsOf found).mpr mem
  obtain ⟨c, coercion⟩ := Coercion.exists_of (loaded.field found within)
  have covers := Coercion.covers_of_eq_ok coercion
  obtain ⟨k, generated, runs⟩ := offered.run_settles loaded found within coercion sets enough
  obtain ⟨base, r, act, input, accessed, converts, gives⟩ :=
    loaded.exists_read found within leads boxedBase nullable
  refine ⟨c, k, base, r, coercion, generated, input, accessed, toInt64_toInt32_iff, ?_⟩
  intro machine tidy
  obtain ⟨_, rfl, settles⟩ := runs machine tidy
  rw [Filling.take_singleton, Field.firstRefusal?_singleton] at settles
  constructor
  · intro lacks
    rwa [lacks.refusal?_eq covers] at settles
  · intro declares
    rw [narrow.refusal?_eq_none covers declares] at settles
    obtain ⟨_, built, run, id, data, rfl, stores⟩ := settles
    have kept := stores.kept loaded found within fun _ => ⟨_, rfl⟩
    refine ⟨id, data, built, run, kept.typeName, ?_⟩
    intro x form fuel' machine'
    have displayed : Gives (act x) (Access.Form r.isBoxed (.int n.toInt32.toInt64)) := by
      refine (gives id data x kept.typeName kept.valid form).imp fun result read => ?_
      have displays := read.displays loaded found within kept
      unfold Field.Displays at displays
      rw [if_neg (by simp [alone])] at displays
      obtain ⟨l, single, form⟩ := displays
      cases single
      rwa [narrow.normalised_narrowed] at form
    exact converts.run_gives displayed fuel' machine'

def letterTone : Field :=
  ⟨"tone", 1, .enum "demo.Tone", .singular, .legacy, "demo.Letter", some "style", some (.enum 2), false, none⟩

def letterMessage : Message := ⟨"demo.Letter", .legacy, true,
  [letterTone, ⟨"replies", 2, .message "demo.Letter", .repeated, .legacy, "demo.Letter", none, none, false,
    none⟩], ["style"]⟩

theorem letterSchema_message : letterSchema.message? "demo.Letter" = some letterMessage := by
  rfl

theorem letterTone_offered (n : Int64) :
    letterTone.Offered letterSchema 2147483648 (.ofLong n) false (· = [.int n]) := by
  refine .literal rfl rfl ?_ _
  intro c coercion
  cases coercion
  rfl

/-- A tone of `4294967301` faults, for its low bits are `5`, and one of `2` is read as it was given. -/
theorem letterTone_narrows :
    (∃ k, generateConstruction letterSchema .immediate "demo.Letter" [("tone", .ofLong 4294967301)] = .ok k ∧
      ∃ stopped, (k.code.run letterSchema 2147483648 []).run .start =
        (.error (.fault (.nullPointer (Signature.setter letterTone (.ref (.enum "demo.Tone"))).render)),
          stopped)) ∧
    ∃ k base r, generateConstruction letterSchema .immediate "demo.Letter" [("tone", .ofLong 2)] = .ok k ∧
      TypedValue.input (.message "demo.Letter") false false = .ok base ∧
      generateAccess letterSchema "demo.Letter" base "tone" = .ok r ∧
      ∃ id data built, (k.code.run letterSchema 2147483648 []).run .start =
          (.ok (some (.ref id (.message data))), built) ∧
        ∃ result after, (r.code.run letterSchema 0 [.ref id (.message data)]).run built =
          (.ok (some result), after) ∧ Access.Form r.isBoxed (.int 2) result := by
  have narrows (n : Int64) := generateConstruction_narrows letterSchema_resolved letterSchema_message
    (.inl List.mem_cons_self) (show letterTone.LeadsBack letterSchema letterMessage from rfl) rfl rfl
    (.inr ⟨_, rfl⟩) (by decide) (letterTone_offered n) false false
  constructor
  · obtain ⟨c, k, _, _, coercion, generated, -, -, -, runs⟩ := narrows 4294967301
    have lacks : letterTone.Lacks letterSchema (4294967301 : Int64).toInt32 :=
      ⟨rfl, "demo.Tone", _, rfl, rfl, by decide⟩
    obtain ⟨stopped, stop⟩ := (runs .start Machine.start_tidy).1 lacks
    cases coercion
    exact ⟨k, generated, stopped, stop⟩
  · obtain ⟨c, k, base, r, -, generated, input, accessed, -, runs⟩ := narrows 2
    have declares : ¬letterTone.Lacks letterSchema (2 : Int64).toInt32 := by
      rintro ⟨-, name, e, kind, found, lacking⟩
      cases kind
      cases found
      exact lacking ⟨"WARM", 2⟩ (by decide) rfl
    obtain ⟨id, data, built, run, -, reads⟩ := (runs .start Machine.start_tidy).2 declares
    obtain ⟨result, after, read, form⟩ := reads _ rfl 0 built
    exact ⟨k, base, r, generated, input, accessed, id, data, built, run, result, after, read, form⟩

/-- A tone that is not declared, `4294967298`, makes a letter all the same: one whose tone is `2`. -/
theorem letterTone_wraps :
    (∀ e, letterSchema.enum? "demo.Tone" = some e → ∀ v ∈ e.values, v.number.toInt64 ≠ 4294967298) ∧
    ∃ k, generateConstruction letterSchema .immediate "demo.Letter" [("tone", .ofLong 4294967298)] = .ok k ∧
      ∃ id data built, (k.code.run letterSchema 2147483648 []).run .start =
          (.ok (some (.ref id (.message data))), built) ∧
        (data.elements 1).map letterTone.logical = [.int 2] := by
  have loaded := Schema.loaded_of_resolve letterSchema_resolved
  have within : letterTone ∈ letterSchema.fieldsOf "demo.Letter" :=
    List.mem_append_left _ List.mem_cons_self
  constructor
  · intro e found
    cases found
    decide
  · obtain ⟨k, generated, runs⟩ := (letterTone_offered 4294967298).run_settles loaded
      letterSchema_message within rfl rfl (by decide)
    refine ⟨k, generated, ?_⟩
    obtain ⟨_, rfl, settles⟩ := runs .start Machine.start_tidy
    rw [Filling.take_singleton, Field.firstRefusal?_singleton] at settles
    obtain ⟨_, built, run, id, data, rfl, stores⟩ := settles
    exact ⟨id, data, built, run, (stores.kept loaded letterSchema_message within fun _ => ⟨_, rfl⟩).held⟩

end MessageCode
