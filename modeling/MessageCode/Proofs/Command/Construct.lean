import MessageCode.Proofs.Command.Literal
import MessageCode.Proofs.Generate.Built

/-!
Constructions of the command line. Whatever arguments are accepted, there is code for the message; its run
gives the message unless a literal says what its field refuses, and reads of the message do not fail.
-/

namespace MessageCode

open Stateful

namespace Command

/-- The argument assigns to a field a literal in which it refuses a value that an index can reach. -/
def Rejects (s : Schema) (message argument : String) (fault : Fault) : Prop :=
  ∃ name literal f, Literal.split argument = .ok (name, literal) ∧ s.field? message name = some f ∧
    literal ≠ "null" ∧ ∃ item ∈ (Literal.scalars f literal).take Int32.maxValue.toInt.toNat,
      Literal.Refused s f item fault

section

variable {s : Schema} {message argument : String} {m : Message} {arguments : List String}
  {values : List (String × TypedValue)} {value : String × TypedValue}

/-- An accepted argument gives values to a field, and what the field refuses of them is in a literal. -/
theorem exists_given (loaded : s.Loaded) (found : s.message? message = some m) (fuel : Nat)
    (parsed : (do
      let (field, literal) ← Literal.split argument
      return (field, ← Literal.parse s message field literal)) = Except.ok value) :
    ∃ given, ((∀ stop, Field.rejection? s given = some stop →
          ∃ fault, stop = .fault fault ∧ Rejects s message argument fault) ∧
        (Field.rejection? s given = none → ∀ fault, ¬Rejects s message argument fault)) ∧
      Argues s message fuel value given := by
  obtain ⟨⟨name, literal⟩, split, rest⟩ := Fallible.bind_eq_ok.mp parsed
  obtain ⟨v, read, same⟩ := Fallible.bind_eq_ok.mp rest
  cases same
  obtain ⟨f, c, named, coercion, accepted⟩ := Literal.exists_of_parse loaded found read
  have mem := Schema.Loaded.mem_of_field? found named
  have called := Schema.Loaded.name_of_field? named
  rcases accepted with ⟨null, rfl⟩ | ⟨present, written, boxed, reads, offered⟩
  · refine ⟨(f, []), ⟨?_, ?_⟩, mem, called, .null⟩
    · intro stop rejected
      rw [Field.rejection?, coercion] at rejected
      cases rejected
    · rintro - fault ⟨name', literal', f', split', -, present, -⟩
      cases split.symm.trans split'
      exact present null
  · refine ⟨(f, written), ⟨?_, ?_⟩, mem, called, .offered (offered fuel)⟩
    · intro stop rejected
      rw [Field.rejection?, coercion] at rejected
      obtain ⟨fault, first, rfl⟩ := Option.map_eq_some_iff.mp rejected
      obtain ⟨l, within, refused⟩ := List.exists_of_findSome?_eq_some first
      obtain ⟨item, mem', reads⟩ := Paired.left_of_mem (List.forall₂_take _ reads) within
      exact ⟨fault, rfl, name, literal, f, split, named, present, item, mem', reads.refused coercion refused⟩
    · rintro rejected fault ⟨name', literal', f', split', named', -, item, mem', refused⟩
      cases split.symm.trans split'
      cases named.symm.trans named'
      rw [Field.rejection?, coercion] at rejected
      obtain ⟨l, within, reads⟩ := Paired.right_of_mem (List.forall₂_take _ reads) mem'
      have accepted := List.findSome?_eq_none_iff.mp (Option.map_eq_none_iff.mp rejected) l within
      cases accepted.symm.trans (refused.refusal?_eq reads coercion)

/-- Every construction that the command line can express is generated. It runs to the message, whose
assigned fields can be read, if no field refuses what a literal says, and else it faults for one that does. -/
theorem exists_construction_of_parseArguments {files : List FileDescription}
    (resolved : Schema.resolve files = .ok s) (found : s.message? message = some m)
    (names : ∀ f ∈ s.fieldsOf message, f.LeadsBack s m ∧ f.SetsBack s m)
    (parsed : parseArguments s message arguments = .ok values) {fuel : Nat}
    (enough : Int32.maxValue.toInt.toNat < fuel) :
    ∃ k, generateConstruction s .immediate message values = .ok k ∧
      ∀ machine : Machine, machine.Tidy →
        (∃ id data built, (k.code.run s fuel []).run machine =
            (.ok (some (.ref id (.message data))), built) ∧ data.typeName = message ∧
          (∀ argument ∈ arguments, ∀ fault, ¬Rejects s message argument fault) ∧
          ∀ value ∈ values, ∀ boxed nullable, ∃ base r,
            TypedValue.input (.message message) boxed nullable = .ok base ∧
            generateAccess s message base value.1 = .ok r ∧
            ∀ input, Access.Form boxed (.message id data) input → ∀ fuel' machine',
              ∃ result after, (r.code.run s fuel' [input]).run machine' = (.ok (some result), after)) ∨
        ∃ fault stopped, (k.code.run s fuel []).run machine = (.error (.fault fault), stopped) ∧
          ∃ argument ∈ arguments, Rejects s message argument fault := by
  have loaded := Schema.loaded_of_resolve resolved
  obtain ⟨given, rejects, argues⟩ := Paired.exists_between (Fallible.mapM_eq_ok.mp parsed)
    fun argument value parsed => exists_given loaded found fuel parsed
  obtain ⟨k, generated, runs⟩ := loaded.construction_settles found (fun f mem => (names f mem).2)
    argues.flip enough
  refine ⟨k, generated, fun machine tidy => ?_⟩
  have settles := runs machine tidy
  cases stops : given.findSome? (Field.rejection? s) with
  | some stop =>
      rw [stops] at settles
      obtain ⟨stopped, run⟩ := settles
      obtain ⟨g, mem, rejected⟩ := List.exists_of_findSome?_eq_some stops
      obtain ⟨argument, mem', cause, -⟩ := Paired.left_of_mem rejects mem
      obtain ⟨fault, rfl, rejects⟩ := cause stop rejected
      exact .inr ⟨fault, stopped, run, argument, mem', rejects⟩
  | none =>
      rw [stops] at settles
      obtain ⟨_, built, run, id, data, rfl, valid, typeName⟩ := settles
      refine .inl ⟨id, data, built, run, typeName, ?_, ?_⟩
      · intro argument mem
        obtain ⟨g, mem', -, accepts⟩ := Paired.right_of_mem rejects mem
        exact accepts (List.findSome?_eq_none_iff.mp stops g mem')
      · intro value mem boxed nullable
        obtain ⟨⟨f, _⟩, -, within, named, -⟩ := Paired.right_of_mem argues.flip mem
        rw [← named]
        obtain ⟨base, r, act, input, accessed, converts, gives⟩ :=
          loaded.exists_read found within (names f within).1 boxed nullable
        refine ⟨base, r, input, accessed, fun input form fuel' machine' => ?_⟩
        obtain ⟨result, after, run, -⟩ :=
          converts.run_gives (gives id data input typeName valid form) fuel' machine'
        exact ⟨result, after, run⟩

end

theorem letterWeight_refused_iff {item : List Char} {fault : Fault} :
    Literal.Refused letterSchema letterWeight item fault ↔
      Text.int64? (String.ofList (Literal.unquote item)) = none ∧
        fault = .numberFormat (String.ofList (Literal.unquote item)) := by
  constructor
  · intro refused
    cases refused with
    | undeclared _ lacks =>
        obtain ⟨-, name, e, kind, -⟩ := lacks
        cases kind
    | numeral _ _ same unread =>
        cases same
        exact ⟨unread, rfl⟩
    | base64 kind => cases kind
  · rintro ⟨unread, rfl⟩
    exact .numeral rfl rfl rfl unread

theorem letter_rejects_weight {argument : String} (literal : String) (fault : Fault)
    (parts : Literal.split argument = .ok ("weight", literal)) :
    Rejects letterSchema "demo.Letter" argument fault ↔ literal ≠ "null" ∧
      Literal.Refused letterSchema letterWeight literal.toList fault := by
  constructor
  · rintro ⟨name, literal', f, split, named, present, item, within, refused⟩
    cases parts.symm.trans split
    cases named
    obtain rfl : item = literal.toList := List.mem_singleton.mp within
    exact ⟨present, refused⟩
  · rintro ⟨present, refused⟩
    exact ⟨"weight", literal, letterWeight, parts, rfl, present, _, List.mem_cons_self, refused⟩

theorem letter_accepts {argument : String} {fault : Fault}
    (mem : argument ∈ ["tone=2", "replies=[]", "weight=+007"]) :
    ¬Rejects letterSchema "demo.Letter" argument fault := by
  intro rejects
  rcases mem with _ | ⟨_, _ | ⟨_, _ | ⟨_, ⟨⟩⟩⟩⟩
  · obtain ⟨name, literal, f, split, named, -, item, within, refused⟩ := rejects
    have parts : Literal.split "tone=2" = .ok ("tone", "2") := rfl
    cases parts.symm.trans split
    cases named
    obtain rfl : item = ['2'] := List.mem_singleton.mp within
    cases refused with
    | undeclared read lacks =>
        obtain rfl : 2 = _ := Option.some.inj ((by decide : Text.int64? "2" = some 2).symm.trans read)
        obtain ⟨-, name, e, kind, found, undeclared⟩ := lacks
        cases kind
        cases found
        exact undeclared ⟨"WARM", 2⟩ (by decide) rfl
    | numeral kind => cases kind
    | base64 kind => cases kind
  · obtain ⟨name, literal, f, split, named, -, item, within, -⟩ := rejects
    have parts : Literal.split "replies=[]" = .ok ("replies", "[]") := rfl
    cases parts.symm.trans split
    cases named
    cases (within : item ∈ [])
  · obtain ⟨-, refused⟩ := (letter_rejects_weight "+007" _ rfl).mp rejects
    obtain ⟨unread, -⟩ := letterWeight_refused_iff.mp refused
    cases (by decide : Text.int64? "+007" = some 7).symm.trans unread

theorem letterSchema_names : ∀ f ∈ letterSchema.fieldsOf "demo.Letter",
    f.LeadsBack letterSchema letterMessage ∧ f.SetsBack letterSchema letterMessage := by
  intro f mem
  rcases mem with _ | ⟨_, _ | ⟨_, _ | ⟨_, ⟨⟩⟩⟩⟩ <;> exact ⟨rfl, rfl⟩

/-- A letter is constructed from a tone, from no replies and from a weight, and its fields can be read. With
a weight of `heavy` the construction is generated as well, but its run ends with the fault of the numeral. -/
theorem letter_constructed :
    (∃ values k, parseArguments letterSchema "demo.Letter" ["tone=2", "replies=[]", "weight=+007"] =
        .ok values ∧ values.map (·.1) = ["tone", "replies", "weight"] ∧
      generateConstruction letterSchema .immediate "demo.Letter" values = .ok k ∧
      ∃ id data built, (k.code.run letterSchema 2147483648 []).run .start =
          (.ok (some (.ref id (.message data))), built) ∧
        ∀ value ∈ values, ∃ base r, TypedValue.input (.message "demo.Letter") false false = .ok base ∧
          generateAccess letterSchema "demo.Letter" base value.1 = .ok r ∧
          ∃ result after, (r.code.run letterSchema 0 [.ref id (.message data)]).run built =
            (.ok (some result), after)) ∧
    ∃ values k stopped, parseArguments letterSchema "demo.Letter" ["weight=heavy"] = .ok values ∧
      generateConstruction letterSchema .immediate "demo.Letter" values = .ok k ∧
      (k.code.run letterSchema 2147483648 []).run .start =
        (.error (.fault (.numberFormat "heavy")), stopped) := by
  have constructs {arguments : List String} {values : List (String × TypedValue)}
      (parsed : parseArguments letterSchema "demo.Letter" arguments = .ok values) :=
    exists_construction_of_parseArguments letterSchema_resolved letterSchema_message letterSchema_names parsed
      (show Int32.maxValue.toInt.toNat < 2147483648 by decide)
  constructor
  · obtain ⟨values, parsed, given⟩ : ∃ values, parseArguments letterSchema "demo.Letter"
        ["tone=2", "replies=[]", "weight=+007"] = .ok values ∧
          values.map (·.1) = ["tone", "replies", "weight"] := ⟨_, rfl, rfl⟩
    obtain ⟨k, generated, runs⟩ := constructs parsed
    refine ⟨values, k, parsed, given, generated, ?_⟩
    rcases runs .start Machine.start_tidy with ⟨id, data, built, run, -, -, reads⟩ |
      ⟨fault, stopped, run, argument, mem, rejects⟩
    · refine ⟨id, data, built, run, fun value mem => ?_⟩
      obtain ⟨base, r, input, accessed, runs⟩ := reads value mem false false
      exact ⟨base, r, input, accessed, runs _ rfl 0 built⟩
    · exact absurd rejects (letter_accepts mem)
  · obtain ⟨values, parsed⟩ : ∃ values, parseArguments letterSchema "demo.Letter" ["weight=heavy"] =
        .ok values := ⟨_, rfl⟩
    obtain ⟨k, generated, runs⟩ := constructs parsed
    have rejects_iff (fault : Fault) : Rejects letterSchema "demo.Letter" "weight=heavy" fault ↔ _ :=
      letter_rejects_weight "heavy" fault rfl
    rcases runs .start Machine.start_tidy with ⟨id, data, built, run, -, accepts, -⟩ |
      ⟨fault, stopped, run, argument, mem, rejects⟩
    · exact absurd ((rejects_iff _).mpr ⟨by decide, letterWeight_refused_iff.mpr ⟨by decide, rfl⟩⟩)
        (accepts _ (List.mem_singleton_self _) _)
    · obtain rfl := List.mem_singleton.mp mem
      obtain ⟨-, refused⟩ := (rejects_iff fault).mp rejects
      obtain ⟨-, rfl⟩ := letterWeight_refused_iff.mp refused
      exact ⟨values, k, stopped, parsed, generated, run⟩

end Command

end MessageCode
