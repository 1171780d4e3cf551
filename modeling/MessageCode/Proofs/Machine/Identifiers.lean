import MessageCode.Generate.Signature
import MessageCode.Machine.Run
import MessageCode.Proofs.Machine.Logical
import MessageCode.Proofs.Schema.Resolved

/-!
What the identifiers of extensions lead back to. Resolution compares the names of the extensions of one
message, and an identifier is a name within a scope, so that extensions of two messages can share one.
-/

namespace MessageCode

/-- The identifiers of the two extensions are under one name in one place. -/
def Field.SharesIdentifier (f g : Field) : Prop :=
  g.name = f.name ∧ g.extensionScope.map (·.owner) = f.extensionScope.map (·.owner)

/-- No earlier extension shares the identifier of the extension. -/
def Schema.Identifies (s : Schema) (f : Field) : Prop :=
  ∃ before after, s.extensions = before ++ f :: after ∧ ∀ g ∈ before, ¬f.SharesIdentifier g

section

variable {s : Schema} {f g : Field} {scope : ExtensionScope}

theorem Schema.extensionById?_iff (declared : f.extensionScope = some scope) :
    s.extensionById? scope.owner f.name = some f ↔ s.Identifies f := by
  unfold Schema.extensionById? Schema.Identifies Field.SharesIdentifier
  rw [declared]
  simp only [List.find?_eq_some_iff_append, declared, Option.map_some, decide_true, Bool.and_self,
    true_and, Bool.not_eq_true', Bool.and_eq_false_imp, decide_eq_true_eq, decide_eq_false_iff_not,
    not_and]

/-- Every identifier finds an extension, which shares it with the one that it was made for. -/
theorem Schema.exists_extensionById? (mem : f ∈ s.extensions) (declared : f.extensionScope = some scope) :
    ∃ g ∈ s.extensions, s.extensionById? scope.owner f.name = some g ∧ f.SharesIdentifier g := by
  rcases found : s.extensionById? scope.owner f.name with _ | g
  · have absent := List.find?_eq_none.mp found f mem
    simp [declared] at absent
  · have same := List.find?_some found
    simp only [Bool.and_eq_true, decide_eq_true_eq] at same
    refine ⟨g, List.mem_of_find?_eq_some found, rfl, same.1, ?_⟩
    rw [same.2, declared]
    rfl

theorem Signature.extensionId_load (mem : f ∈ s.extensions) (declared : f.extensionScope = some scope) :
    ∃ id, Signature.extensionId f = .ok id ∧
      StaticField.load s id = .ok (.extension scope.owner f.name) := by
  obtain ⟨g, -, found, -⟩ := Schema.exists_extensionById? mem declared
  have known : (s.extensionById? scope.owner f.name).isSome = true := by rw [found]; rfl
  unfold Signature.extensionId
  rw [declared]
  cases scope with
  | message name => exact ⟨_, rfl, if_pos known⟩
  | file holder => exact ⟨_, rfl, if_pos known⟩

/-- An operation that is given an identifier takes the extension that it finds for the one that is
meant, or refuses it because it extends another message. -/
theorem Native.extensionArg_eq {c : Call} {id : ObjectId} {owner name receiverType : String}
    (arg : c.objectArg 0 = .ok (id, .extension owner name))
    (found : s.extensionById? owner name = some g) :
    extensionArg s c receiverType =
      if g.container = receiverType then .ok g
      else .error (.illegalArgument ("extension " ++ g.fullName ++ " does not extend " ++ receiverType)) := by
  unfold extensionArg
  rw [arg]
  dsimp only [bind, Except.bind]
  rw [found]

end

/-- What the identifier of an extension leads back to. Its static always holds it, and it finds the
extension unless an earlier one shares it; operations on the extended message then refuse it. -/
theorem Schema.identifiers_resolve {files : List FileDescription} {s : Schema}
    (resolved : Schema.resolve files = .ok s) {f : Field} (mem : f ∈ s.extensions) :
    ∃ scope id, f.extensionScope = some scope ∧ Signature.extensionId f = .ok id ∧
      StaticField.load s id = .ok (.extension scope.owner f.name) ∧
      (s.extensionById? scope.owner f.name = some f ↔ s.Identifies f) ∧
      ∀ c identifier, c.objectArg 0 = .ok (identifier, .extension scope.owner f.name) →
        (s.Identifies f → Native.extensionArg s c f.container = .ok f) ∧
        (¬s.Identifies f → ∃ g ∈ s.extensions, f.SharesIdentifier g ∧ g.container ≠ f.container ∧
          Native.extensionArg s c f.container = .error (.illegalArgument
            ("extension " ++ g.fullName ++ " does not extend " ++ f.container))) := by
  have loaded := Schema.loaded_of_resolve resolved
  obtain ⟨scope, declared⟩ := Option.isSome_iff_exists.mp (loaded.scope f mem)
  obtain ⟨id, identifier, load⟩ := Signature.extensionId_load mem declared
  have finds := Schema.extensionById?_iff (s := s) declared
  refine ⟨scope, id, declared, identifier, load, finds, fun c extensionId arg => ⟨?_, ?_⟩⟩
  · intro identifies
    rw [Native.extensionArg_eq arg (finds.mpr identifies), if_pos rfl]
  · intro ambiguous
    obtain ⟨g, mem', found, shares⟩ := Schema.exists_extensionById? mem declared
    have apart : g.container ≠ f.container := by
      intro same
      have rules := Schema.wellFormed_of_resolve resolved
      obtain ⟨m, known, named, -⟩ := rules.container f mem
      have own : ∀ e ∈ s.extensions, e.container = f.container →
          e ∈ m.fields ++ s.extensionsOf m.fullName := by
        intro e within container
        exact List.mem_append_right _ (List.mem_filter.mpr ⟨within, by simp [container, named]⟩)
      cases (rules.apart m known).eq_of_name (own g mem' same) (own f mem rfl) shares.1
      exact ambiguous (finds.mp found)
    exact ⟨g, mem', shares, apart, by rw [Native.extensionArg_eq arg found, if_neg apart]⟩

/-- Letters and parcels can each have a note. -/
def parcelFile : FileDescription where
  package := "demo"
  revision := .legacy
  holder := "Demo"
  messages := [⟨"Letter", true, []⟩, ⟨"Parcel", true, []⟩]
  enums := []
  extensions := [⟨"Letter", none, ⟨"note", 100, .text, none, .singular, none, none, false⟩⟩,
    ⟨"Parcel", none, ⟨"note", 100, .text, none, .singular, none, none, false⟩⟩]

namespace Parcel

def note (message : String) : Field :=
  ⟨"note", 100, .text, .singular, .legacy, message, none, none, false, some (.file "demo.Demo")⟩

def schema : Schema where
  messages := SanitizedKind.wrappers ++
    [⟨"demo.Letter", .legacy, true, [], []⟩, ⟨"demo.Parcel", .legacy, true, [], []⟩]
  enums := []
  extensions := [note "demo.Letter", note "demo.Parcel"]

def read (message : String) : Call :=
  ⟨Signature.getExtension, some (.ref 0 (.message (.empty message))),
    [.ref 1 (.extension "demo.Demo" "note")]⟩

theorem read_arg (message : String) :
    (read message).objectArg 0 = .ok (1, .extension "demo.Demo" "note") := rfl

end Parcel

theorem parcelFile_resolved : Schema.resolve [parcelFile] = .ok Parcel.schema := by
  rfl

/-- The note of a letter is the first with its identifier, which leads back to it. -/
theorem parcel_letterNote_resolves :
    Parcel.schema.extensionById? "demo.Demo" "note" = some (Parcel.note "demo.Letter") ∧
      Native.extensionArg Parcel.schema (Parcel.read "demo.Letter") "demo.Letter" =
        .ok (Parcel.note "demo.Letter") := by
  have first : Parcel.schema.Identifies (Parcel.note "demo.Letter") :=
    ⟨[], _, rfl, List.forall_mem_nil _⟩
  obtain ⟨scope, id, declared, -, -, finds, takes⟩ :=
    Schema.identifiers_resolve parcelFile_resolved (List.mem_cons_self : Parcel.note "demo.Letter" ∈ _)
  cases declared
  exact ⟨finds.mpr first, (takes _ 1 (Parcel.read_arg "demo.Letter")).1 first⟩

/-- The note of a parcel has the identifier of the note of a letter, and no parcel takes it. -/
theorem parcel_notes_clash :
    Schema.resolve [parcelFile] = .ok Parcel.schema ∧
    Parcel.schema.extensionById? "demo.Demo" "note" = some (Parcel.note "demo.Letter") ∧
    Native.extensionArg Parcel.schema (Parcel.read "demo.Parcel") "demo.Parcel" =
      .error (.illegalArgument "extension demo.Letter.note does not extend demo.Parcel") := by
  have found : Parcel.schema.extensionById? "demo.Demo" "note" = some (Parcel.note "demo.Letter") := rfl
  refine ⟨parcelFile_resolved, found, ?_⟩
  rw [Native.extensionArg_eq (Parcel.read_arg "demo.Parcel") found]
  rfl

end MessageCode
