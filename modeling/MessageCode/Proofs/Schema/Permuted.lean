import MessageCode.Proofs.Schema.Resolved

/-!
The order of files. Every rule for a description asks which types and values there are in all files, and
not where. So files in another order are accepted when these are, and each of them gives the same
messages, enums and extensions as before.
-/

namespace MessageCode

def TypeTable.Alike (types types' : TypeTable) : Prop := ∀ entry, entry ∈ types ↔ entry ∈ types'

section

variable {types types' : TypeTable} {values : String → String → Int32 → Prop} {file : FileDescription}

namespace TypeTable

theorem Alike.symm (alike : types.Alike types') : types'.Alike types := fun entry => (alike entry).symm

theorem Stands.alike {sort : TypeSort} {name full : String} (h : types.Stands file sort name full)
    (alike : types.Alike types') : types'.Stands file sort name full := by
  obtain ⟨mem, itself | ⟨missing, inPackage⟩⟩ := h
  · exact ⟨(alike _).mp mem, .inl itself⟩
  · exact ⟨(alike _).mp mem, .inr ⟨fun mem' => missing ((alike _).mpr mem'), inPackage⟩⟩

/-- Names stand for the same in tables with the same types. -/
theorem Alike.resolve_eq (alike : types.Alike types') (nodup : (types.map Prod.fst).Nodup)
    (nodup' : (types'.map Prod.fst).Nodup) (file : FileDescription) (name : String) (sort : TypeSort)
    (field : String) : types.resolve file name sort field = types'.resolve file name sort field := by
  have same : ∀ name, types.has name sort = types'.has name sort := fun name => by
    rw [Bool.eq_iff_iff, has_iff nodup, has_iff nodup', alike]
  rw [resolve, resolve, same, same]

end TypeTable

namespace FieldDescription

variable {d : FieldDescription}

theorem HasKind.alike {kind : FieldKind} (h : d.HasKind types file kind) (alike : types.Alike types') :
    d.HasKind types' file kind := by
  cases h with
  | enum given named stands => exact .enum given named (stands.alike alike)
  | message given named stands => exact .message given named (stands.alike alike)
  | _ given =>
      constructor
      exact given

theorem WellFormed.alike (h : d.WellFormed types values file) (alike : types.Alike types') :
    d.WellFormed types' values file :=
  ⟨h.positive, h.kind.imp fun _ kind => kind.alike alike, h.asText,
    fun v kind given hasKind => h.default v kind given (hasKind.alike alike.symm)⟩

theorem Describes.alike {container : String} {scope : Option ExtensionScope} {f : Field}
    (h : d.Describes types values file container scope f) (alike : types.Alike types') :
    d.Describes types' values file container scope f :=
  { h with kind := h.kind.alike alike }

end FieldDescription

namespace MessageDescription

variable {m : MessageDescription}

theorem WellFormed.alike (h : m.WellFormed types values file) (alike : types.Alike types') :
    m.WellFormed types' values file :=
  { h with field := fun d mem => (h.field d mem).alike alike }

theorem Describes.alike {message : Message} (h : m.Describes types values file message)
    (alike : types.Alike types') : m.Describes types' values file message :=
  { h with fields := h.fields.imp fun _ _ described => described.alike alike }

end MessageDescription

namespace ExtensionDescription

variable {e : ExtensionDescription}

theorem HasScope.alike {scope : ExtensionScope} (h : e.HasScope types file scope)
    (alike : types.Alike types') : e.HasScope types' file scope := by
  cases h with
  | message given stands => exact .message given (stands.alike alike)
  | file given => exact .file given

theorem WellFormed.alike {files files' : List FileDescription} (h : e.WellFormed types values file files)
    (alike : types.Alike types') (within : ∀ home ∈ files, home ∈ files') :
    e.WellFormed types' values file files' := by
  obtain ⟨full, stands, home, mem, target⟩ := h.extendee
  exact ⟨⟨full, stands.alike alike, home, within home mem, target⟩,
    fun name given => (h.scope name given).imp fun _ stands => stands.alike alike,
    h.field.alike alike, h.alone⟩

theorem Describes.alike {f : Field} (h : e.Describes types values file f) (alike : types.Alike types') :
    e.Describes types' values file f := by
  obtain ⟨extendee, scope, stands, hasScope, described⟩ := h
  exact ⟨extendee, scope, stands.alike alike, hasScope.alike alike, described.alike alike⟩

theorem ApartFrom.symm {e e' : FileDescription × ExtensionDescription} (h : ApartFrom types e e') :
    ApartFrom types e' e :=
  fun full stands' stands => (h full stands stands').imp Ne.symm Ne.symm

theorem ApartFrom.alike {e e' : FileDescription × ExtensionDescription} (h : ApartFrom types e e')
    (alike : types.Alike types') : ApartFrom types' e e' :=
  fun full stands stands' => h full (stands.alike alike.symm) (stands'.alike alike.symm)

end ExtensionDescription

end

namespace FileDescription

variable {files files' : List FileDescription}

section

variable (order : files.Perm files')

include order

theorem declaredTypes_perm : (declaredTypes files).Perm (declaredTypes files') :=
  (order.flatMap_right types).append_left _

theorem declaredTypes_alike : (declaredTypes files).Alike (declaredTypes files') :=
  fun _ => (declaredTypes_perm order).mem_iff

theorem declaresValue_eq : DeclaresValue files = DeclaresValue files' := by
  funext enum value number
  simp only [DeclaresValue, order.mem_iff]

/-- Files that keep the rules keep them in any order. -/
theorem WellFormed.perm (h : WellFormed files) : WellFormed files' where
  types := ((declaredTypes_perm order).map Prod.fst).nodup_iff.mp h.types
  enum file mem := h.enum file (order.mem_iff.mpr mem)
  message file mem m mem' := by
    rw [← declaresValue_eq order]
    exact (h.message file (order.mem_iff.mpr mem) m mem').alike (declaredTypes_alike order)
  extension file mem e mem' := by
    rw [← declaresValue_eq order]
    exact (h.extension file (order.mem_iff.mpr mem) e mem').alike (declaredTypes_alike order)
      fun _ => order.mem_iff.mp
  apart := by
    have apart := h.apart.imp fun apart => apart.alike (declaredTypes_alike order)
    exact ((order.flatMap_right _).pairwise_iff fun apart => apart.symm).mp apart

end

/-- What every file contributes among these files: the messages and the extensions that it describes. -/
structure Contributes (files : List FileDescription) (messages : FileDescription → List Message)
    (extensions : FileDescription → List Field) : Prop where
  messages : ∀ file ∈ files, List.Forall₂
    (MessageDescription.Describes (declaredTypes files) (DeclaresValue files) file)
    file.messages (messages file)
  extensions : ∀ file ∈ files, List.Forall₂
    (ExtensionDescription.Describes (declaredTypes files) (DeclaresValue files) file)
    file.extensions (extensions file)

theorem WellFormed.exists_contributes (h : WellFormed files) :
    ∃ messages extensions, Contributes files messages extensions := by
  have described : ∀ file, ∃ messages extensions, file ∈ files →
      List.Forall₂ (MessageDescription.Describes (declaredTypes files) (DeclaresValue files) file)
        file.messages messages ∧
      List.Forall₂ (ExtensionDescription.Describes (declaredTypes files) (DeclaresValue files) file)
        file.extensions extensions := by
    intro file
    by_cases mem : file ∈ files
    · obtain ⟨messages, described⟩ :=
        Paired.exists_of_forall fun m mem' => (h.message file mem m mem').exists_describes
      obtain ⟨extensions, described'⟩ :=
        Paired.exists_of_forall fun e mem' => (h.extension file mem e mem').exists_describes
      exact ⟨messages, extensions, fun _ => ⟨described, described'⟩⟩
    · exact ⟨[], [], fun mem' => absurd mem' mem⟩
  choose messages extensions described using described
  exact ⟨messages, extensions, fun file mem => (described file mem).1, fun file mem => (described file mem).2⟩

namespace Contributes

variable {messages : FileDescription → List Message} {extensions : FileDescription → List Field}
  (h : Contributes files messages extensions)

include h

theorem perm (order : files.Perm files') : Contributes files' messages extensions where
  messages file mem := by
    rw [← declaresValue_eq order]
    exact (h.messages file (order.mem_iff.mpr mem)).imp fun _ _ described =>
      described.alike (declaredTypes_alike order)
  extensions file mem := by
    rw [← declaresValue_eq order]
    exact (h.extensions file (order.mem_iff.mpr mem)).imp fun _ _ described =>
      described.alike (declaredTypes_alike order)

/-- The files describe what they contribute, one after the other. -/
theorem describe : Describe files
    { messages := SanitizedKind.wrappers ++ files.flatMap messages
      enums := files.flatMap fun file => file.enums.map (·.enumType file)
      extensions := files.flatMap extensions } where
  messages := by
    refine ⟨_, rfl, Paired.flatMap fun file mem => ?_⟩
    exact List.forall₂_map_left_iff.mpr (h.messages file mem)
  enums := by
    rw [allEnums, List.map_flatMap]
    simp only [List.map_map, Function.comp_def]
  extensions := Paired.flatMap fun file mem => List.forall₂_map_left_iff.mpr (h.extensions file mem)

end Contributes

end FileDescription

namespace Schema

open FileDescription

variable {files files' : List FileDescription}

/-- A resolved schema has what every file contributes, file by file. -/
theorem exists_contributes_of_resolve {s : Schema} (resolved : resolve files = .ok s) :
    ∃ messages extensions, Contributes files messages extensions ∧
      ∀ {files'}, files.Perm files' → resolve files' = .ok
        { messages := SanitizedKind.wrappers ++ files'.flatMap messages
          enums := files'.flatMap fun file => file.enums.map (·.enumType file)
          extensions := files'.flatMap extensions } := by
  have rules := (resolve_eq_ok.mp resolved).1
  obtain ⟨messages, extensions, contributes⟩ := rules.exists_contributes
  exact ⟨messages, extensions, contributes,
    fun order => resolve_eq_ok.mpr ⟨rules.perm order, (contributes.perm order).describe⟩⟩

/-- The order of files does not matter. Files are resolved in one order exactly when they are in another,
and then to the same messages and enums, under the same names, and to the same extensions but for the
order of their files; names in the files stand for the same types. -/
theorem resolve_perm (order : files.Perm files') :
    ((∃ s, resolve files = .ok s) ↔ ∃ s, resolve files' = .ok s) ∧
    ∀ s s', resolve files = .ok s → resolve files' = .ok s' →
      (s.messages.Perm s'.messages ∧ ∀ name, s.message? name = s'.message? name) ∧
      (s.enums.Perm s'.enums ∧ ∀ name, s.enum? name = s'.enum? name) ∧
      (s.extensions.Perm s'.extensions ∧ ∃ own : FileDescription → List Field,
        s.extensions = files.flatMap own ∧ s'.extensions = files'.flatMap own ∧
        ∀ file ∈ files, List.Forall₂
          (ExtensionDescription.Describes (declaredTypes files) (DeclaresValue files) file)
          file.extensions (own file)) ∧
      ∀ types types', TypeTable.ofFiles files = .ok types → TypeTable.ofFiles files' = .ok types' →
        ∀ file name sort field, types.resolve file name sort field = types'.resolve file name sort field := by
  refine ⟨⟨?_, ?_⟩, ?_⟩
  · rintro ⟨s, resolved⟩
    obtain ⟨_, _, -, resolves⟩ := exists_contributes_of_resolve resolved
    exact ⟨_, resolves order⟩
  · rintro ⟨s, resolved⟩
    obtain ⟨_, _, -, resolves⟩ := exists_contributes_of_resolve resolved
    exact ⟨_, resolves order.symm⟩
  · intro s s' resolved resolved'
    have names := (wellFormed_of_resolve resolved).names
    obtain ⟨messages, extensions, contributes, resolves⟩ := exists_contributes_of_resolve resolved
    cases resolved.symm.trans (resolves (.refl files))
    cases resolved'.symm.trans (resolves order)
    have sameMessages := (order.flatMap_right messages).append_left SanitizedKind.wrappers
    have sameEnums := order.flatMap_right fun file => file.enums.map (·.enumType file)
    refine ⟨⟨sameMessages, find?_key_perm names.of_append_left sameMessages⟩,
      ⟨sameEnums, find?_key_perm names.of_append_right sameEnums⟩,
      ⟨order.flatMap_right extensions, extensions, rfl, rfl, contributes.extensions⟩, ?_⟩
    intro types types' made made'
    obtain ⟨rfl, nodup⟩ := TypeTable.ofFiles_eq_ok.mp made
    obtain ⟨rfl, nodup'⟩ := TypeTable.ofFiles_eq_ok.mp made'
    exact (declaredTypes_alike order).resolve_eq nodup nodup'

end Schema

def postFile : FileDescription where
  package := "post"
  revision := .legacy
  holder := "Post"
  messages := [⟨"Letter", true, [⟨"sender", 1, .message, some "people.Person", .singular, none, none, false⟩,
    ⟨"tone", 2, .enum, some "people.Tone", .singular, none, some (.text "WARM"), false⟩]⟩]
  enums := []
  extensions := [⟨"people.Person", none, ⟨"address", 100, .text, none, .singular, none, none, false⟩⟩]

def peopleFile : FileDescription where
  package := "people"
  revision := .legacy
  holder := "People"
  messages := [⟨"Person", true,
    [⟨"letters", 1, .message, some "post.Letter", .repeated, none, none, false⟩]⟩]
  enums := [⟨"Tone", [⟨"PLAIN", 0⟩, ⟨"WARM", 2⟩]⟩]
  extensions := [⟨"post.Letter", none, ⟨"stamp", 100, .text, none, .singular, none, none, false⟩⟩]

/-- Each of the files refers to the other one, and either may come first. -/
theorem postFile_peopleFile_perm :
    ∃ s s', Schema.resolve [postFile, peopleFile] = .ok s ∧
      Schema.resolve [peopleFile, postFile] = .ok s' ∧
      (∀ name, s.message? name = s'.message? name) ∧ (∀ name, s.enum? name = s'.enum? name) ∧
      s.extensions.Perm s'.extensions := by
  obtain ⟨resolves_iff, same⟩ := Schema.resolve_perm (.swap peopleFile postFile [])
  have resolves : ∃ s, Schema.resolve [postFile, peopleFile] = .ok s := ⟨_, rfl⟩
  obtain ⟨s, resolved⟩ := resolves
  obtain ⟨s', resolved'⟩ := resolves_iff.mp ⟨s, resolved⟩
  obtain ⟨⟨-, messages⟩, ⟨-, enums⟩, ⟨extensions, -⟩, -⟩ := same s s' resolved resolved'
  exact ⟨s, s', resolved, resolved', messages, enums, extensions⟩

end MessageCode
