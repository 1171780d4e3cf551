import MessageCode.Proofs.Schema.Accepted

/-!
Resolution is exact. It takes the descriptions that are well-formed and no others, and gives the schema
that they describe.
-/

namespace MessageCode

namespace FileDescription

variable {files : List FileDescription} {own : List Message}

theorem mem_allMessages {file : FileDescription} {m : MessageDescription} :
    (file, m) ∈ allMessages files ↔ file ∈ files ∧ m ∈ file.messages := by
  simp [allMessages]

theorem mem_allEnums {file : FileDescription} {e : EnumDescription} :
    (file, e) ∈ allEnums files ↔ file ∈ files ∧ e ∈ file.enums := by
  simp [allEnums]

theorem mem_allExtensions {file : FileDescription} {e : ExtensionDescription} :
    (file, e) ∈ allExtensions files ↔ file ∈ files ∧ e ∈ file.extensions := by
  simp [allExtensions]

theorem names_perm : ((declaredTypes files).map Prod.fst).Perm
    (SanitizedKind.wrappers.map (·.fullName) ++
      ((allMessages files).map (fun m => m.1.qualify m.2.name) ++
        (allEnums files).map fun e => e.1.qualify e.2.name)) := by
  have types : (files.flatMap FileDescription.types).map Prod.fst = files.flatMap fun file =>
      (file.messages.map fun m => file.qualify m.name) ++ file.enums.map fun e => file.qualify e.name := by
    rw [List.map_flatMap]
    simp only [FileDescription.types, List.map_append, List.map_map, Function.comp_def]
  rw [declaredTypes, List.map_append, types, List.map_map, allMessages, allEnums, List.map_flatMap,
    List.map_flatMap]
  simp only [List.map_map, Function.comp_def]
  exact ((List.flatMap_append_perm files _ _).symm).append_left _

theorem names_nodup (nodup : ((declaredTypes files).map Prod.fst).Nodup)
    (messages : List.Forall₂ (fun m => m.2.Describes (declaredTypes files) (DeclaresValue files) m.1)
      (allMessages files) own) :
    ((SanitizedKind.wrappers ++ own).map (·.fullName) ++
      ((allEnums files).map fun e => e.2.enumType e.1).map (·.fullName)).Nodup := by
  rw [List.map_append, Paired.map_eq messages fun _ _ h => h.fullName, List.append_assoc, List.map_map]
  exact names_perm.nodup_iff.mp nodup

theorem provides (nodup : ((declaredTypes files).map Prod.fst).Nodup)
    (rules : ∀ file ∈ files, ∀ e ∈ file.enums, e.WellFormed) :
    EnumType.Provides ((allEnums files).map fun e => e.2.enumType e.1) (DeclaresValue files) := by
  have names : (((allEnums files).map fun e => e.2.enumType e.1).map (·.fullName)).Nodup := by
    rw [List.map_map]
    exact (names_perm.nodup_iff.mp nodup).of_append_right.of_append_right
  intro name value number
  constructor
  · rintro ⟨file, mem, e, mem', rfl, given⟩
    have found := (find?_key_eq_some (k := file.qualify e.name) names).mpr
      ⟨List.mem_map.mpr ⟨(file, e), mem_allEnums.mpr ⟨mem, mem'⟩, rfl⟩, rfl⟩
    refine ⟨⟨value, number⟩, ?_, rfl⟩
    rw [found]
    exact (find?_key_eq_some (rules file mem e mem').names).mpr ⟨given, rfl⟩
  · rintro ⟨v, found, rfl⟩
    obtain ⟨enum, found, named⟩ := Option.bind_eq_some_iff.mp found
    obtain ⟨mem, rfl⟩ := (find?_key_eq_some names).mp found
    obtain ⟨⟨file, e⟩, declared, rfl⟩ := List.mem_map.mp mem
    obtain ⟨mem, mem'⟩ := mem_allEnums.mp declared
    obtain ⟨given, rfl⟩ := (find?_key_eq_some (rules file mem e mem').names).mp named
    exact ⟨file, mem, e, mem', rfl, given⟩

section

variable (nodup : ((declaredTypes files).map Prod.fst).Nodup)
  (messages : List.Forall₂ (fun m => m.2.Describes (declaredTypes files) (DeclaresValue files) m.1)
    (allMessages files) own)

include nodup messages

/-- The rules for an extension in terms of the messages that the files describe. -/
theorem taken_iff {entry : FileDescription × ExtensionDescription} {f : Field} :
    ExtensionDescription.Taken (declaredTypes files) (DeclaresValue files)
        (SanitizedKind.wrappers ++ own) entry f ↔
      entry.2.WellFormed (declaredTypes files) (DeclaresValue files) entry.1 files ∧
        entry.2.Describes (declaredTypes files) (DeclaresValue files) entry.1 f := by
  obtain ⟨file, e⟩ := entry
  have names := (names_nodup nodup messages).of_append_left
  constructor
  · rintro ⟨⟨target, found, extendable, differs⟩, rules, ⟨extendee, scope, stands, hasScope, described⟩,
      alone⟩
    refine ⟨⟨?_, ?_, rules, described.oneof.symm.trans alone⟩,
      extendee, scope, stands, hasScope, described⟩
    · obtain ⟨mem, fullName⟩ := (find?_key_eq_some names).mp found
      rcases List.mem_append.mp mem with mem | mem
      · obtain ⟨kind, -, rfl⟩ := List.mem_map.mp mem
        cases extendable
      · obtain ⟨⟨home, m⟩, mem, describes⟩ := Paired.left_of_mem messages mem
        obtain ⟨mem, mem'⟩ := mem_allMessages.mp mem
        refine ⟨extendee, stands, home, mem, m, mem', ?_, describes.extendable.symm.trans extendable, ?_⟩
        · rw [← described.container, ← fullName, describes.fullName]
        · intro d declared
          obtain ⟨g, mem, same⟩ := Paired.right_of_mem describes.fields declared
          obtain ⟨name, number⟩ := differs g mem
          rw [same.name, described.name] at name
          rw [same.number, described.number] at number
          exact ⟨name, number⟩
    · intro name given
      cases hasScope with
      | message given' stands =>
          cases given.symm.trans given'
          exact ⟨_, stands⟩
      | file given' => cases given.symm.trans given'
  · rintro ⟨rules, extendee, scope, stands, hasScope, described⟩
    obtain ⟨full, stands', home, mem, m, mem', named, extendable, differs⟩ := rules.extendee
    obtain rfl := stands.unique nodup stands'
    obtain ⟨target, mem, describes⟩ :=
      Paired.right_of_mem messages (mem_allMessages.mpr ⟨mem, mem'⟩)
    refine ⟨⟨target, ?_, describes.extendable.trans extendable, ?_⟩, rules.field,
      ⟨extendee, scope, stands, hasScope, described⟩, described.oneof.trans rules.alone⟩
    · refine (find?_key_eq_some names).mpr ⟨List.mem_append_right _ mem, ?_⟩
      rw [describes.fullName, named, described.container]
    · intro g mem
      obtain ⟨d, declared, same⟩ := Paired.left_of_mem describes.fields mem
      obtain ⟨name, number⟩ := differs d declared
      rw [← same.name, ← described.name] at name
      rw [← same.number, ← described.number] at number
      exact ⟨name, number⟩

theorem forall₂_taken_iff {extensions : List Field} :
    List.Forall₂ (ExtensionDescription.Taken (declaredTypes files) (DeclaresValue files)
        (SanitizedKind.wrappers ++ own)) (allExtensions files) extensions ↔
      (∀ e ∈ allExtensions files,
        e.2.WellFormed (declaredTypes files) (DeclaresValue files) e.1 files) ∧
      List.Forall₂ (fun e => e.2.Describes (declaredTypes files) (DeclaresValue files) e.1)
        (allExtensions files) extensions := by
  rw [← List.forall₂_and_left]
  exact ⟨List.Forall₂.imp fun _ _ => (taken_iff nodup messages).mp,
    List.Forall₂.imp fun _ _ => (taken_iff nodup messages).mpr⟩

end

/-- Described extensions are apart when their descriptions are. -/
theorem pairwise_apart_iff (nodup : ((declaredTypes files).map Prod.fst).Nodup) {extensions : List Field}
    (described : List.Forall₂
      (fun e => e.2.Describes (declaredTypes files) (DeclaresValue files) e.1)
      (allExtensions files) extensions) :
    extensions.Pairwise (fun g f => g.container = f.container → g.Differs f) ↔
      (allExtensions files).Pairwise (ExtensionDescription.ApartFrom (declaredTypes files)) := by
  constructor
  · intro apart
    refine Paired.pairwise described.flip apart ?_
    rintro f e f' e' ⟨extendee, scope, stands, -, d⟩ ⟨extendee', scope', stands', -, d'⟩ differs full same same'
    obtain rfl := stands.unique nodup same
    obtain rfl := stands'.unique nodup same'
    have differs := differs (d.container.trans d'.container.symm)
    rw [Field.Differs, d.name, d'.name, d.number, d'.number] at differs
    exact differs
  · intro apart
    refine Paired.pairwise described apart ?_
    rintro e f e' f' ⟨extendee, scope, stands, -, d⟩ ⟨extendee', scope', stands', -, d'⟩ differs same
    rw [d.container, d'.container] at same
    subst same
    rw [Field.Differs, d.name, d'.name, d.number, d'.number]
    exact differs extendee stands stands'

/-- Well-formed files describe a schema. -/
theorem WellFormed.exists_describe (h : WellFormed files) : ∃ s, Describe files s := by
  obtain ⟨own, messages⟩ := Paired.exists_of_forall fun m mem =>
    have declared := mem_allMessages.mp mem
    (h.message m.1 declared.1 m.2 declared.2).exists_describes
  obtain ⟨extensions, described⟩ := Paired.exists_of_forall fun e mem =>
    have declared := mem_allExtensions.mp mem
    (h.extension e.1 declared.1 e.2 declared.2).exists_describes
  exact ⟨⟨SanitizedKind.wrappers ++ own, _, extensions⟩, ⟨own, rfl, messages⟩, rfl, described⟩

end FileDescription

theorem DefaultValue.Meant.fits {values : String → String → Int32 → Prop} {kind : FieldKind} {v : Toml}
    {d : DefaultValue} (h : DefaultValue.Meant values kind v d) : d.Fits kind := by
  cases h with
  | bool b => exact rfl
  | int32 n low high =>
      exact .inr ⟨rfl, toInt64_toInt32_of_fits (Numeric.isSome_int32?.mpr ⟨low, high⟩)⟩
  | int64 n => exact .inl rfl
  | float x => exact .inl rfl
  | double x => exact .inr rfl
  | wholeFloat n => exact .inl rfl
  | wholeDouble n => exact .inr rfl
  | text t => exact .inl rfl
  | bytes t => exact .inr rfl
  | enum given => exact ⟨_, rfl⟩

section

variable {types : TypeTable} {values : String → String → Int32 → Prop} {file : FileDescription}

namespace FieldDescription

variable {container : String} {scope : Option ExtensionScope} {d : FieldDescription} {f : Field}

theorem HasKind.known {kind : FieldKind} (h : d.HasKind types file kind) :
    kind.Known (fun name => (name, .enum) ∈ types) (fun name => (name, .message) ∈ types) := by
  cases h with
  | enum _ _ stands => exact stands.1
  | message _ _ stands => exact stands.1
  | _ => trivial

/-- The rules for the description hold of the field that it describes. -/
theorem Describes.loaded (h : d.Describes types values file container scope f)
    (rules : d.WellFormed types values file) :
    f.Loaded (fun name => (name, .enum) ∈ types) (fun name => (name, .message) ∈ types) where
  positive := by
    rw [h.number]
    exact rules.positive
  kind := h.kind.known
  asText marked := h.kind.int64_iff.mpr (rules.asText (h.asText.symm.trans marked))
  default value given := by
    have meant := h.default
    rw [given] at meant
    generalize declared : d.default = default at meant
    cases meant with
    | some meant =>
        obtain ⟨singular, -⟩ := rules.default _ _ declared h.kind
        exact ⟨h.label.trans singular, meant.fits⟩

end FieldDescription

namespace MessageDescription

variable {m : MessageDescription} {message : Message}

theorem Describes.loaded (h : m.Describes types values file message)
    (rules : m.WellFormed types values file) :
    message.Loaded (fun name => (name, .enum) ∈ types) (fun name => (name, .message) ∈ types) where
  field f mem := by
    obtain ⟨d, declared, describes⟩ := Paired.left_of_mem h.fields mem
    exact describes.loaded (rules.field d declared)
  container f mem := by
    obtain ⟨d, -, describes⟩ := Paired.left_of_mem h.fields mem
    exact describes.container.trans h.fullName.symm
  declared f mem := by
    obtain ⟨d, -, describes⟩ := Paired.left_of_mem h.fields mem
    exact describes.scope
  oneof f mem oneof given := by
    obtain ⟨d, declared, describes⟩ := Paired.left_of_mem h.fields mem
    have member : d.oneof.isSome = true := by
      rw [← describes.oneof, given]
      rfl
    refine ⟨describes.label.trans (rules.oneof d declared member), ?_⟩
    rw [h.oneofs, mem_distinct_iff]
    exact List.mem_filterMap.mpr ⟨f, mem, given⟩

theorem Describes.apart (h : m.Describes types values file message)
    (rules : m.WellFormed types values file) : Apart message.fields where
  names := by
    rw [Paired.map_eq h.fields fun _ _ same => same.name]
    exact rules.names
  numbers := by
    rw [Paired.map_eq h.fields fun _ _ same => same.number]
    exact rules.numbers

end MessageDescription

end

theorem DefaultValue.enum_of_rel {values : String → String → Int32 → Prop} {kind : FieldKind}
    {declared : Option Toml} {number : Int32}
    (h : Option.Rel (Meant values kind) declared (some (.enum number))) :
    ∃ name value, kind = .enum name ∧ values name value number := by
  generalize same : (some (DefaultValue.enum number)) = default at h
  cases h with
  | none => cases same
  | some meant =>
      cases same
      cases meant with
      | enum given => exact ⟨_, _, rfl, given⟩

namespace Schema

open FileDescription

variable {files : List FileDescription} {s : Schema}

theorem resolve_eq (files : List FileDescription) : resolve files = do
    let types ← TypeTable.ofFiles files
    let enums ← (allEnums files).mapM fun e => e.2.resolve e.1
    let own ← (allMessages files).mapM fun m => m.2.resolve types enums m.1
    let messages := SanitizedKind.wrappers ++ own
    let extensions ← (allExtensions files).foldlM (ExtensionDescription.add types messages enums) []
    return { messages, enums, extensions } :=
  rfl

/-- Resolution keeps the rules and gives what is described. -/
theorem resolve_eq_ok :
    resolve files = .ok s ↔ FileDescription.WellFormed files ∧ Describe files s := by
  rw [resolve_eq, Fallible.bind_eq_ok]
  simp only [TypeTable.ofFiles_eq_ok]
  constructor
  · rintro ⟨_, ⟨rfl, nodup⟩, rest⟩
    obtain ⟨enums, resolved, rest⟩ := Fallible.bind_eq_ok.mp rest
    obtain ⟨own, messages, rest⟩ := Fallible.bind_eq_ok.mp rest
    obtain ⟨extensions, added, rest⟩ := Fallible.bind_eq_ok.mp rest
    cases Fallible.pure_eq_ok.mp rest
    simp only [Fallible.mapM_eq_ok, EnumDescription.resolve_eq_ok, List.forall₂_and_left,
      Paired.eq_map_iff] at resolved
    obtain ⟨enumRules, rfl⟩ := resolved
    have provides := provides nodup fun file mem e mem' =>
      enumRules (file, e) (mem_allEnums.mpr ⟨mem, mem'⟩)
    simp only [Fallible.mapM_eq_ok, MessageDescription.resolve_eq_ok nodup provides,
      List.forall₂_and_left] at messages
    obtain ⟨messageRules, messages⟩ := messages
    rw [Fallible.foldlM_gather (ExtensionDescription.add_adds nodup provides)] at added
    obtain ⟨_, rfl, taken, apart, -⟩ := added
    obtain ⟨extensionRules, described⟩ := (forall₂_taken_iff nodup messages).mp taken
    refine ⟨⟨nodup, ?_, ?_, ?_, (pairwise_apart_iff nodup described).mp apart⟩,
      ⟨own, rfl, messages⟩, rfl, described⟩
    · exact fun file mem e mem' => enumRules (file, e) (mem_allEnums.mpr ⟨mem, mem'⟩)
    · exact fun file mem m mem' => messageRules (file, m) (mem_allMessages.mpr ⟨mem, mem'⟩)
    · exact fun file mem e mem' => extensionRules (file, e) (mem_allExtensions.mpr ⟨mem, mem'⟩)
  · rintro ⟨rules, ⟨own, same, messages⟩, enums, extensions⟩
    have provides := provides rules.types rules.enum
    refine ⟨_, ⟨rfl, rules.types⟩, Fallible.bind_eq_ok.mpr ⟨s.enums, ?_, Fallible.bind_eq_ok.mpr
      ⟨own, ?_, Fallible.bind_eq_ok.mpr ⟨s.extensions, ?_, ?_⟩⟩⟩⟩
    · simp only [Fallible.mapM_eq_ok, EnumDescription.resolve_eq_ok, List.forall₂_and_left,
        Paired.eq_map_iff]
      refine ⟨fun e mem => ?_, enums⟩
      obtain ⟨mem, mem'⟩ := mem_allEnums.mp mem
      exact rules.enum e.1 mem e.2 mem'
    · rw [enums]
      simp only [Fallible.mapM_eq_ok, MessageDescription.resolve_eq_ok rules.types provides,
        List.forall₂_and_left]
      refine ⟨fun m mem => ?_, messages⟩
      obtain ⟨mem, mem'⟩ := mem_allMessages.mp mem
      exact rules.message m.1 mem m.2 mem'
    · rw [enums, Fallible.foldlM_gather (ExtensionDescription.add_adds rules.types provides)]
      refine ⟨s.extensions, rfl, (forall₂_taken_iff rules.types messages).mpr
        ⟨fun e mem => ?_, extensions⟩, (pairwise_apart_iff rules.types extensions).mpr rules.apart, fun _ mem =>
          (List.not_mem_nil mem).elim⟩
      obtain ⟨mem, mem'⟩ := mem_allExtensions.mp mem
      exact rules.extension e.1 mem e.2 mem'
    · rw [Fallible.pure_eq_ok, ← same]

theorem exists_message (h : Describe files s) {name : String}
    (mem : (name, .message) ∈ declaredTypes files) : ∃ m ∈ s.messages, m.fullName = name := by
  obtain ⟨own, messages, described⟩ := h.messages
  rw [messages]
  rcases List.mem_append.mp mem with mem | mem
  · obtain ⟨m, wrapper, same⟩ := List.mem_map.mp mem
    cases same
    exact ⟨m, List.mem_append_left _ wrapper, rfl⟩
  · obtain ⟨file, of, declared⟩ := List.mem_flatMap.mp mem
    rcases List.mem_append.mp declared with declared | declared
    · obtain ⟨m, mem', same⟩ := List.mem_map.mp declared
      cases same
      obtain ⟨message, mem, describes⟩ :=
        Paired.right_of_mem described (mem_allMessages.mpr ⟨of, mem'⟩)
      exact ⟨message, List.mem_append_right _ mem, describes.fullName⟩
    · obtain ⟨e, -, same⟩ := List.mem_map.mp declared
      cases same

theorem exists_described (h : Describe files s) {f : Field}
    (mem : (∃ m ∈ s.messages, f ∈ m.fields) ∨ f ∈ s.extensions) :
    f.default = none ∨ ∃ file d container scope,
      FieldDescription.Describes (declaredTypes files) (DeclaresValue files) file container scope d f := by
  rcases mem with ⟨m, mem, mem'⟩ | mem
  · obtain ⟨own, messages, described⟩ := h.messages
    rw [messages] at mem
    rcases List.mem_append.mp mem with mem | mem
    · obtain ⟨kind, -, rfl⟩ := List.mem_map.mp mem
      cases List.mem_singleton.mp mem'
      exact .inl rfl
    · obtain ⟨_, -, describes⟩ := Paired.left_of_mem described mem
      obtain ⟨d, -, describes⟩ := Paired.left_of_mem describes.fields mem'
      exact .inr ⟨_, d, _, _, describes⟩
  · obtain ⟨e, -, extendee, scope, -, -, describes⟩ := Paired.left_of_mem h.extensions mem
    exact .inr ⟨_, _, _, _, describes⟩

theorem exists_enum (h : Describe files s) {name : String} (mem : (name, .enum) ∈ declaredTypes files) :
    ∃ e ∈ s.enums, e.fullName = name := by
  rw [h.enums]
  rcases List.mem_append.mp mem with mem | mem
  · obtain ⟨m, -, same⟩ := List.mem_map.mp mem
    cases same
  · obtain ⟨file, of, declared⟩ := List.mem_flatMap.mp mem
    rcases List.mem_append.mp declared with declared | declared
    · obtain ⟨m, -, same⟩ := List.mem_map.mp declared
      cases same
    · obtain ⟨e, mem', same⟩ := List.mem_map.mp declared
      cases same
      exact ⟨e.enumType file, List.mem_map.mpr ⟨(file, e), mem_allEnums.mpr ⟨of, mem'⟩, rfl⟩, rfl⟩

section

variable (rules : FileDescription.WellFormed files) (h : Describe files s)

include rules h

theorem message_loaded {m : Message} (mem : m ∈ s.messages) :
    m.Loaded (fun name => (name, .enum) ∈ declaredTypes files)
      (fun name => (name, .message) ∈ declaredTypes files) ∧ Apart m.fields := by
  obtain ⟨own, messages, described⟩ := h.messages
  rw [messages] at mem
  rcases List.mem_append.mp mem with mem | mem
  · obtain ⟨kind, -, rfl⟩ := List.mem_map.mp mem
    exact kind.wrapper_loaded _ _
  · obtain ⟨⟨file, m⟩, mem, describes⟩ := Paired.left_of_mem described mem
    obtain ⟨mem, mem'⟩ := mem_allMessages.mp mem
    have kept := rules.message file mem m mem'
    exact ⟨describes.loaded kept, describes.apart kept⟩

theorem extension_taken {f : Field} (mem : f ∈ s.extensions) :
    ∃ e, ExtensionDescription.Taken (declaredTypes files) (DeclaresValue files) s.messages e f := by
  obtain ⟨own, messages, described⟩ := h.messages
  obtain ⟨⟨file, e⟩, mem, describes⟩ := Paired.left_of_mem h.extensions mem
  obtain ⟨mem, mem'⟩ := mem_allExtensions.mp mem
  rw [messages]
  exact ⟨(file, e), (taken_iff rules.types described).mpr ⟨rules.extension file mem e mem', describes⟩⟩

/-- The fields of a message and its extensions differ, the extensions among themselves too. -/
theorem extensions_apart : ApartFrom s.messages s.extensions := by
  intro name m found
  have own := (message_loaded rules h (List.mem_of_find?_eq_some found)).2
  have differ : (m.fields ++ s.extensions.filter fun f => f.container = name).Pairwise Field.Differs := by
    refine List.pairwise_append.mpr
      ⟨Field.pairwise_differs_iff.mpr ⟨own.names, own.numbers⟩, ?_, ?_⟩
    · have apart := (pairwise_apart_iff rules.types h.extensions).mpr rules.apart
      refine (apart.filter _).imp_of_mem ?_
      intro g f mem mem' differs
      have container : g.container = name := of_decide_eq_true (List.mem_filter.mp mem).2
      exact differs (container.trans (of_decide_eq_true (List.mem_filter.mp mem').2).symm)
    · intro g mem f mem'
      obtain ⟨mem', container⟩ := List.mem_filter.mp mem'
      obtain ⟨e, taken⟩ := extension_taken rules h mem'
      obtain ⟨target, found', -, differs⟩ := taken.target
      rw [of_decide_eq_true container] at found'
      cases found.symm.trans found'
      exact differs g mem
  obtain ⟨names, numbers⟩ := Field.pairwise_differs_iff.mp differ
  exact ⟨names, numbers⟩

end

theorem loaded_of_resolve (h : resolve files = .ok s) : s.Loaded := by
  obtain ⟨rules, described⟩ := resolve_eq_ok.mp h
  have enumKnown : ∀ name, (name, .enum) ∈ declaredTypes files → (s.enum? name).isSome = true := by
    intro name mem
    obtain ⟨e, known, rfl⟩ := exists_enum described mem
    exact List.find?_isSome.mpr ⟨e, known, by simp⟩
  have messageKnown : ∀ name, (name, .message) ∈ declaredTypes files → (s.message? name).isSome = true := by
    intro name mem
    obtain ⟨m, known, rfl⟩ := exists_message described mem
    exact List.find?_isSome.mpr ⟨m, known, by simp⟩
  constructor
  · obtain ⟨own, messages, -⟩ := described.messages
    intro kind
    rw [message?, messages]
    cases kind <;> rfl
  · exact fun m mem => (message_loaded rules described mem).1.imp enumKnown messageKnown
  · intro f mem
    obtain ⟨e, taken⟩ := extension_taken rules described mem
    obtain ⟨extendee, scope, -, -, describes⟩ := taken.describes
    exact (describes.loaded taken.rules).imp enumKnown messageKnown
  · intro f mem
    obtain ⟨e, taken⟩ := extension_taken rules described mem
    obtain ⟨extendee, scope, -, -, describes⟩ := taken.describes
    rw [describes.scope]
    rfl
  · intro f mem
    obtain ⟨e, taken⟩ := extension_taken rules described mem
    exact taken.alone
  · exact extensions_apart rules described

/-- A resolved schema is well-formed. -/
theorem wellFormed_of_resolve (h : resolve files = .ok s) : s.WellFormed := by
  have loaded := loaded_of_resolve h
  obtain ⟨rules, described⟩ := resolve_eq_ok.mp h
  obtain ⟨own, messages, describes⟩ := described.messages
  have names : (s.messages.map (·.fullName) ++ s.enums.map (·.fullName)).Nodup := by
    rw [messages, described.enums]
    exact names_nodup rules.types describes
  refine ⟨loaded, names, ?_, ?_, ?_, ?_, ?_, ?_⟩
  · intro e mem
    rw [described.enums] at mem
    obtain ⟨⟨file, e⟩, declared, rfl⟩ := List.mem_map.mp mem
    obtain ⟨mem, mem'⟩ := mem_allEnums.mp declared
    obtain ⟨values, distinct⟩ := rules.enum file mem e mem'
    exact ⟨values, distinct⟩
  · intro m mem
    exact loaded.apart m.fullName m ((find?_key_eq_some names.of_append_left).mpr ⟨mem, rfl⟩)
  · intro m mem oneof
    rw [messages] at mem
    rcases List.mem_append.mp mem with mem | mem
    · obtain ⟨kind, -, rfl⟩ := List.mem_map.mp mem
      simp [SanitizedKind.wrapper]
    · obtain ⟨_, -, describes⟩ := Paired.left_of_mem describes mem
      rw [describes.oneofs, mem_distinct_iff, List.mem_filterMap]
  · intro f mem
    obtain ⟨e, mem, extendee, scope, stands, -, describes'⟩ := Paired.left_of_mem described.extensions mem
    obtain ⟨declared, mem⟩ := mem_allExtensions.mp mem
    obtain ⟨full, stands', home, of, m, mem, named, extendable, -⟩ :=
      (rules.extension _ declared _ mem).extendee
    obtain rfl := stands.unique rules.types stands'
    obtain ⟨message, mem, describes⟩ := Paired.right_of_mem describes (mem_allMessages.mpr ⟨of, mem⟩)
    refine ⟨message, ?_, ?_, describes.extendable.trans extendable⟩
    · rw [messages]
      exact List.mem_append_right _ mem
    · rw [describes.fullName, named, describes'.container]
  · intro f mem name given
    obtain ⟨e, -, extendee, scope, -, hasScope, describes⟩ := Paired.left_of_mem described.extensions mem
    cases describes.scope.symm.trans given
    cases hasScope with
    | message _ stands => exact exists_message described stands.1
  · intro f mem number given
    rcases exists_described described mem with absurd | ⟨file, d, _, _, describes⟩
    · cases absurd.symm.trans given
    · have meant := describes.default
      rw [given] at meant
      obtain ⟨name, value, kind, file', of, e, mem, named, value⟩ := DefaultValue.enum_of_rel meant
      refine ⟨name, kind, e.enumType file', ?_, named, _, value, rfl⟩
      rw [described.enums]
      exact List.mem_map.mpr ⟨(file', e), mem_allEnums.mpr ⟨of, mem⟩, rfl⟩

theorem message?_of_mem (h : resolve files = .ok s) {m : Message} (mem : m ∈ s.messages) :
    s.message? m.fullName = some m :=
  (find?_key_eq_some (wellFormed_of_resolve h).names.of_append_left).mpr ⟨mem, rfl⟩

theorem exists_resolve_of_ofBytes {bytes : ByteArray} (h : ofBytes bytes = .ok s) :
    ∃ files, resolve files = .ok s := by
  unfold ofBytes parse at h
  split at h
  · split at h
    · exact ⟨_, h⟩
    · cases h
  · cases h

/-- Resolution takes exactly the well-formed descriptions, and gives the schema that they describe, which
is well-formed itself. -/
theorem resolve_exact (files : List FileDescription) :
    ((∃ s, resolve files = .ok s) ↔ FileDescription.WellFormed files) ∧
      ∀ s, resolve files = .ok s → s.WellFormed ∧ ∀ s', Describe files s' ↔ s' = s := by
  refine ⟨⟨?_, ?_⟩, ?_⟩
  · rintro ⟨s, h⟩
    exact (resolve_eq_ok.mp h).1
  · intro rules
    obtain ⟨s, described⟩ := rules.exists_describe
    exact ⟨s, resolve_eq_ok.mpr ⟨rules, described⟩⟩
  · intro s h
    obtain ⟨rules, described⟩ := resolve_eq_ok.mp h
    refine ⟨wellFormed_of_resolve h, fun s' => ⟨fun described' => ?_, ?_⟩⟩
    · exact Except.ok.inj ((resolve_eq_ok.mpr ⟨rules, described'⟩).symm.trans h)
    · rintro rfl
      exact described

end Schema

/-- A file with an extendable message, an enum that it has a default of, and an extension. -/
def letterFile : FileDescription where
  package := "demo"
  revision := .legacy
  holder := "Demo"
  messages := [⟨"Letter", true,
    [⟨"tone", 1, .enum, some "Tone", .singular, some "style", some (.text "WARM"), false⟩,
      ⟨"replies", 2, .message, some "demo.Letter", .repeated, none, none, false⟩]⟩]
  enums := [⟨"Tone", [⟨"PLAIN", 0⟩, ⟨"WARM", 2⟩]⟩]
  extensions := [⟨"Letter", some "Letter", ⟨"weight", 100, .int64, none, .singular, none,
    some (.integer 7), true⟩⟩]

def letterWeight : Field := ⟨"weight", 100, .int64, .singular, .legacy, "demo.Letter", none, some (.int 7),
  true, some (.message "demo.Letter")⟩

def letterSchema : Schema where
  messages := SanitizedKind.wrappers ++ [⟨"demo.Letter", .legacy, true,
    [⟨"tone", 1, .enum "demo.Tone", .singular, .legacy, "demo.Letter", some "style", some (.enum 2),
        false, none⟩,
      ⟨"replies", 2, .message "demo.Letter", .repeated, .legacy, "demo.Letter", none, none, false, none⟩],
    ["style"]⟩]
  enums := [⟨"demo.Tone", .legacy, [⟨"PLAIN", 0⟩, ⟨"WARM", 2⟩]⟩]
  extensions := [⟨"weight", 100, .int64, .singular, .legacy, "demo.Letter", none, some (.int 7), true,
    some (.message "demo.Letter")⟩]

theorem letterSchema_resolved : Schema.resolve [letterFile] = .ok letterSchema := by
  rfl

/-- The letters keep the rules, and with two values of one name their enum does not. -/
theorem letterSchema_exact :
    FileDescription.WellFormed [letterFile] ∧ letterSchema.WellFormed ∧
      ¬FileDescription.WellFormed
        [{ letterFile with enums := [⟨"Tone", [⟨"WARM", 0⟩, ⟨"WARM", 2⟩]⟩] }] := by
  refine ⟨(Schema.resolve_exact _).1.mp ⟨_, letterSchema_resolved⟩,
    ((Schema.resolve_exact _).2 _ letterSchema_resolved).1, fun rules => ?_⟩
  obtain ⟨s, absurd⟩ := (Schema.resolve_exact _).1.mpr rules
  cases absurd

end MessageCode
