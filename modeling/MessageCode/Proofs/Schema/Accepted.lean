import MessageCode.Proofs.Schema.WellFormed

/-!
What resolution accepts of the parts of a description, and what it makes of them: of types, enums, fields,
messages and extensions.
-/

namespace MessageCode

namespace TypeTable

variable {types types' : TypeTable} {file : FileDescription} {name full : String} {sort : TypeSort}

theorem has_iff (nodup : (types.map Prod.fst).Nodup) :
    types.has name sort = true ↔ (name, sort) ∈ types := by
  unfold has
  split
  · rename_i entry found
    have mem := List.mem_of_find?_eq_some found
    have key := List.find?_some found
    simp only [decide_eq_true_eq] at key ⊢
    constructor
    · rintro rfl
      rwa [← key]
    · intro mem'
      exact congrArg Prod.snd (List.inj_on_of_nodup_map nodup mem mem' key)
  · rename_i missing
    constructor
    · exact nofun
    · intro mem
      simpa using List.find?_eq_none.mp missing _ mem

theorem resolve_eq_ok (nodup : (types.map Prod.fst).Nodup) {field : String} :
    types.resolve file name sort field = .ok full ↔ types.Stands file sort name full := by
  unfold resolve Stands
  by_cases itself : types.has name sort = true
  · rw [if_pos itself, Except.ok.injEq]
    rw [has_iff nodup] at itself
    constructor
    · rintro rfl
      exact ⟨itself, .inl rfl⟩
    · rintro ⟨-, rfl | ⟨absurd, -⟩⟩
      · rfl
      · exact (absurd itself).elim
  · rw [if_neg itself]
    rw [has_iff nodup] at itself
    by_cases inPackage : types.has (file.qualify name) sort = true
    · rw [if_pos inPackage, Except.ok.injEq]
      rw [has_iff nodup] at inPackage
      constructor
      · rintro rfl
        exact ⟨inPackage, .inr ⟨itself, rfl⟩⟩
      · rintro ⟨mem, rfl | ⟨-, rfl⟩⟩
        · exact (itself mem).elim
        · rfl
    · rw [if_neg inPackage]
      rw [has_iff nodup] at inPackage
      constructor
      · exact nofun
      · rintro ⟨mem, rfl | ⟨-, rfl⟩⟩
        · exact (itself mem).elim
        · exact (inPackage mem).elim

theorem Stands.unique (nodup : (types.map Prod.fst).Nodup) {full' : String}
    (h : types.Stands file sort name full) (h' : types.Stands file sort name full') : full = full' := by
  have resolved : types.resolve file name sort "" = .ok full := (resolve_eq_ok nodup).mpr h
  have resolved' : types.resolve file name sort "" = .ok full' := (resolve_eq_ok nodup).mpr h'
  exact Except.ok.inj (resolved.symm.trans resolved')

theorem declare_adds (before : TypeTable) (entry : String × TypeSort) (after : TypeTable) :
    before.declare entry = .ok after ↔
      ∃ b, after = before ++ [b] ∧ b = id entry ∧ ∀ c ∈ before, c.1 ≠ b.1 := by
  rw [declare_eq_ok]
  constructor
  · rintro ⟨fresh, rfl⟩
    exact ⟨entry, rfl, rfl, fresh⟩
  · rintro ⟨_, rfl, rfl, fresh⟩
    exact ⟨fresh, rfl⟩

theorem ofFiles_eq_ok {files : List FileDescription} :
    ofFiles files = .ok types ↔ types = FileDescription.declaredTypes files ∧
      ((FileDescription.declaredTypes files).map Prod.fst).Nodup := by
  let builtIn : TypeTable := SanitizedKind.wrappers.map fun m => (m.fullName, .message)
  have distinct : (builtIn.map Prod.fst).Nodup := by decide
  change (files.flatMap FileDescription.types).foldlM declare builtIn = .ok types ↔
    types = builtIn ++ files.flatMap FileDescription.types ∧
      ((builtIn ++ files.flatMap FileDescription.types).map Prod.fst).Nodup
  rw [Fallible.foldlM_gather declare_adds, List.map_append, List.nodup_append]
  constructor
  · rintro ⟨results, rfl, entries, apart, agree⟩
    obtain rfl := (Paired.eq_map_iff.mp entries).trans (List.map_id _)
    refine ⟨rfl, distinct, List.pairwise_map.mpr apart, ?_⟩
    intro _ known _ added
    obtain ⟨c, mem, rfl⟩ := List.mem_map.mp known
    obtain ⟨b, mem', rfl⟩ := List.mem_map.mp added
    exact agree c mem b mem'
  · rintro ⟨rfl, -, apart, agree⟩
    refine ⟨_, rfl, Paired.eq_map_iff.mpr (List.map_id _).symm, List.pairwise_map.mp apart, ?_⟩
    exact fun c known b added => agree _ (List.mem_map_of_mem known) _ (List.mem_map_of_mem added)

end TypeTable

theorem refuseRepeats_eq_ok {α κ : Type} [DecidableEq κ] {key : α → κ} {error : α → SchemaError}
    {seen : List κ} {items : List α} :
    refuseRepeats key error seen items = .ok () ↔
      (items.map key).Nodup ∧ ∀ a ∈ items, key a ∉ seen := by
  induction items generalizing seen with
  | nil => simp [refuseRepeats]
  | cons a items ih =>
      unfold refuseRepeats
      split
      · rename_i known
        simp [known]
      · rename_i fresh
        rw [ih]
        simp only [List.mem_cons, not_or, List.map_cons, List.nodup_cons, List.mem_map, not_exists,
          not_and, forall_eq_or_imp, fresh, not_false_eq_true, true_and]
        constructor
        · rintro ⟨nodup, apart⟩
          exact ⟨⟨fun b mem => (apart b mem).1, nodup⟩, fun b mem => (apart b mem).2⟩
        · rintro ⟨⟨apart, nodup⟩, apart'⟩
          exact ⟨nodup, fun b mem => ⟨apart b mem, apart' b mem⟩⟩

theorem EnumDescription.resolve_eq_ok {file : FileDescription} {e : EnumDescription} {enum : EnumType} :
    e.resolve file = .ok enum ↔ e.WellFormed ∧ enum = e.enumType file := by
  unfold resolve
  dsimp only
  rw [Fallible.refuse_eq_ok, Fallible.bind_eq_ok]
  simp only [Fallible.pure_eq_ok, List.isEmpty_iff]
  constructor
  · rintro ⟨values, ⟨⟩, names, rfl⟩
    exact ⟨⟨values, (refuseRepeats_eq_ok.mp names).1⟩, rfl⟩
  · rintro ⟨⟨values, names⟩, rfl⟩
    exact ⟨values, (), refuseRepeats_eq_ok.mpr ⟨names, fun _ _ => List.not_mem_nil⟩, rfl⟩

theorem Numeric.isSome_int32? {n : Int} :
    (Numeric.int32? n).isSome = true ↔ -2147483648 ≤ n ∧ n ≤ 2147483647 := by
  have low : (Int32.minValue.toInt : Int) = -2147483648 := rfl
  have high : (Int32.maxValue.toInt : Int) = 2147483647 := rfl
  unfold int32?
  rw [low, high]
  split
  · simp_all
  · rename_i outside
    simpa using outside

def EnumType.Provides (enums : List EnumType) (values : String → String → Int32 → Prop) : Prop :=
  ∀ name value number, values name value number ↔
    ∃ v, (enums.find? fun e => e.fullName = name).bind (·.valueByName? value) = some v ∧
      v.number = number

section

variable {types : TypeTable} {enums : List EnumType} {values : String → String → Int32 → Prop}
  {file : FileDescription}

theorem DefaultValue.resolve_eq_ok (provides : EnumType.Provides enums values) {field : String}
    {kind : FieldKind} {label : Label} {v : Toml} {d : DefaultValue} :
    DefaultValue.resolve enums field kind label v = .ok d ↔
      label = .singular ∧ DefaultValue.Meant values kind v d := by
  unfold DefaultValue.resolve
  cases label with
  | repeated => simp
  | singular =>
      rw [if_neg (by decide)]
      dsimp only
      constructor
      · intro h
        refine ⟨rfl, ?_⟩
        split at h
        case h_1 =>
          cases h
          exact .bool _
        case h_2 =>
          split at h
          · cases h
            obtain ⟨low, high⟩ := Numeric.isSome_int32?.mp ‹_›
            exact .int32 _ low high
          · cases h
        case h_3 =>
          cases h
          exact .int64 _
        case h_4 =>
          cases h
          exact .float _
        case h_5 =>
          cases h
          exact .double _
        case h_6 =>
          cases h
          exact .wholeFloat _
        case h_7 =>
          cases h
          exact .wholeDouble _
        case h_8 =>
          cases h
          exact .text _
        case h_9 =>
          cases h
          exact .bytes _
        case h_10 =>
          split at h
          · rename_i v found
            cases h
            exact .enum ((provides ..).mpr ⟨v, found, rfl⟩)
          · cases h
        all_goals cases h
      · rintro ⟨-, meant⟩
        cases meant with
        | int32 n low high =>
            dsimp only
            rw [if_pos (Numeric.isSome_int32?.mpr ⟨low, high⟩)]
        | enum given =>
            obtain ⟨v, found, rfl⟩ := (provides ..).mp given
            dsimp only
            rw [found]
        | _ => rfl

namespace FieldDescription

variable {container : String} {d : FieldDescription} {f : Field}

theorem requireTypeName_eq_ok {fullName kind name : String} :
    d.requireTypeName fullName kind = .ok name ↔ d.typeName = some name := by
  unfold requireTypeName
  cases d.typeName <;> simp

theorem resolveKind_eq_ok (nodup : (types.map Prod.fst).Nodup) {fullName : String} {kind : FieldKind} :
    d.resolveKind types file fullName = .ok kind ↔ d.HasKind types file kind := by
  unfold resolveKind
  constructor
  · intro h
    cases declared : d.kind with
    | enum =>
        rw [declared] at h
        obtain ⟨name, required, h⟩ := Fallible.bind_eq_ok.mp h
        obtain ⟨full, resolved, h⟩ := Fallible.bind_eq_ok.mp h
        cases Fallible.pure_eq_ok.mp h
        exact .enum declared (requireTypeName_eq_ok.mp required)
          ((TypeTable.resolve_eq_ok nodup).mp resolved)
    | message =>
        rw [declared] at h
        obtain ⟨name, required, h⟩ := Fallible.bind_eq_ok.mp h
        obtain ⟨full, resolved, h⟩ := Fallible.bind_eq_ok.mp h
        cases Fallible.pure_eq_ok.mp h
        exact .message declared (requireTypeName_eq_ok.mp required)
          ((TypeTable.resolve_eq_ok nodup).mp resolved)
    | _ =>
        rw [declared] at h
        cases h
        constructor
        exact declared
  · intro h
    cases h with
    | enum declared given stands =>
        rw [declared]
        exact Fallible.bind_eq_ok.mpr ⟨_, requireTypeName_eq_ok.mpr given,
          Fallible.bind_eq_ok.mpr ⟨_, (TypeTable.resolve_eq_ok nodup).mpr stands, rfl⟩⟩
    | message declared given stands =>
        rw [declared]
        exact Fallible.bind_eq_ok.mpr ⟨_, requireTypeName_eq_ok.mpr given,
          Fallible.bind_eq_ok.mpr ⟨_, (TypeTable.resolve_eq_ok nodup).mpr stands, rfl⟩⟩
    | _ declared => rw [declared]

theorem HasKind.unique (nodup : (types.map Prod.fst).Nodup) {kind kind' : FieldKind}
    (h : d.HasKind types file kind) (h' : d.HasKind types file kind') : kind = kind' := by
  have resolved : d.resolveKind types file "" = .ok kind := (resolveKind_eq_ok nodup).mpr h
  have resolved' : d.resolveKind types file "" = .ok kind' := (resolveKind_eq_ok nodup).mpr h'
  exact Except.ok.inj (resolved.symm.trans resolved')

theorem HasKind.int64_iff {kind : FieldKind} (h : d.HasKind types file kind) :
    kind = .int64 ↔ d.kind = .int64 := by
  cases h <;> simp_all

theorem mapM_resolve_eq_ok (provides : EnumType.Provides enums values) {fullName : String}
    {kind : FieldKind} {default : Option DefaultValue} :
    d.default.mapM (DefaultValue.resolve enums fullName kind d.label) = .ok default ↔
      (∀ v, d.default = some v → d.label = .singular) ∧
        Option.Rel (DefaultValue.Meant values kind) d.default default := by
  cases d.default with
  | none =>
      rw [Option.mapM_none, Fallible.pure_eq_ok]
      constructor
      · rintro rfl
        exact ⟨nofun, .none⟩
      · rintro ⟨-, ⟨⟩⟩
        rfl
  | some v =>
      rw [Option.mapM_some]
      rw [← bind_pure_comp, Fallible.bind_eq_ok]
      simp only [DefaultValue.resolve_eq_ok provides, Fallible.pure_eq_ok]
      constructor
      · rintro ⟨value, ⟨singular, meant⟩, rfl⟩
        exact ⟨fun _ _ => singular, .some meant⟩
      · rintro ⟨singular, ⟨meant⟩⟩
        exact ⟨_, ⟨singular v rfl, meant⟩, rfl⟩

/-- Resolution of a field keeps the rules and gives what is described. -/
theorem resolve_eq_ok (nodup : (types.map Prod.fst).Nodup) (provides : EnumType.Provides enums values) :
    d.resolve types enums file container = .ok f ↔
      d.WellFormed types values file ∧ d.Describes types values file container none f := by
  unfold resolve
  dsimp only
  rw [Fallible.refuse_eq_ok, Fallible.bind_eq_ok]
  simp only [resolveKind_eq_ok nodup, Fallible.refuse_eq_ok, Fallible.bind_eq_ok,
    mapM_resolve_eq_ok provides, Fallible.pure_eq_ok]
  constructor
  · rintro ⟨positive, kind, hasKind, asText, default, ⟨singular, meant⟩, rfl⟩
    refine ⟨⟨Int32.not_le.mp positive, ⟨kind, hasKind⟩, ?_, ?_⟩,
      ⟨rfl, rfl, hasKind, rfl, rfl, rfl, rfl, meant, rfl, rfl⟩⟩
    · intro marked
      exact hasKind.int64_iff.mp (by simpa [marked] using asText)
    · intro v kind' given hasKind'
      obtain rfl := hasKind.unique nodup hasKind'
      rw [given] at meant
      obtain ⟨meant⟩ := meant
      exact ⟨singular v given, _, meant⟩
  · rintro ⟨rules, described⟩
    refine ⟨Int32.not_le.mpr rules.positive, f.kind, described.kind, ?_, f.default,
      ⟨fun v given => (rules.default v _ given described.kind).1, described.default⟩, ?_⟩
    · intro marked
      simp only [Bool.and_eq_true, decide_eq_true_eq] at marked
      exact marked.2 (described.kind.int64_iff.mpr (rules.asText marked.1))
    · obtain ⟨name, number, -, label, revision, container, oneof, -, asText, scope⟩ := described
      cases f
      simp_all

theorem Describes.withScope {scope : Option ExtensionScope}
    (h : d.Describes types values file container scope f) (scope' : Option ExtensionScope) :
    d.Describes types values file container scope' { f with extensionScope := scope' } :=
  ⟨h.name, h.number, h.kind, h.label, h.revision, h.container, h.oneof, h.default, h.asText, rfl⟩

theorem WellFormed.exists_describes (h : d.WellFormed types values file) (container : String)
    (scope : Option ExtensionScope) : ∃ f, d.Describes types values file container scope f := by
  obtain ⟨kind, hasKind⟩ := h.kind
  obtain ⟨default, meant⟩ : ∃ default, Option.Rel (DefaultValue.Meant values kind) d.default default := by
    cases given : d.default with
    | none => exact ⟨none, .none⟩
    | some v =>
        obtain ⟨-, value, meant⟩ := h.default v kind given hasKind
        exact ⟨some value, .some meant⟩
  exact ⟨⟨d.name, d.number, kind, d.label, file.revision, container, d.oneof, default,
    d.numericAsText, scope⟩, rfl, rfl, hasKind, rfl, rfl, rfl, rfl, meant, rfl, rfl⟩

end FieldDescription

def Field.Differs (f g : Field) : Prop := f.name ≠ g.name ∧ f.number ≠ g.number

theorem Field.refuseClash_iff_differs {fullName : String} {earlier : List Field} {f : Field} :
    f.refuseClash fullName earlier = .ok () ↔ ∀ g ∈ earlier, g.Differs f := by
  rw [refuseClash_eq_ok]
  exact ⟨fun h g mem => ⟨h.1 g mem, h.2 g mem⟩,
    fun h => ⟨fun g mem => (h g mem).1, fun g mem => (h g mem).2⟩⟩

theorem Field.pairwise_differs_iff {fields : List Field} :
    fields.Pairwise Field.Differs ↔ (fields.map (·.name)).Nodup ∧ (fields.map (·.number)).Nodup := by
  unfold List.Nodup
  rw [List.pairwise_map, List.pairwise_map]
  exact List.pairwise_and_iff

namespace MessageDescription

variable {m : MessageDescription} {message : Message}

/-- A field of the message that keeps the rules, outside of oneofs if it is repeated. -/
def TakesField (types : TypeTable) (values : String → String → Int32 → Prop) (file : FileDescription)
    (fullName : String) (d : FieldDescription) (f : Field) : Prop :=
  d.WellFormed types values file ∧ d.Describes types values file fullName none f ∧
    (d.oneof.isSome = true → d.label = .singular)

theorem addField_adds (nodup : (types.map Prod.fst).Nodup) (provides : EnumType.Provides enums values)
    {fullName : String} (before : List Field) (d : FieldDescription) (after : List Field) :
    addField types enums file fullName before d = .ok after ↔
      ∃ f, after = before ++ [f] ∧ TakesField types values file fullName d f ∧
        ∀ g ∈ before, g.Differs f := by
  unfold addField TakesField
  rw [Fallible.bind_eq_ok]
  simp only [FieldDescription.resolve_eq_ok nodup provides, Fallible.bind_eq_ok, Fallible.refuse_eq_ok,
    Fallible.pure_eq_ok]
  have alone : ∀ {f : Field}, d.Describes types values file fullName none f →
      (¬(f.oneof.isSome && f.isRepeated) = true ↔ (d.oneof.isSome = true → d.label = .singular)) := by
    intro f described
    rw [described.oneof, Field.isRepeated, described.label]
    cases d.oneof <;> cases d.label <;> simp
  constructor
  · rintro ⟨f, ⟨rules, described⟩, ⟨⟩, clash, member, rfl⟩
    exact ⟨f, rfl, ⟨rules, described, (alone described).mp member⟩,
      Field.refuseClash_iff_differs.mp clash⟩
  · rintro ⟨f, rfl, ⟨rules, described, member⟩, differs⟩
    exact ⟨f, ⟨rules, described⟩, (), Field.refuseClash_iff_differs.mpr differs,
      (alone described).mpr member, rfl⟩

theorem resolve_eq_ok (nodup : (types.map Prod.fst).Nodup) (provides : EnumType.Provides enums values) :
    m.resolve types enums file = .ok message ↔
      m.WellFormed types values file ∧ m.Describes types values file message := by
  unfold resolve
  dsimp only
  rw [Fallible.bind_eq_ok]
  simp only [Fallible.pure_eq_ok, Fallible.foldlM_gather (addField_adds nodup provides), List.nil_append]
  -- The names and numbers of the fields are those of their descriptions.
  have keys : ∀ {fields : List Field}, List.Forall₂
      (FieldDescription.Describes types values file (file.qualify m.name) none) m.fields fields →
      (fields.Pairwise Field.Differs ↔
        (m.fields.map (·.name)).Nodup ∧ (m.fields.map (·.number)).Nodup) := by
    intro fields described
    rw [Field.pairwise_differs_iff, Paired.map_eq described fun _ _ h => h.name,
      Paired.map_eq described fun _ _ h => h.number]
  constructor
  · rintro ⟨fields, ⟨_, rfl, taken, differ, -⟩, rfl⟩
    have described := taken.imp fun _ _ h => h.2.1
    obtain ⟨names, numbers⟩ := (keys described).mp differ
    refine ⟨⟨?_, names, numbers, ?_⟩, ⟨rfl, rfl, rfl, described, rfl⟩⟩
    · intro d mem
      obtain ⟨f, -, rules, -⟩ := Paired.right_of_mem taken mem
      exact rules
    · intro d mem
      obtain ⟨f, -, -, -, member⟩ := Paired.right_of_mem taken mem
      exact member
  · rintro ⟨rules, described⟩
    refine ⟨message.fields, ⟨_, rfl, ?_, (keys described.fields).mpr ⟨rules.names, rules.numbers⟩,
      fun _ mem => (List.not_mem_nil mem).elim⟩, ?_⟩
    · have both := (List.forall₂_and_left m.fields message.fields).mpr
        ⟨fun d (mem : d ∈ m.fields) => mem, described.fields⟩
      refine both.imp ?_
      rintro d f ⟨mem, described⟩
      exact ⟨rules.field d mem, described, rules.oneof d mem⟩
    · obtain ⟨fullName, revision, extendable, -, oneofs⟩ := described
      cases message
      simp_all

/-- A message that keeps the rules describes one. -/
theorem WellFormed.exists_describes (h : m.WellFormed types values file) :
    ∃ message, m.Describes types values file message := by
  obtain ⟨fields, described⟩ := Paired.exists_of_forall fun d mem =>
    (h.field d mem).exists_describes (file.qualify m.name) none
  exact ⟨⟨file.qualify m.name, file.revision, m.extendable, fields,
    distinct (fields.filterMap (·.oneof))⟩, rfl, rfl, rfl, described, rfl⟩

end MessageDescription

namespace ExtensionDescription

variable {e : ExtensionDescription} {messages : List Message}

theorem resolveScope_eq_ok (nodup : (types.map Prod.fst).Nodup) {label : String}
    {scope : ExtensionScope} :
    e.resolveScope types file label = .ok scope ↔ e.HasScope types file scope := by
  unfold resolveScope
  cases given : e.scope with
  | none =>
      dsimp only
      rw [Except.ok.injEq]
      constructor
      · rintro rfl
        exact .file given
      · intro h
        cases h with
        | message given' _ => cases given.symm.trans given'
        | file _ => rfl
  | some name =>
      dsimp only
      rw [Fallible.bind_eq_ok]
      simp only [TypeTable.resolve_eq_ok nodup, Fallible.pure_eq_ok]
      constructor
      · rintro ⟨full, stands, rfl⟩
        exact .message given stands
      · intro h
        cases h with
        | message given' stands =>
            cases given.symm.trans given'
            exact ⟨_, stands, rfl⟩
        | file given' => cases given.symm.trans given'

/-- An extension that keeps the rules with the messages that there are. -/
structure Taken (types : TypeTable) (values : String → String → Int32 → Prop) (messages : List Message)
    (entry : FileDescription × ExtensionDescription) (f : Field) : Prop where
  target : ∃ target, (messages.find? fun m => m.fullName = f.container) = some target ∧
    target.extendable = true ∧ ∀ g ∈ target.fields, g.Differs f
  rules : entry.2.field.WellFormed types values entry.1
  describes : entry.2.Describes types values entry.1 f
  alone : f.oneof = none

theorem add_adds (nodup : (types.map Prod.fst).Nodup) (provides : EnumType.Provides enums values)
    (before : List Field) (entry : FileDescription × ExtensionDescription) (after : List Field) :
    add types messages enums before entry = .ok after ↔
      ∃ f, after = before ++ [f] ∧ Taken types values messages entry f ∧
        ∀ g ∈ before, g.container = f.container → g.Differs f := by
  obtain ⟨file, e⟩ := entry
  unfold add
  dsimp only
  rw [Fallible.bind_eq_ok]
  simp only [TypeTable.resolve_eq_ok nodup]
  constructor
  · rintro ⟨extendee, stands, h⟩
    split at h
    · rename_i target found
      rw [pure_bind, Fallible.require_eq_ok] at h
      obtain ⟨extendable, h⟩ := h
      obtain ⟨scope, hasScope, h⟩ := Fallible.bind_eq_ok.mp h
      obtain ⟨g, resolved, h⟩ := Fallible.bind_eq_ok.mp h
      rw [Fallible.refuse_eq_ok] at h
      obtain ⟨alone, h⟩ := h
      obtain ⟨⟨⟩, clash, h⟩ := Fallible.bind_eq_ok.mp h
      cases Fallible.pure_eq_ok.mp h
      obtain ⟨rules, described⟩ := (FieldDescription.resolve_eq_ok nodup provides).mp resolved
      have container := described.container
      have differs := Field.refuseClash_iff_differs.mp clash
      refine ⟨_, rfl, ⟨⟨target, by rw [← container] at found; exact found, extendable, ?_⟩, rules,
        ⟨extendee, scope, stands, (resolveScope_eq_ok nodup).mp hasScope,
          described.withScope _⟩, by simpa using alone⟩, ?_⟩
      · exact fun x mem => differs x (List.mem_append_left _ mem)
      · intro x mem same
        refine differs x (List.mem_append_right _ (List.mem_filter.mpr ⟨mem, ?_⟩))
        exact decide_eq_true (same.trans container)
    · obtain ⟨_, absurd, -⟩ := Fallible.bind_eq_ok.mp h
      cases absurd
  · rintro ⟨f, rfl, ⟨⟨target, found, extendable, differs⟩, rules, described, alone⟩, differs'⟩
    obtain ⟨extendee, scope, stands, hasScope, described⟩ := described
    have container := described.container
    have resolved := (FieldDescription.resolve_eq_ok nodup provides).mpr
      ⟨rules, described.withScope none⟩
    have clash : Field.refuseClash extendee
        (target.fields ++ before.filter fun g => g.container = extendee)
        { f with extensionScope := none } = .ok () := by
      refine Field.refuseClash_iff_differs.mpr fun x mem => ?_
      rcases List.mem_append.mp mem with mem | mem
      · exact differs x mem
      · obtain ⟨mem, same⟩ := List.mem_filter.mp mem
        exact differs' x mem ((of_decide_eq_true same).trans container.symm)
    rw [container] at found
    refine ⟨extendee, stands, ?_⟩
    rw [found]
    dsimp only
    rw [pure_bind, Fallible.require_eq_ok]
    refine ⟨extendable, Fallible.bind_eq_ok.mpr ⟨scope, (resolveScope_eq_ok nodup).mpr hasScope,
      Fallible.bind_eq_ok.mpr ⟨_, resolved, Fallible.refuse_eq_ok.mpr ⟨by simp [alone],
        Fallible.bind_eq_ok.mpr ⟨(), clash, ?_⟩⟩⟩⟩⟩
    rw [Fallible.pure_eq_ok, ← described.scope]

theorem WellFormed.exists_describes {files : List FileDescription}
    (h : e.WellFormed types values file files) : ∃ f, e.Describes types values file f := by
  obtain ⟨extendee, stands, -⟩ := h.extendee
  have scope : ∃ scope, e.HasScope types file scope := by
    cases given : e.scope with
    | none => exact ⟨_, .file given⟩
    | some name =>
        obtain ⟨full, stands⟩ := h.scope name given
        exact ⟨_, .message given stands⟩
  obtain ⟨scope, hasScope⟩ := scope
  obtain ⟨f, described⟩ := h.field.exists_describes extendee (some scope)
  exact ⟨f, extendee, scope, stands, hasScope, described⟩

end ExtensionDescription

end

end MessageCode
