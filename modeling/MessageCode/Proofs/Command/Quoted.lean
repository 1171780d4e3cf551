import MessageCode.Proofs.Command.Literal

/-!
Texts between double quotes. Whatever a text is, it is read as a whole when it is the only value of an
argument: only its own quotes are taken off. In a list the commas are looked for before the quotes, so
that items between quotes are read as they are exactly when there is no comma in them.
-/

namespace MessageCode

namespace Text

theorem isBlank_quote : isBlank '"' = false := rfl

theorem trim_eq_self {first last : Char} (h : isBlank first = false) (h' : isBlank last = false)
    (inner : List Char) : trim (first :: (inner ++ [last])) = first :: (inner ++ [last]) := by
  have front : ∀ {c : Char} (rest : List Char), isBlank c = false → trimFront (c :: rest) = c :: rest :=
    fun rest shown => List.dropWhile_cons_of_neg (by simp [shown])
  rw [trim, front _ h, List.reverse_cons, List.reverse_append, List.reverse_singleton,
    List.singleton_append, List.cons_append, front _ h']
  simp

theorem trim_blank (s : List Char) : trim (' ' :: s) = trim s := rfl

theorem mem_of_mem_trim {s : List Char} {c : Char} (mem : c ∈ trim s) : c ∈ s := by
  have front : ∀ {s : List Char}, c ∈ trimFront s → c ∈ s := fun mem => (List.dropWhile_suffix _).mem mem
  exact front (List.mem_reverse.mp (front (List.mem_reverse.mp mem)))

end Text

namespace Literal

def quote (text : List Char) : List Char := '"' :: (text ++ ['"'])

theorem between?_enclosed (opening closing : Char) (inner : List Char) :
    between? opening closing (opening :: (inner ++ [closing])) = some inner := by
  simp [between?]

@[simp] theorem unquote_quote (text : List Char) : unquote (quote text) = text := by
  rw [unquote, quote, between?_enclosed, Option.getD_some]

@[simp] theorem trim_quote (text : List Char) : Text.trim (quote text) = quote text :=
  Text.trim_eq_self Text.isBlank_quote Text.isBlank_quote text

theorem mem_of_mem_unquote {literal : List Char} {c : Char} (mem : c ∈ unquote literal) : c ∈ literal := by
  rcases literal with _ | ⟨first, rest⟩
  · exact mem
  · by_cases enclosed : first = '"' ∧ rest.getLast? = some '"'
    · rw [unquote, between?, if_pos enclosed] at mem
      exact List.mem_cons_of_mem _ (List.dropLast_subset _ mem)
    · rwa [unquote, between?, if_neg enclosed] at mem

theorem items_eq (literal : List Char) : items literal = literal.splitOn ',' := by
  induction literal with
  | nil => rfl
  | cons c rest ih =>
      rw [items, ih, List.splitOn_cons_eq_if_modifyHead]
      by_cases comma : c = ','
      · simp [comma]
      · rcases pieces : rest.splitOn ',' with _ | ⟨item, more⟩
        · simp at pieces
        · simp [comma]

theorem comma_not_mem_of_mem_items {literal item : List Char} (mem : item ∈ items literal) :
    ',' ∉ item := by
  induction literal generalizing item with
  | nil =>
      obtain rfl := List.mem_singleton.mp mem
      exact List.not_mem_nil
  | cons c rest ih =>
      rw [items] at mem
      split at mem
      · rcases List.mem_cons.mp mem with rfl | mem
        · exact List.not_mem_nil
        · exact ih mem
      · rename_i other
        split at mem
        · rename_i first more pieces
          rcases List.mem_cons.mp mem with rfl | mem
          · have within : first ∈ items rest := by simp [pieces]
            simp [ih within, Ne.symm other]
          · exact ih (by simp [pieces, mem])
        · obtain rfl := List.mem_singleton.mp mem
          simp [Ne.symm other]

/-- The literal of a list of texts: each between quotes, with a comma and a blank between two of them. -/
def quoteAll (texts : List String) : String :=
  "[" ++ ", ".intercalate (texts.map fun t => "\"" ++ t ++ "\"") ++ "]"

def joined (texts : List (List Char)) : List Char := [',', ' '].intercalate (texts.map quote)

theorem toList_quoteAll (texts : List String) :
    (quoteAll texts).toList = '[' :: (joined (texts.map String.toList) ++ [']']) := by
  have quotes : (String.toList ∘ fun t => "\"" ++ t ++ "\"") = quote ∘ String.toList := by
    funext t
    simp [quote]
  simp [quoteAll, joined, quotes]

theorem exists_joined {texts : List (List Char)} (some : texts ≠ []) :
    ∃ inner, joined texts = quote inner := by
  obtain ⟨first, more, rfl⟩ := List.exists_cons_of_ne_nil some
  clear some
  induction more generalizing first with
  | nil => exact ⟨first, by simp [joined]⟩
  | cons second more ih =>
      obtain ⟨inner, same⟩ := ih second
      unfold joined at same ⊢
      rw [List.map_cons, List.map_cons, List.intercalate_cons_cons, ← List.map_cons, same]
      exact ⟨first ++ '"' :: ',' :: ' ' :: '"' :: inner, by simp [quote]⟩

theorem joined_eq (first : List Char) (more : List (List Char)) :
    joined (first :: more) = [','].intercalate (quote first :: more.map fun t => ' ' :: quote t) := by
  unfold joined
  induction more generalizing first with
  | nil => rfl
  | cons second more ih =>
      have rest := ih second
      rw [List.map_cons, List.map_cons, List.intercalate_cons_cons, ← List.map_cons, rest]
      cases more <;> simp [List.intercalate_cons_cons]

theorem listed_quoteAll {texts : List String} (some : texts ≠ []) :
    listed (quoteAll texts).toList = (items (joined (texts.map String.toList))).map Text.trim := by
  obtain ⟨inner, same⟩ := exists_joined (show texts.map String.toList ≠ [] by simpa using some)
  unfold listed
  rw [toList_quoteAll, between?_enclosed, Option.getD_some, same, trim_quote]
  exact if_neg (by simp [quote])

/-- Texts are read back from their list exactly when there is no comma in any of them. -/
theorem unquote_listed_iff {texts : List String} (some : texts ≠ []) :
    (listed (quoteAll texts).toList).map (fun item => String.ofList (unquote item)) = texts ↔
      ∀ t ∈ texts, ',' ∉ t.toList := by
  rw [listed_quoteAll some, List.map_map]
  constructor
  · intro same t mem comma
    rw [← same] at mem
    obtain ⟨item, within, rfl⟩ := List.mem_map.mp mem
    rw [Function.comp_apply, String.toList_ofList] at comma
    exact comma_not_mem_of_mem_items within (Text.mem_of_mem_trim (mem_of_mem_unquote comma))
  · intro apart
    obtain ⟨first, more, rfl⟩ := List.exists_cons_of_ne_nil some
    have pieces : items (joined ((first :: more).map String.toList)) =
        quote first.toList :: (more.map String.toList).map fun t => ' ' :: quote t := by
      rw [List.map_cons, joined_eq, items_eq]
      refine List.splitOn_intercalate ',' ?_ (by simp)
      have free : ∀ t ∈ first :: more, ',' ∉ quote t.toList := by
        intro t mem
        simp [quote, apart t mem]
      intro item mem
      rcases List.mem_cons.mp mem with rfl | mem
      · exact free first List.mem_cons_self
      · simp only [List.map_map, List.mem_map, Function.comp_apply] at mem
        obtain ⟨t, within, rfl⟩ := mem
        simpa using free t (List.mem_cons_of_mem _ within)
    rw [pieces]
    simp [Function.comp_def, Text.trim_blank]

/-- A quoted text is whatever follows the first equals sign, with other ones in it or not. -/
theorem split_quoted {name : String} (some : name ≠ "") (plain : '=' ∉ name.toList)
    (trimmed : Text.trim name.toList = name.toList) (t : String) :
    split (name ++ "=\"" ++ t ++ "\"") = .ok (name, String.ofList (quote t.toList)) := by
  have chars : (name ++ "=\"" ++ t ++ "\"").toList = name.toList ++ '=' :: quote t.toList := by
    simp [quote]
  have other : ∀ c ∈ name.toList, (decide (c ≠ '=')) = true := by
    rintro c mem
    exact decide_eq_true fun same => plain (same ▸ mem)
  have before : (name.toList ++ '=' :: quote t.toList).takeWhile (· ≠ '=') = name.toList := by
    rw [List.takeWhile_append_of_pos other]
    simp
  have after : (name.toList ++ '=' :: quote t.toList).dropWhile (· ≠ '=') = '=' :: quote t.toList := by
    rw [List.dropWhile_append_of_pos other]
    simp
  have present : name.toList.isEmpty = false := by simpa using some
  simp only [split, chars, before, after, trimmed, present, trim_quote, String.ofList_toList]
  rfl

section

variable {s : Schema} {message name : String} {f : Field}

theorem coercion_of_text (loaded : s.Loaded) (named : s.field? message name = some f)
    (text : f.kind = .text) : Coercion.of s f = .ok .text := by
  have known : f.Loaded (fun name => (s.enum? name).isSome) (fun name => (s.message? name).isSome) := by
    cases found : s.message? message with
    | some m => exact loaded.field found (Schema.Loaded.mem_of_field? found named)
    | none =>
        rw [Schema.field?, found] at named
        exact loaded.extension f (List.mem_of_find?_eq_some named)
  obtain ⟨c, coercion⟩ := Coercion.exists_of known
  cases Coercion.covers_of_eq_ok coercion with
  | text => exact coercion
  | _ kind => simp [text] at kind

end

theorem exists_parseList_text (literal : List Char) :
    ∃ v, parseList .text literal = .ok v ∧
      LogicalValue.Listed ((listed literal).map fun item => .text (String.ofList (unquote item))) v ∧
      (listed literal ≠ [] → v.type = .list .text) := by
  obtain ⟨v, parsed⟩ : ∃ v, parseList .text literal = .ok v := by
    unfold parseList
    dsimp only
    generalize Text.trim ((between? '[' ']' literal).getD literal) = inner
    split
    · exact ⟨_, rfl⟩
    · have each : (items inner).mapM (fun item => parseScalar .text (Text.trim item)) =
          .ok ((items inner).map fun item => .ofText (String.ofList (unquote (Text.trim item)))) :=
        Fallible.mapM_eq_ok.mpr (Paired.eq_map_iff.mpr rfl |>.imp fun _ _ same => same ▸ rfl)
      have written : List.Forall₂ (fun l v => ∃ boxed, LogicalValue.Written l boxed v)
          ((items inner).map fun item => .text (String.ofList (unquote (Text.trim item))))
          ((items inner).map fun item => .ofText (String.ofList (unquote (Text.trim item)))) :=
        List.forall₂_map_left_iff.mpr (List.forall₂_map_right_iff.mpr
          (List.forall₂_same.mpr fun _ _ => ⟨false, .constant rfl⟩))
      obtain ⟨v, made⟩ := LogicalValue.Written.exists_listOf written .text
      exact ⟨v, by rw [each]; simp [made, bind, Except.bind, Except.mapError]⟩
  obtain ⟨values, reads, made, type⟩ := Reads.of_parseList parsed
  have same : values = (listed literal).map fun item => .text (String.ofList (unquote item)) := by
    refine Paired.eq_map_iff.mp (reads.imp fun item l read => ?_)
    cases read
    rfl
  refine ⟨v, parsed, same ▸ made, fun some => ?_⟩
  rcases type with type | ⟨-, none⟩
  · exact type
  · rw [none, eq_comm, List.map_eq_nil_iff] at same
    exact absurd same some

end Literal

/-- A list item stands for one text only. -/
theorem LogicalValue.Supplied.text_eq {t t' : String} {v : Value} (h : (text t).Supplied v)
    (h' : (text t').Supplied v) : t = t' := by
  rcases h with ⟨id, rfl⟩ | ⟨id, _, rfl, box, rfl⟩
  · rcases h' with ⟨id', same⟩ | ⟨id', _, same, -⟩
    · cases same
      rfl
    · cases same
  · rcases h' with ⟨id', same⟩ | ⟨id', _, same, box', rfl⟩
    · cases same
    · cases same
      rfl

theorem LogicalValue.supplied_texts_iff {texts texts' : List String} {supplied : List Value}
    (h : List.Forall₂ Supplied (texts.map .text) supplied) :
    List.Forall₂ Supplied (texts'.map .text) supplied ↔ texts = texts' := by
  constructor
  · intro h'
    rw [List.forall₂_map_left_iff] at h h'
    induction h generalizing texts' with
    | nil =>
        cases h'
        rfl
    | cons first _ ih =>
        obtain _ | ⟨first', rest⟩ := h'
        rw [first.text_eq first', ih rest]
  · rintro rfl
    exact h

section

variable {s : Schema} {message name : String} {f : Field}

namespace Literal

theorem parse_quoted (named : s.field? message name = some f) (coercion : Coercion.of s f = .ok .text)
    (alone : f.isRepeated = false) (t : String) :
    parse s message name (String.ofList (quote t.toList)) = .ok (.ofText t) := by
  have present : String.ofList (quote t.toList) ≠ "null" := by
    intro same
    have chars := congrArg String.toList same
    rw [String.toList_ofList] at chars
    cases chars
  rw [parse_eq named coercion present, alone, if_neg Bool.false_ne_true]
  simp [parseScalar, Coercion.logicalType]

/-- Quoted texts for a repeated field are read as a list, which is that of the texts if and only if there is
no comma in any of them. -/
theorem parse_quoteAll (named : s.field? message name = some f) (coercion : Coercion.of s f = .ok .text)
    (many : f.isRepeated = true) {texts : List String} (given : texts ≠ []) :
    ∃ v, parse s message name (quoteAll texts) = .ok v ∧ v.type = .list .text ∧
      ∀ fuel machine, ∃ id supplied after, (v.code.run s fuel []).run machine =
          (.ok (some (.ref id (.boxed (.list supplied)))), after) ∧
        (List.Forall₂ LogicalValue.Supplied (texts.map .text) supplied ↔ ∀ t ∈ texts, ',' ∉ t.toList) := by
  have chars := toList_quoteAll texts
  have present : quoteAll texts ≠ "null" := by
    intro same
    rw [same] at chars
    cases chars
  obtain ⟨v, parsed, listed, type⟩ := exists_parseList_text (quoteAll texts).toList
  refine ⟨v, ?_, type ?_, fun fuel machine => ?_⟩
  · rw [parse_eq named coercion present, many, if_pos rfl]
    exact parsed
  · rw [listed_quoteAll given, items_eq]
    simp
  · obtain ⟨id, supplied, after, run, forms⟩ := listed.runs s fuel machine
    refine ⟨id, supplied, after, TypedValue.run_of_evaluate run nofun, ?_⟩
    rw [← Function.comp_def, ← List.map_map] at forms
    rw [LogicalValue.supplied_texts_iff forms, unquote_listed_iff given]

end Literal

/-- An argument with a text between double quotes gives the text to its field, whatever is in it. Texts
between quotes that are given to a repeated field make a list, whose items are those texts in order if
and only if there is no comma in any of them. -/
theorem Command.quoted_texts {files : List FileDescription} (resolved : Schema.resolve files = .ok s)
    (named : s.field? message name = some f) (text : f.kind = .text) :
    (f.isRepeated = false → name ≠ "" → '=' ∉ name.toList → Text.trim name.toList = name.toList →
      ∀ t : String,
        parseArguments s message [name ++ "=\"" ++ t ++ "\""] = .ok [(name, .ofText t)] ∧
        ∀ fuel machine, ∃ id after, ((TypedValue.ofText t).code.run s fuel []).run machine =
          (.ok (some (.ref id (.text t))), after)) ∧
    (f.isRepeated = true → ∀ texts : List String, texts ≠ [] →
      ∃ v, Literal.parse s message name (Literal.quoteAll texts) = .ok v ∧ v.type = .list .text ∧
        ∀ fuel machine, ∃ id supplied after, (v.code.run s fuel []).run machine =
            (.ok (some (.ref id (.boxed (.list supplied)))), after) ∧
          (List.Forall₂ LogicalValue.Supplied (texts.map .text) supplied ↔
            ∀ t ∈ texts, ',' ∉ t.toList)) := by
  have coercion := Literal.coercion_of_text (Schema.loaded_of_resolve resolved) named text
  constructor
  · intro alone some plain trimmed t
    refine ⟨?_, fun fuel machine => ⟨_, _, rfl⟩⟩
    rw [parseArguments, List.mapM_cons, Literal.split_quoted some plain trimmed]
    simp only [bind, Except.bind, Literal.parse_quoted named coercion alone]
    rfl
  · exact fun many texts some => Literal.parse_quoteAll named coercion many some

end

def memoFile : FileDescription where
  package := "demo"
  revision := .modern
  holder := "Demo"
  messages := [⟨"Memo", false, [⟨"body", 1, .text, none, .singular, none, none, false⟩,
    ⟨"tags", 2, .text, none, .repeated, none, none, false⟩]⟩]
  enums := []
  extensions := []

def memoSchema : Schema where
  messages := SanitizedKind.wrappers ++ [⟨"demo.Memo", .modern, false,
    [⟨"body", 1, .text, .singular, .modern, "demo.Memo", none, none, false, none⟩,
      ⟨"tags", 2, .text, .repeated, .modern, "demo.Memo", none, none, false, none⟩], []⟩]
  enums := []
  extensions := []

theorem memoFile_resolved : Schema.resolve [memoFile] = .ok memoSchema := by
  rfl

theorem memoSchema_body : ∃ f, memoSchema.field? "demo.Memo" "body" = some f ∧ f.kind = .text ∧
    f.isRepeated = false :=
  ⟨_, rfl, rfl, rfl⟩

theorem memoSchema_tags : ∃ f, memoSchema.field? "demo.Memo" "tags" = some f ∧ f.kind = .text ∧
    f.isRepeated = true :=
  ⟨_, rfl, rfl, rfl⟩

/-- A body with an equals sign, a comma and quotes in it, and tags with quotes and a bracket. -/
theorem Command.memo_quoted :
    parseArguments memoSchema "demo.Memo" ["body=\" a=\"b\", c \""] =
      .ok [("body", .ofText " a=\"b\", c ")] ∧
    ∃ v, Literal.parse memoSchema "demo.Memo" "tags" (Literal.quoteAll ["null", " \"x] "]) = .ok v ∧
      ∃ id supplied after, (v.code.run memoSchema 0 []).run .start =
          (.ok (some (.ref id (.boxed (.list supplied)))), after) ∧
        List.Forall₂ LogicalValue.Supplied [.text "null", .text " \"x] "] supplied := by
  constructor
  · obtain ⟨f, named, text, alone⟩ := memoSchema_body
    exact ((quoted_texts memoFile_resolved named text).1 alone (by decide) (by decide) rfl
      " a=\"b\", c ").1
  · obtain ⟨f, named, text, many⟩ := memoSchema_tags
    obtain ⟨v, parsed, -, runs⟩ :=
      (quoted_texts memoFile_resolved named text).2 many ["null", " \"x] "] (by decide)
    obtain ⟨id, supplied, after, run, exact_iff⟩ := runs 0 .start
    exact ⟨v, parsed, id, supplied, after, run, exact_iff.mpr (by decide)⟩

/-- A single tag with a comma in it is not read as one. -/
theorem Command.memo_tag_divided :
    ¬∀ texts : List String, texts ≠ [] →
      ∃ v id supplied after, Literal.parse memoSchema "demo.Memo" "tags" (Literal.quoteAll texts) = .ok v ∧
        (v.code.run memoSchema 0 []).run .start =
          (.ok (some (.ref id (.boxed (.list supplied)))), after) ∧
        List.Forall₂ LogicalValue.Supplied (texts.map .text) supplied := by
  intro all
  obtain ⟨v, id, supplied, after, parsed, run, forms⟩ := all ["a,b"] (by decide)
  obtain ⟨f, named, text, many⟩ := memoSchema_tags
  have coercion := Literal.coercion_of_text (Schema.loaded_of_resolve memoFile_resolved) named text
  obtain ⟨v', parsed', -, runs⟩ := Literal.parse_quoteAll named coercion many (List.cons_ne_nil "a,b" [])
  cases parsed.symm.trans parsed'
  obtain ⟨id', supplied', after', run', exact_iff⟩ := runs 0 .start
  cases run.symm.trans run'
  have whole := exact_iff.mp forms
  exact absurd whole (by decide)

end MessageCode
