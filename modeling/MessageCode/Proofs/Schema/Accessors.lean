import MessageCode.Proofs.Schema.Names
import MessageCode.Proofs.Schema.Resolved

/-!
Which names of the operations on a message lead back to what they are the names of. Resolution compares
the names of fields and not those of their accessors, so that two accessors can share a name.
-/

namespace MessageCode

/-- Tests for presence and discriminants are always reached by their names. A getter or a setter is
reached unless a discriminant or an operation on an earlier field has its name. -/
theorem Schema.accessors_resolve {files : List FileDescription} {s : Schema}
    (resolved : Schema.resolve files = .ok s) {m : Message} (mem : m ∈ s.messages) :
    (∀ oneof ∈ m.oneofs, m.method? (Naming.caseGetter oneof) = some (.case oneof)) ∧
    ∀ f ∈ m.fields, m.method? (Naming.hasser f) = some (.has f) ∧
      (m.method? (Naming.getter f) = some (.get f) ↔
        (∀ oneof ∈ m.oneofs, oneof ++ "_case" ≠ Naming.stem f) ∧
          ∃ before after, m.fields = before ++ f :: after ∧
            ∀ g ∈ before, Naming.stem g ≠ Naming.stem f) ∧
      (m.builderMethod? (Naming.setter f) = some (if f.isRepeated then .add f else .set f) ↔
        ∃ before after, m.fields = before ++ f :: after ∧
          ∀ g ∈ before, g.isRepeated = f.isRepeated → Naming.stem g ≠ Naming.stem f) := by
  have apart := (Schema.loaded_of_resolve resolved).apart _ m (Schema.message?_of_mem resolved mem)
  refine ⟨fun oneof known => Message.method?_caseGetter known, fun f within => ?_⟩
  exact ⟨Message.method?_hasser apart.left within, Message.method?_getter_iff,
    Message.builderMethod?_setter_iff⟩

/-- A badge whose motto has the name of a discriminant in its getter, and whose second tone has the
getter and the setter of its first. -/
def badgeFile : FileDescription where
  package := "demo"
  revision := .modern
  holder := "Demo"
  messages := [⟨"Badge", false,
    [⟨"tone", 1, .enum, some "Tone", .singular, none, none, false⟩,
      ⟨"tone_value", 2, .int32, none, .singular, none, none, false⟩,
      ⟨"ribbon", 3, .text, none, .singular, some "style", none, false⟩,
      ⟨"style_case", 4, .text, none, .singular, none, none, false⟩]⟩]
  enums := [⟨"Tone", [⟨"PLAIN", 0⟩, ⟨"WARM", 2⟩]⟩]
  extensions := []

namespace Badge

def tone : Field := ⟨"tone", 1, .enum "demo.Tone", .singular, .modern, "demo.Badge", none, none, false, none⟩

def toneValue : Field := ⟨"tone_value", 2, .int32, .singular, .modern, "demo.Badge", none, none, false, none⟩

def ribbon : Field :=
  ⟨"ribbon", 3, .text, .singular, .modern, "demo.Badge", some "style", none, false, none⟩

def styleCase : Field := ⟨"style_case", 4, .text, .singular, .modern, "demo.Badge", none, none, false, none⟩

def message : Message := ⟨"demo.Badge", .modern, false, [tone, toneValue, ribbon, styleCase], ["style"]⟩

def schema : Schema where
  messages := SanitizedKind.wrappers ++ [message]
  enums := [⟨"demo.Tone", .modern, [⟨"PLAIN", 0⟩, ⟨"WARM", 2⟩]⟩]
  extensions := []

end Badge

theorem badgeFile_resolved : Schema.resolve [badgeFile] = .ok Badge.schema := by
  rfl

/-- The ribbon of a badge is reached by its getter and its setter. -/
theorem badge_ribbon_resolves :
    Badge.message.method? "get_ribbon" = some (.get Badge.ribbon) ∧
      Badge.message.builderMethod? "set_ribbon" = some (.set Badge.ribbon) := by
  obtain ⟨-, fields⟩ := Schema.accessors_resolve badgeFile_resolved
    (List.mem_append_right _ (List.mem_singleton_self Badge.message))
  obtain ⟨-, getter, setter⟩ := fields Badge.ribbon (by decide)
  refine ⟨getter.mpr ⟨?_, [Badge.tone, Badge.toneValue], [Badge.styleCase], rfl, ?_⟩,
    setter.mpr ⟨[Badge.tone, Badge.toneValue], [Badge.styleCase], rfl, ?_⟩⟩ <;> decide

/-- The getter of the motto gives a discriminant, and the accessors of the second tone reach the first
one. -/
theorem badge_names_clash :
    Schema.resolve [badgeFile] = .ok Badge.schema ∧
    Badge.message.method? (Naming.getter Badge.styleCase) = some (.case "style") ∧
    Badge.message.method? (Naming.getter Badge.toneValue) = some (.get Badge.tone) ∧
    Badge.message.builderMethod? (Naming.setter Badge.toneValue) = some (.set Badge.tone) := by
  exact ⟨badgeFile_resolved, by decide, by decide, by decide⟩

end MessageCode
