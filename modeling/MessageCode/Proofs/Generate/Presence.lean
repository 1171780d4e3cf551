import MessageCode.Proofs.Generate.Interpret
import MessageCode.Proofs.Machine.Exclusive
import MessageCode.Proofs.Machine.Reachable
import MessageCode.Proofs.Schema.Resolved

/-!
Presence in oneofs. Whatever runs on a machine, no two members of a oneof are set in any of its messages
and builders, and the two ways to ask for a member agree.
-/

namespace MessageCode

open Stateful

/-- In every state that runs lead to, no two members of a oneof are set in a builder or in a message.
The discriminant of a message then has the number of a member exactly when the test for presence of the
member says that it is set, and the number zero exactly when none is. -/
theorem Reachable.oneofs_exclusive {files : List FileDescription} {s : Schema}
    (resolved : Schema.resolve files = .ok s) {m : Machine} {held : List Value} (h : Reachable s m held) :
    (∀ id data, m.store.builders.get? id = some data → Exclusive s data) ∧
    (∀ id typeName, m.Has held id (.builder typeName) →
      (m.store.builderData id typeName).typeName = typeName ∧
        Exclusive s (m.store.builderData id typeName)) ∧
    ∀ id data, m.Has held id (.message data) → Exclusive s data ∧
      ∀ message, s.message? data.typeName = some message → ∀ oneof ∈ message.oneofs, ∃ number : Int32,
        Gives ((Host.ofSchema s).call
            ⟨Signature.caseGetter data.typeName oneof, some (.ref id (.message data)), []⟩ >>= fun which =>
          (Host.ofSchema s).call ⟨Signature.caseNumber data.typeName oneof, some which, []⟩)
          (· = .int number) ∧
        (∀ f ∈ message.members oneof,
          Gives ((Host.ofSchema s).call ⟨Signature.hasser f, some (.ref id (.message data)), []⟩)
            (· = .bool (data.isSet f.number)) ∧
          (data.isSet f.number = true ↔ number = f.number)) ∧
        (number = 0 ↔ ∀ f ∈ message.members oneof, data.isSet f.number = false) := by
  have loaded := Schema.loaded_of_resolve resolved
  have keeps := loaded.keeps_exclusive
  refine ⟨fun id data found => ((h.lawful keeps).1.builder found).here,
    fun id typeName has => (h.builder keeps has).imp_right Throughout.here, fun id data has => ?_⟩
  have exclusive := (h.message keeps has).here
  refine ⟨exclusive, fun message found oneof known =>
    ⟨Native.caseNumber message oneof data, ?_, fun f mem => ⟨?_, ?_⟩, ?_⟩⟩
  · rw [Native.call_caseGetter found known id]
    refine (Native.alloc_gives _).bind ?_
    rintro _ ⟨caseId, rfl⟩
    exact .pure rfl
  · rw [Native.call_hasser loaded found (Message.mem_members.mp mem).1 id]
    exact .pure rfl
  · exact (Native.caseNumber_eq_iff loaded found exclusive mem).symm
  · exact Native.caseNumber_eq_zero_iff loaded found

def pinFile : FileDescription where
  package := "demo"
  revision := .modern
  holder := "Demo"
  messages := [⟨"Pin", false,
    [⟨"label", 1, .text, none, .singular, some "style", none, false⟩,
      ⟨"shape", 2, .int32, none, .singular, some "style", none, false⟩]⟩]
  enums := []
  extensions := []

namespace Pin

def label : Field := ⟨"label", 1, .text, .singular, .modern, "demo.Pin", some "style", none, false, none⟩

def shape : Field := ⟨"shape", 2, .int32, .singular, .modern, "demo.Pin", some "style", none, false, none⟩

def message : Message := ⟨"demo.Pin", .modern, false, [label, shape], ["style"]⟩

def schema : Schema where
  messages := SanitizedKind.wrappers ++ [message]
  enums := []
  extensions := []

def code : Sequence where
  ops := [.invoke (Signature.newBuilder "demo.Pin"), .push (.text "brass"),
    .invoke (Signature.setter label .text), .push (.int 3), .invoke (Signature.setter shape .int),
    .invoke (Signature.build "demo.Pin")]
  inputs := []
  output := some (.message "demo.Pin")
  nonNull := true
  maxLocals := 0

def contents : MessageData := ⟨"demo.Pin", [⟨2, "shape", .single (.int 3)⟩]⟩

def machine : Machine := ⟨⟨3, [(0, contents)], []⟩, [], 0⟩

theorem reachable : Reachable schema machine [.ref 2 (.message contents)] := by
  have run : (code.run schema 0 []).run .start =
      (.ok (some (.ref 2 (.message contents))), machine) := by
    rfl
  refine .run .start ?_ run
  nofun

end Pin

theorem pinFile_resolved : Schema.resolve [pinFile] = .ok Pin.schema := by
  rfl

/-- The pin has its shape and no label, as its discriminant and both tests for presence tell. -/
theorem pin_presence :
    Reachable Pin.schema Pin.machine [.ref 2 (.message Pin.contents)] ∧
    Gives ((Host.ofSchema Pin.schema).call
        ⟨Signature.caseGetter "demo.Pin" "style", some (.ref 2 (.message Pin.contents)), []⟩ >>= fun which =>
      (Host.ofSchema Pin.schema).call ⟨Signature.caseNumber "demo.Pin" "style", some which, []⟩)
      (· = .int 2) ∧
    Gives ((Host.ofSchema Pin.schema).call
      ⟨Signature.hasser Pin.shape, some (.ref 2 (.message Pin.contents)), []⟩) (· = .bool true) ∧
    Gives ((Host.ofSchema Pin.schema).call
      ⟨Signature.hasser Pin.label, some (.ref 2 (.message Pin.contents)), []⟩) (· = .bool false) := by
  obtain ⟨-, -, messages⟩ := Reachable.oneofs_exclusive pinFile_resolved Pin.reachable
  obtain ⟨-, tells⟩ := messages 2 Pin.contents (.held (List.mem_singleton_self _) (.here _ _))
  obtain ⟨number, which, members, -⟩ := tells Pin.message rfl "style" (by decide)
  obtain ⟨present, shown⟩ := members Pin.shape (by decide)
  obtain ⟨absent, -⟩ := members Pin.label (by decide)
  cases shown.mp rfl
  exact ⟨Pin.reachable, which, present, absent⟩

end MessageCode
