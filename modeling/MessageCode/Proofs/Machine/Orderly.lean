import MessageCode.Generate.Signature
import MessageCode.Proofs.Machine.Homed
import MessageCode.Proofs.Machine.Reachable

/-!
Orderly runs. The operations on extensions take the extension as it comes: one that sets makes a single
value of it and one that adds makes a list of it, whatever its label. What machines have is at home all the
same where labels do not count, and in every respect after runs that set singular extensions and add to
repeated ones only.
-/

namespace MessageCode

namespace Call

def identified? (s : Schema) (c : Call) : Option Field :=
  match c.objectArg 0 with
  | .ok (_, .extension owner name) => s.extensionById? owner name
  | _ => none

/-- The call sets a repeated extension or adds to a singular one. -/
def misplaces (s : Schema) (c : Call) : Bool :=
  decide (c.method.owner = .extendableBuilder) &&
    match c.identified? s with
    | some f =>
        (decide (c.name = "set_extension") && f.isRepeated) ||
          (decide (c.name = "add_extension") && !f.isRepeated)
    | none => false

theorem identified?_eq {s : Schema} {c : Call} {receiver : String} {f : Field}
    (found : Native.extensionArg s c receiver = .ok f) : c.identified? s = some f := by
  unfold Native.extensionArg at found
  obtain ⟨⟨id, o⟩, arg, found⟩ := Fallible.bind_eq_ok.mp found
  unfold identified?
  rw [arg]
  cases o with
  | extension owner name =>
      dsimp only at found ⊢
      split at found
      · cases found
      · rename_i identified
        split at found
        · cases found
          exact identified
        · cases found
  | _ => cases found

/-- A call that misplaces nothing goes by the label of its extension. -/
theorem placed_of_not_misplaces {s : Schema} {c : Call} {receiver : String} {f : Field}
    (orderly : c.misplaces s = false) (owner : c.method.owner = .extendableBuilder)
    (found : Native.extensionArg s c receiver = .ok f) :
    (c.name = "set_extension" → f.isRepeated = false) ∧
      (c.name = "add_extension" → f.isRepeated = true) := by
  unfold misplaces at orderly
  rw [identified?_eq found] at orderly
  constructor
  · intro sets
    simpa [owner, sets] using orderly
  · intro adds
    simpa [owner, adds] using orderly

end Call

/-- The operations of the schema, where those that misplace are not known, as a setter of a repeated field
is not. -/
def Host.refusing (s : Schema) : Host where
  call c := if c.misplaces s then throw (.unknownMethod c.describe) else Native.invoke s c
  static := StaticField.load s

/-- The machines that runs without a misplacing call lead to, and the values in hand there. Such runs go the
same way where those calls are refused. -/
inductive Orderly (s : Schema) : Machine → List Value → Prop
  | start : Orderly s .start []
  | reset {m held} : Orderly s m held → Orderly s m.reset held
  | default {m held typeName r m'} : Orderly s m held →
      (Native.defaultInstance s typeName).run m = (r, m') → Orderly s m' (r.toOption.toList ++ held)
  | run {m held inputs fuel r m'} {code : Sequence} : Orderly s m held → (∀ v ∈ inputs, v ∈ held) →
      (code.run s fuel inputs).run m = (r, m') →
      (code.runOn (.refusing s) fuel inputs).run m = (r, m') →
      Orderly s m' (r.toOption.join.toList ++ held)
  | visit {m held inputs fuel p} {code : Sequence} : Orderly s m held → (∀ v ∈ inputs, v ∈ held) →
      Reaches (.ofSchema s) fuel (Op.recordAll code.ops) (code.startFrame inputs) m p →
      Reaches (.refusing s) fuel (Op.recordAll code.ops) (code.startFrame inputs) m p →
      Orderly s p.machine (p.frame.stack ++ p.frame.locals ++ held)

theorem Orderly.reachable {s : Schema} {m : Machine} {held : List Value} (h : Orderly s m held) :
    Reachable s m held := by
  induction h with
  | start => exact .start
  | reset _ ih => exact .reset ih
  | default _ run ih => exact .default ih run
  | run _ given run _ ih => exact .run ih given run
  | visit _ given reaches _ ih => exact .visit ih given reaches

namespace Policy

variable {P : Policy} {s : Schema}

theorem refusing_hosts (upholds : ∀ c : Call, c.misplaces s = false → P.UpholdsAt s c) :
    P.Hosts (.refusing s) where
  call c _ operands := by
    unfold Host.refusing
    dsimp only
    split
    · exact .throw _
    · rename_i placed
      exact Native.invoke_keptAt (upholds c (by simpa using placed)) operands
  static f object loaded st id := by
    obtain ⟨owner, name, rfl⟩ := StaticField.eq_extension_of_load loaded
    exact P.plain rfl

end Policy

/-- What a policy that is about faults too says of the states that orderly runs lead to. -/
theorem Orderly.kept {P : Policy} {s : Schema}
    (upholds : ∀ c : Call, c.misplaces s = false → P.UpholdsAt s c) (faults : P.faults)
    (empty : P.sound .empty) {m : Machine} {held : List Value} (h : Orderly s m held) :
    P.Fine m held := by
  have hosts := Policy.refusing_hosts upholds
  induction h with
  | start => exact ⟨empty, nofun⟩
  | reset _ ih => exact ⟨ih.sound, ih.value⟩
  | default _ run ih => exact ih.default faults run
  | run _ given _ run ih => exact ih.run hosts faults given run
  | visit _ given _ reaches ih => exact ih.visit hosts given reaches

/-- What the machine has is at home, and stays when more is stored by the calls. -/
structure Machine.Homes (s : Schema) (labelled : Field → Prop) (calls : Call → Prop) (m : Machine)
    (held : List Value) : Prop where
  message : ∀ id data, m.Has held id (.message data) → Homed s labelled data
  builder : ∀ id typeName, m.Has held id (.builder typeName) →
    (m.store.builderData id typeName).typeName = typeName ∧
      Homed s labelled (m.store.builderData id typeName)
  retains : ∀ c r m', calls c → (∀ v ∈ c.args, v ∈ held) → (∀ v, c.receiver = some v → v ∈ held) →
    (Native.invoke s c).run m = (r, m') → ∀ id typeName, m.Has held id (.builder typeName) →
      Retains s labelled (m.store.builderData id typeName) (m'.store.builderData id typeName)

theorem Policy.Fine.homes {s : Schema} {labelled : Field → Prop} {calls : Call → Prop} {m : Machine}
    {held : List Value} (fine : (Policy.ofLasting (s.homing labelled)).Fine m held)
    (keeps : ∀ c, calls c → s.KeepsAt (s.homing labelled) c) : m.Homes s labelled calls held where
  message _ _ has := (has.message fine).here
  builder _ _ has := (has.builder fine).imp_right Throughout.here
  retains c r m' call args receiver run id typeName has := by
    have later := fine.later_of_invoke (Policy.ofLasting_upholdsAt (keeps c call)) trivial args receiver run
    exact (later id typeName (has.isBuilder fine)).2

theorem Orderly.homes {s : Schema} (wf : s.WellFormed) {m : Machine} {held : List Value}
    (h : Orderly s m held) : m.Homes s (fun _ => True) (fun c => c.misplaces s = false) held := by
  have keeps : ∀ c : Call, c.misplaces s = false → s.KeepsAt (s.homing fun _ => True) c :=
    fun c orderly => wf.keeps_homed fun f receiver owner identified _ =>
      Call.placed_of_not_misplaces orderly owner identified
  exact (h.kept (fun c orderly => Policy.ofLasting_upholdsAt (keeps c orderly)) trivial
    ⟨nofun, nofun⟩).homes keeps

/-- In every state that runs lead to, each slot of a message or of a builder is one of a field of its type
and holds values of the kind of that field. Slots of declared fields have the form of their labels, and no
call takes elements of repeated ones away. After orderly runs this goes for extensions too, of which no
call takes elements away but one that sets. -/
theorem Schema.slots_at_home {files : List FileDescription} {s : Schema}
    (resolved : Schema.resolve files = .ok s) {m : Machine} {held : List Value} :
    (Reachable s m held → m.Homes s (fun f => f.isExtension = false) (fun _ => True) held) ∧
      (Orderly s m held → m.Homes s (fun _ => True) (fun c => c.misplaces s = false) held) := by
  have wf := wellFormed_of_resolve resolved
  refine ⟨fun h => ?_, fun h => h.homes wf⟩
  have keeps : ∀ c, s.KeepsAt (s.homing fun f => f.isExtension = false) c := fun c =>
    wf.keeps_homed fun f receiver _ identified declared => by
      have scope := wf.loaded.scope f (Native.extensionArg_mem identified).1
      exact absurd scope (by simpa [Field.isExtension] using declared)
  exact (h.kept (fun c => Policy.ofLasting_upholdsAt (keeps c)) trivial ⟨nofun, nofun⟩).homes
    fun c _ => keeps c

def crateFile : FileDescription where
  package := "demo"
  revision := .legacy
  holder := "Demo"
  messages := [⟨"Crate", true, []⟩]
  enums := []
  extensions := [⟨"Crate", some "Crate", ⟨"marks", 100, .int32, none, .repeated, none, none, false⟩⟩]

namespace Crate

def marks : Field := ⟨"marks", 100, .int32, .repeated, .legacy, "demo.Crate", none, none, false,
  some (.message "demo.Crate")⟩

def schema : Schema where
  messages := SanitizedKind.wrappers ++ [⟨"demo.Crate", .legacy, true, [], []⟩]
  enums := []
  extensions := [marks]

def operands (n : Int32) : List Op :=
  [.getStatic ⟨.message "demo.Crate", "marks", .ref .extension⟩, .push (.int n), .box .int]

def code (second : Method) : Sequence where
  ops := [.invoke (Signature.newBuilder "demo.Crate")] ++ operands 7 ++ [.invoke Signature.addExtension] ++
    operands 8 ++ [.invoke second]
  inputs := []
  output := some (.ref (.builder "demo.Crate"))
  nonNull := true
  maxLocals := 0

def marked (content : Content Stored) : MessageData := ⟨"demo.Crate", [⟨100, "marks", content⟩]⟩

def machine (content : Content Stored) : Machine := ⟨⟨5, [(0, marked content)], []⟩, [], 0⟩

def crate : Value := .ref 0 (.builder "demo.Crate")

def identifier : Value := .ref 3 (.extension "demo.Crate" "marks")

def number : Value := .ref 4 (.wrapper (.int 8))

def point (second : Method) : Point where
  code := [.plain [] (.invoke second)]
  frame := ⟨[number, identifier, crate], []⟩
  machine := machine (.repeated [.int 7])

theorem reaches (second : Method) :
    Reaches (.ofSchema schema) 0 (Op.recordAll (code second).ops) ((code second).startFrame []) .start
      (point second) := by
  iterate 8 refine .next rfl ?_
  exact .here _ _ _

theorem reaches_refusing (second : Method) :
    Reaches (.refusing schema) 0 (Op.recordAll (code second).ops) ((code second).startFrame []) .start
      (point second) := by
  iterate 8 refine .next rfl ?_
  exact .here _ _ _

theorem orderly : Orderly schema (machine (.repeated [.int 7])) [number, identifier, crate] :=
  .visit .start (by nofun) (reaches Signature.addExtension) (reaches_refusing Signature.addExtension)

end Crate

theorem crateFile_resolved : Schema.resolve [crateFile] = .ok Crate.schema := by
  rfl

/-- A mark is added to the one that the crate has. -/
theorem crate_keeps_marks :
    Orderly Crate.schema (Crate.machine (.repeated [.int 7]))
      [Crate.number, Crate.identifier, Crate.crate] ∧
    Homed Crate.schema (fun _ => True) (Crate.marked (.repeated [.int 7])) ∧
    (Native.invoke Crate.schema ⟨Signature.addExtension, some Crate.crate,
        [Crate.identifier, Crate.number]⟩).run (Crate.machine (.repeated [.int 7])) =
      (.ok Crate.crate, Crate.machine (.repeated [.int 7, .int 8])) ∧
    Retains Crate.schema (fun _ => True) (Crate.marked (.repeated [.int 7]))
      (Crate.marked (.repeated [.int 7, .int 8])) := by
  have homes := (Schema.slots_at_home crateFile_resolved).2 Crate.orderly
  have has : (Crate.machine (.repeated [.int 7])).Has [Crate.number, Crate.identifier, Crate.crate] 0
      (.builder "demo.Crate") := .held (.tail _ (.tail _ (.head _))) (.here _ _)
  have call : (Native.invoke Crate.schema ⟨Signature.addExtension, some Crate.crate,
      [Crate.identifier, Crate.number]⟩).run (Crate.machine (.repeated [.int 7])) =
        (.ok Crate.crate, Crate.machine (.repeated [.int 7, .int 8])) := by
    rfl
  refine ⟨Crate.orderly, (homes.builder 0 _ has).2, call, ?_⟩
  refine homes.retains _ _ _ (by rfl) ?_ ?_ call 0 _ has
  · simp
  · simp

/-- The crate loses its mark when another number is set, and what it holds then is not in the form of the
field. -/
theorem crate_loses_mark :
    Reachable Crate.schema (Crate.machine (.repeated [.int 7]))
      [Crate.number, Crate.identifier, Crate.crate] ∧
    (Native.invoke Crate.schema ⟨Signature.setExtension, some Crate.crate,
        [Crate.identifier, Crate.number]⟩).run (Crate.machine (.repeated [.int 7])) =
      (.ok Crate.crate, Crate.machine (.single (.int 8))) ∧
    Reachable Crate.schema (Crate.machine (.single (.int 8))) [Crate.crate] ∧
    ¬Retains Crate.schema (fun _ => True) (Crate.marked (.repeated [.int 7]))
      (Crate.marked (.single (.int 8))) ∧
    ¬Homed Crate.schema (fun _ => True) (Crate.marked (.single (.int 8))) := by
  have run : ((Crate.code Signature.setExtension).run Crate.schema 0 []).run .start =
      (.ok (some Crate.crate), Crate.machine (.single (.int 8))) := by
    rfl
  refine ⟨.visit .start (by nofun) (Crate.reaches Signature.setExtension), rfl, .run .start (by nofun) run,
    fun retains => ?_, fun homed => ?_⟩
  · have kept := retains.2 Crate.marks (List.mem_singleton_self _) trivial rfl
    obtain ⟨rest, same⟩ := kept
    cases same
  · obtain ⟨f, mem, belongs⟩ := homed _ (List.mem_singleton_self _)
    cases List.mem_singleton.mp mem
    cases belongs.label trivial

end MessageCode
