import MessageCode.Proofs.Machine.Isolation

/-!
Isolated runs. Code on a frame that leads to nothing that is hidden leaves the hidden builders and lists
as they are, and comes to frames of this kind only.
-/

namespace MessageCode

open Stateful

structure Frame.LeadsOpen (hidden : ObjectId → Prop) (made : Nat) (frame : Frame) : Prop where
  stack : ∀ v ∈ frame.stack, MessageCode.LeadsOpen hidden made v
  locals : ∀ v ∈ frame.locals, MessageCode.LeadsOpen hidden made v

/-- The operations and the static fields of the host do not get at what is hidden. -/
structure Host.Guards (host : Host) (hidden : ObjectId → Prop) : Prop where
  call : ∀ c made, c.LeadsOpen hidden made →
    Guarded hidden made (host.call c) (MessageCode.LeadsOpen hidden)
  static : ∀ f object, host.static f = .ok object → ∀ allowed id, object.Within allowed id

theorem Policy.isolation_hosts {host : Host} {hidden : ObjectId → Prop} (guards : host.Guards hidden) :
    (isolation hidden).Hosts host where
  call c st operands := (guards.call c st.nextId ⟨operands.args, operands.receiver⟩).kept
  static f object loaded st id := guards.static f object loaded (Open hidden st.nextId) id

theorem Host.ofSchema_guards (s : Schema) (hidden : ObjectId → Prop) :
    (Host.ofSchema s).Guards hidden where
  call c made leads := .of_kept fun _ le => Native.invoke_kept (Policy.isolation_upholds s)
    ⟨fun v mem => (leads.args v mem).mono le, fun v same => (leads.receiver v same).mono le⟩
  static f object loaded allowed id := by
    obtain ⟨owner, name, rfl⟩ := StaticField.eq_extension_of_load loaded
    trivial

section

variable {host : Host} {hidden : ObjectId → Prop} {made : Nat} {frame : Frame}

theorem Op.execAll_guarded {fuel : Nat} (guards : host.Guards hidden) (ops : List Op)
    (h : frame.LeadsOpen hidden made) :
    Guarded hidden made (execAll host fuel ops frame) (Frame.LeadsOpen hidden) :=
  .of_kept fun _ le => (execAll_kept (Policy.isolation_hosts guards) ops
    ⟨fun v mem => (h.stack v mem).mono le, fun v mem => (h.locals v mem).mono le⟩).imp
      fun _ _ allows => ⟨allows.stack, allows.locals⟩

/-- A run of a sequence on inputs that lead to nothing hidden leaves what is hidden as it is. -/
theorem Sequence.runOn_guarded (guards : host.Guards hidden) (fuel : Nat) (s : Sequence)
    {inputs : List Value} (h : ∀ v ∈ inputs, LeadsOpen hidden made v) :
    Guarded hidden made (s.runOn host fuel inputs) (LeadsOpen? hidden) :=
  .of_kept fun _ le => s.runOn_kept (Policy.isolation_hosts guards) fuel fun v mem => (h v mem).mono le

end

/-- Every list of the machine holds values that lead to builders and lists made before. -/
abbrev Machine.Tidy (m : Machine) : Prop := m.Apart fun _ => False

theorem Machine.start_tidy : start.Tidy := ⟨nofun, nofun⟩

/-- Runs keep a machine tidy. -/
theorem Sequence.run_tidy {schema : Schema} {fuel : Nat} {s : Sequence} {inputs : List Value}
    {m m' : Machine} {result : Option Value} (tidy : m.Tidy)
    (h : ∀ v ∈ inputs, LeadsOpen (fun _ => False) m.store.nextId v)
    (run : (s.run schema fuel inputs).run m = (.ok result, m')) :
    m'.Tidy ∧ ∀ v, result = some v → LeadsOpen (fun _ => False) m'.store.nextId v := by
  obtain ⟨-, tidy, -, leads⟩ := s.runOn_guarded (Host.ofSchema_guards schema _) fuel h m le_rfl tidy
    result m' run
  exact ⟨tidy, leads⟩

end MessageCode
