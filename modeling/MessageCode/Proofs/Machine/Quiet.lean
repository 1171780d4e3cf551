import MessageCode.Proofs.Machine.Exec
import MessageCode.Proofs.Stateful

/-!
Steps that change nothing on the machine but the identity that comes next. Builders, lists and the count
of suspension points are after them as they were before, also where they end with a fault.
-/

namespace MessageCode

open Stateful

def Machine.numbered (m : Machine) (n : ObjectId) : Machine :=
  { m with store := { m.store with nextId := n } }

/-- Of a step that hands out identities and does nothing else: it ends with a result that has the
property or, only where it may, with a fault. -/
def Quiet {α : Type} (x : Run α) (P : α → Prop) (mayFault : Prop) : Prop :=
  ∀ m, (∃ a n, x.run m = (.ok a, m.numbered n) ∧ P a) ∨
    mayFault ∧ ∃ fault n, x.run m = (.error (.fault fault), m.numbered n)

namespace Quiet

variable {α β : Type} {x : Run α} {P P' : α → Prop} {Q : β → Prop} {mayFault mayFault' : Prop}

theorem pure {a : α} (h : P a) : Quiet (Pure.pure a) P mayFault :=
  fun m => .inl ⟨a, m.store.nextId, rfl, h⟩

theorem fault {f : Fault} (h : mayFault) : Quiet (Run.fault f) P mayFault :=
  fun m => .inr ⟨h, f, m.store.nextId, rfl⟩

theorem imp (h : Quiet x P mayFault) (h' : ∀ a, P a → P' a) : Quiet x P' mayFault := by
  intro m
  rcases h m with ⟨a, n, run, holds⟩ | failed
  · exact .inl ⟨a, n, run, h' a holds⟩
  · exact .inr failed

theorem excuse (h : Quiet x P mayFault) (h' : mayFault → mayFault') : Quiet x P mayFault' := by
  intro m
  rcases h m with ended | ⟨may, failed⟩
  · exact .inl ended
  · exact .inr ⟨h' may, failed⟩

theorem bind {f : α → Run β} (h : Quiet x P mayFault) (h' : ∀ a, P a → Quiet (f a) Q mayFault) :
    Quiet (x >>= f) Q mayFault := by
  intro m
  rcases h m with ⟨a, n, run, holds⟩ | ⟨may, e, n, run⟩
  · rcases h' a holds (m.numbered n) with ⟨b, k, run', holds'⟩ | ⟨may, e, k, run'⟩
    · exact .inl ⟨b, k, (run_bind_ok run f).trans run', holds'⟩
    · exact .inr ⟨may, e, k, (run_bind_ok run f).trans run'⟩
  · exact .inr ⟨may, e, n, run_bind_error run f⟩

theorem of_ok (h : Quiet x P mayFault) {m m' : Machine} {a : α} (run : x.run m = (.ok a, m')) : P a := by
  rcases h m with ⟨b, n, run', holds⟩ | ⟨-, fault, n, run'⟩
  · cases run.symm.trans run'
    exact holds
  · cases run.symm.trans run'

theorem ofExcept {e : Except Fault α} (ok : ∀ a, e = .ok a → P a)
    (error : ∀ f, e = .error f → mayFault) : Quiet (Run.ofExcept e) P mayFault := by
  cases e with
  | ok a => exact pure (ok a rfl)
  | error f => exact fault (error f rfl)

theorem alloc (object : Object) :
    Quiet (monadLift (Machine.alloc object) : Run Value) (fun v => ∃ id, v = .ref id object) mayFault :=
  fun m => .inl ⟨_, m.store.nextId + 1, rfl, _, rfl⟩

end Quiet

end MessageCode
