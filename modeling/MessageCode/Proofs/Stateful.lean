import Mathlib.Data.List.Forall2

/-!
Steps that change a state and can fail. The assembler, native operations and runs are all of this
form, so that what a sequence of steps does is said once for them. The state after a failure is kept.
-/

namespace MessageCode

abbrev Stateful (ε σ α : Type) := ExceptT ε (StateM σ) α

namespace Stateful

variable {ε ε' σ α β γ : Type}

@[simp] theorem result_eq_iff {r s : Except ε α} {x y : σ} :
    @Eq (Id (Except ε α × σ)) (r, x) (s, y) ↔ r = s ∧ x = y :=
  Prod.mk.injEq .. ▸ Iff.rfl

theorem ext {x y : Stateful ε σ α} (h : ∀ s, x.run s = y.run s) : x = y := funext h

theorem run_bind (x : Stateful ε σ α) (f : α → Stateful ε σ β) (s : σ) :
    (x >>= f).run s = match x.run s with
      | (.ok a, t) => (f a).run t
      | (.error e, t) => (.error e, t) := by
  change (ExceptT.bindCont f (x.run s).1).run (x.run s).2 = _
  rcases x.run s with ⟨_ | _, t⟩ <;> rfl

@[simp] theorem run_pure (a : α) (s : σ) : (pure a : Stateful ε σ α).run s = (.ok a, s) := rfl

@[simp] theorem run_throw (e : ε) (s : σ) : (throw e : Stateful ε σ α).run s = (.error e, s) := rfl

@[simp] theorem run_get (s : σ) : (get : Stateful ε σ σ).run s = (.ok s, s) := rfl

@[simp] theorem run_set (t s : σ) : (set t : Stateful ε σ PUnit).run s = (.ok ⟨⟩, t) := rfl

@[simp] theorem run_modify (f : σ → σ) (s : σ) :
    (modify f : Stateful ε σ PUnit).run s = (.ok ⟨⟩, f s) := rfl

@[simp] theorem run_map (f : α → β) (x : Stateful ε σ α) (s : σ) :
    (f <$> x).run s = ((x.run s).1.map f, (x.run s).2) := by
  rw [← bind_pure_comp, run_bind]
  rcases x.run s with ⟨_ | _, t⟩ <;> rfl

theorem run_bind_ok {x : Stateful ε σ α} {s t : σ} {a : α} (h : x.run s = (.ok a, t))
    (f : α → Stateful ε σ β) : (x >>= f).run s = (f a).run t := by
  rw [run_bind, h]

theorem run_bind_error {x : Stateful ε σ α} {s t : σ} {e : ε} (h : x.run s = (.error e, t))
    (f : α → Stateful ε σ β) : (x >>= f).run s = (.error e, t) := by
  rw [run_bind, h]

theorem bind_eq_error {x : Stateful ε σ α} {f : α → Stateful ε σ β} {s u : σ} {e : ε} :
    (x >>= f).run s = (.error e, u) ↔
      x.run s = (.error e, u) ∨ ∃ a t, x.run s = (.ok a, t) ∧ (f a).run t = (.error e, u) := by
  rw [run_bind]
  rcases x.run s with ⟨e' | a, t⟩
  · constructor
    · intro h
      cases h
      exact .inl rfl
    · rintro (h | ⟨_, _, h, _⟩)
      · cases h
        rfl
      · cases h
  · constructor
    · intro h
      exact .inr ⟨a, t, rfl, h⟩
    · rintro (h | ⟨_, _, h, rest⟩)
      · cases h
      · cases h
        exact rest

theorem bind_eq_ok {x : Stateful ε σ α} {f : α → Stateful ε σ β} {s u : σ} {b : β} :
    (x >>= f).run s = (.ok b, u) ↔
      ∃ a t, x.run s = (.ok a, t) ∧ (f a).run t = (.ok b, u) := by
  rw [run_bind]
  rcases x.run s with ⟨e | a, t⟩
  · constructor
    · intro h
      cases h
    · rintro ⟨_, _, h, _⟩
      cases h
  · constructor
    · intro h
      exact ⟨a, t, rfl, h⟩
    · rintro ⟨_, _, h, rest⟩
      cases h
      exact rest

/-- From every state the step gives a result, one with the property. -/
def Gives (x : Stateful ε σ α) (P : α → Prop) : Prop := ∀ s, ∃ a t, x.run s = (.ok a, t) ∧ P a

namespace Gives

variable {x : Stateful ε σ α} {P P' : α → Prop} {Q : β → Prop}

theorem pure {a : α} (h : P a) : Gives (Pure.pure a : Stateful ε σ α) P :=
  fun s => ⟨a, s, rfl, h⟩

theorem bind {f : α → Stateful ε σ β} (h : Gives x P) (h' : ∀ a, P a → Gives (f a) Q) :
    Gives (x >>= f) Q := by
  intro s
  obtain ⟨a, t, run, holds⟩ := h s
  obtain ⟨b, u, run', holds'⟩ := h' a holds t
  exact ⟨b, u, by rw [run_bind_ok run, run'], holds'⟩

theorem imp (h : Gives x P) (h' : ∀ a, P a → P' a) : Gives x P' := by
  intro s
  obtain ⟨a, t, run, holds⟩ := h s
  exact ⟨a, t, run, h' a holds⟩

theorem mapM {f : α → Stateful ε σ β} {R : α → β → Prop} {items : List α}
    (h : ∀ a ∈ items, Gives (f a) (R a)) : Gives (items.mapM f) (List.Forall₂ R items) := by
  induction items with
  | nil =>
      rw [List.mapM_nil]
      exact pure .nil
  | cons a items ih =>
      rw [List.mapM_cons]
      refine (h a List.mem_cons_self).bind fun b first => ?_
      refine (ih fun a mem => h a (List.mem_cons_of_mem _ mem)).bind fun bs rest => ?_
      exact pure (.cons first rest)

end Gives

def Ensures (x : Stateful ε σ α) (P : α → Prop) : Prop := ∀ s a t, x.run s = (.ok a, t) → P a

namespace Ensures

variable {x : Stateful ε σ α} {P P' : α → Prop} {Q : β → Prop}

theorem pure {a : α} (h : P a) : Ensures (Pure.pure a : Stateful ε σ α) P := by
  rintro s _ t ⟨⟩
  exact h

theorem throw (e : ε) : Ensures (MonadExcept.throw e : Stateful ε σ α) P := nofun

theorem imp (h : Ensures x P) (h' : ∀ a, P a → P' a) : Ensures x P' :=
  fun s a t run => h' a (h s a t run)

theorem bind {f : α → Stateful ε σ β} (h : Ensures x P) (h' : ∀ a, P a → Ensures (f a) Q) :
    Ensures (x >>= f) Q := by
  intro s b u run
  obtain ⟨a, t, first, second⟩ := bind_eq_ok.mp run
  exact h' a (h s a t first) t b u second

theorem after {f : α → Stateful ε σ β} (h : ∀ a, Ensures (f a) Q) : Ensures (x >>= f) Q := by
  intro s b u run
  obtain ⟨a, t, -, second⟩ := bind_eq_ok.mp run
  exact h a t b u second

theorem refuse {p : Prop} [Decidable p] {e : ε} {f : PUnit → Stateful ε σ α} (h : Ensures (f ⟨⟩) P) :
    Ensures (if p then MonadExcept.throw e >>= f else f ⟨⟩) P := by
  split
  · intro s a t run
    cases run
  · exact h

end Ensures

/-- Each time the step changes nothing, or gives a result with the property. -/
def Atomic (x : Stateful ε σ α) (P : α → Prop) : Prop :=
  ∀ s, (x.run s).2 = s ∨ ∃ a t, x.run s = (.ok a, t) ∧ P a

namespace Atomic

variable {x : Stateful ε σ α} {P : α → Prop} {Q : β → Prop}

theorem pure (a : α) : Atomic (Pure.pure a : Stateful ε σ α) P := fun _ => .inl rfl

theorem throw (e : ε) : Atomic (MonadExcept.throw e : Stateful ε σ α) P := fun _ => .inl rfl

theorem of_gives (h : Gives x P) : Atomic x P := fun s => .inr (h s)

theorem bind {f : α → Stateful ε σ β} (h : Atomic x P) (h' : ∀ a, Atomic (f a) Q)
    (follows : ∀ a, P a → Gives (f a) Q) : Atomic (x >>= f) Q := by
  intro s
  rw [run_bind]
  rcases h s with same | ⟨a, t, run, holds⟩
  · rcases first : x.run s with ⟨_ | a, t⟩
    · rw [first] at same
      exact .inl same
    · rw [first] at same
      cases same
      exact h' a t
  · rw [run]
    exact .inr (follows a holds t)

theorem eq_of_error (h : Atomic x P) {s t : σ} {e : ε} (run : x.run s = (.error e, t)) : t = s := by
  rcases h s with same | ⟨_, _, run', -⟩
  · rw [run] at same
    exact same
  · cases run.symm.trans run'

end Atomic

/-- From the state the step gives a result with the property or, where an error is expected, fails with
that error. -/
def Settles (x : Stateful ε σ α) (s : σ) (expected : Option ε) (P : α → Prop) : Prop :=
  match expected with
  | none => ∃ a t, x.run s = (.ok a, t) ∧ P a
  | some e => ∃ t, x.run s = (.error e, t)

namespace Settles

variable {x : Stateful ε σ α} {s : σ} {P P' : α → Prop} {Q : β → Prop} {expected expected' : Option ε}

theorem pure {a : α} (h : P a) : Settles (Pure.pure a : Stateful ε σ α) s none P := ⟨a, s, rfl, h⟩

theorem imp (h : Settles x s expected P) (h' : ∀ a, P a → P' a) : Settles x s expected P' := by
  cases expected with
  | none =>
      obtain ⟨a, t, run, holds⟩ := h
      exact ⟨a, t, run, h' a holds⟩
  | some e => exact h

/-- Of the errors of two steps that of the first comes up. -/
theorem bind {f : α → Stateful ε σ β} (h : Settles x s expected P)
    (h' : ∀ a t, P a → Settles (f a) t expected' Q) : Settles (x >>= f) s (expected.or expected') Q := by
  cases expected with
  | none =>
      obtain ⟨a, t, run, holds⟩ := h
      have next := h' a t holds
      unfold Settles
      rw [run_bind_ok run]
      exact next
  | some e =>
      obtain ⟨t, stop⟩ := h
      exact ⟨t, run_bind_error stop f⟩

theorem after {f : α → Stateful ε σ β} (h : Gives x P) (h' : ∀ a t, P a → Settles (f a) t expected Q) :
    Settles (x >>= f) s expected Q := by
  have first : Settles x s none P := h s
  exact first.bind h'

theorem before {f : α → Stateful ε σ β} (h : Settles x s expected P) (h' : ∀ a, P a → Gives (f a) Q) :
    Settles (x >>= f) s expected Q := by
  rw [← Option.or_none (o := expected)]
  exact h.bind fun a t holds => h' a holds t

theorem map {g : α → β} (h : Settles x s expected P) (h' : ∀ a, P a → Q (g a)) :
    Settles (g <$> x) s expected Q := by
  rw [← bind_pure_comp]
  exact h.before fun a holds => .pure (h' a holds)

/-- A run that is known to be that of another step, from another state. -/
theorem of_eq {y : Stateful ε σ α} {t : σ} (h : Settles x s expected P) (run : y.run t = x.run s) :
    Settles y t expected P := by
  unfold Settles at h ⊢
  rwa [run]

theorem of_run {f : α → Stateful ε σ β} {a : α} {t : σ} (run : x.run s = (.ok a, t))
    (h : Settles (f a) t expected Q) : Settles (x >>= f) s expected Q :=
  h.of_eq (run_bind_ok run f)

end Settles

/-- From the state the two steps fail in the same way, or give related results and the same state. -/
def Alike (x : Stateful ε σ α) (y : Stateful ε σ β) (s : σ) (Q : α → β → σ → Prop) : Prop :=
  (∃ e t, x.run s = (.error e, t) ∧ y.run s = (.error e, t)) ∨
    ∃ a b t, x.run s = (.ok a, t) ∧ y.run s = (.ok b, t) ∧ Q a b t

namespace Alike

variable {δ : Type} {x : Stateful ε σ α} {y : Stateful ε σ β} {s : σ} {Q Q' : α → β → σ → Prop}
  {R : γ → δ → σ → Prop}

theorem pure {a : α} {b : β} (h : Q a b s) :
    Alike (Pure.pure a : Stateful ε σ α) (Pure.pure b : Stateful ε σ β) s Q :=
  .inr ⟨a, b, s, rfl, rfl, h⟩

theorem imp (h : Alike x y s Q) (h' : ∀ a b t, Q a b t → Q' a b t) : Alike x y s Q' := by
  rcases h with failed | ⟨a, b, t, run, run', related⟩
  · exact .inl failed
  · exact .inr ⟨a, b, t, run, run', h' a b t related⟩

theorem bind {f : α → Stateful ε σ γ} {g : β → Stateful ε σ δ} (h : Alike x y s Q)
    (h' : ∀ a b t, Q a b t → Alike (f a) (g b) t R) : Alike (x >>= f) (y >>= g) s R := by
  rcases h with ⟨e, t, run, run'⟩ | ⟨a, b, t, run, run', related⟩
  · exact .inl ⟨e, t, run_bind_error run f, run_bind_error run' g⟩
  · have next := h' a b t related
    unfold Alike
    rw [run_bind_ok run, run_bind_ok run']
    exact next

/-- Steps whose results are equal run in the same way. -/
theorem run_eq {y : Stateful ε σ α} (h : Alike x y s fun a b _ => a = b) : x.run s = y.run s := by
  rcases h with ⟨e, t, run, run'⟩ | ⟨a, b, t, run, run', rfl⟩
  · rw [run, run']
  · rw [run, run']

/-- What is known of the results of the second step holds of the common results. -/
theorem also {P : β → σ → Prop} (h : Alike x y s Q) (known : ∀ b t, y.run s = (.ok b, t) → P b t) :
    Alike x y s fun a b t => Q a b t ∧ P b t := by
  rcases h with failed | ⟨a, b, t, run, run', related⟩
  · exact .inl failed
  · exact .inr ⟨a, b, t, run, run', related, known b t run'⟩

theorem of_map {f : β → γ} {Q : α → γ → σ → Prop} (h : Alike x (f <$> y) s Q) :
    Alike x y s fun a b t => Q a (f b) t := by
  rcases h with ⟨e, t, run, run'⟩ | ⟨a, c, t, run, run', related⟩
  · rw [run_map] at run'
    rcases result : y.run s with ⟨e' | b, t'⟩
    · rw [result] at run'
      cases run'
      exact .inl ⟨_, _, run, result⟩
    · rw [result] at run'
      cases run'
  · rw [run_map] at run'
    rcases result : y.run s with ⟨e' | b, t'⟩
    · rw [result] at run'
      cases run'
    · rw [result] at run'
      cases run'
      exact .inr ⟨a, b, _, run, result, related⟩

theorem after {g : β → Stateful ε σ γ} {Q' : α → γ → σ → Prop} (h : Alike x y s Q)
    (h' : ∀ a b t, Q a b t → ∃ c, (g b).run t = (.ok c, t) ∧ Q' a c t) :
    Alike x (y >>= g) s Q' := by
  rcases h with ⟨e, t, run, run'⟩ | ⟨a, b, t, run, run', related⟩
  · exact .inl ⟨e, t, run, run_bind_error run' g⟩
  · obtain ⟨c, more, related⟩ := h' a b t related
    exact .inr ⟨a, c, t, run, by rw [run_bind_ok run', more], related⟩

theorem ahead {f : α → Stateful ε σ γ} {Q : γ → β → σ → Prop} {a : α} (run : x.run s = (.ok a, s))
    (h : Alike (f a) y s Q) : Alike (x >>= f) y s Q := by
  unfold Alike
  rw [run_bind_ok run]
  exact h

end Alike

end Stateful

end MessageCode
