import Mathlib.Data.List.Forall2
import Mathlib.Data.List.Nodup
import Mathlib.Data.List.Perm.Basic

/-!
Steps that can fail and have no state: what is known when a list of them succeeds.
-/

namespace MessageCode

namespace Fallible

variable {ε α β : Type}

theorem bind_eq_ok {x : Except ε α} {f : α → Except ε β} {b : β} :
    x >>= f = .ok b ↔ ∃ a, x = .ok a ∧ f a = .ok b := by
  cases x with
  | error e =>
      constructor
      · intro h
        cases h
      · rintro ⟨_, h, _⟩
        cases h
  | ok a =>
      constructor
      · intro h
        exact ⟨a, rfl, h⟩
      · rintro ⟨_, h, rest⟩
        cases h
        exact rest

theorem pure_eq_ok {a b : α} : (pure a : Except ε α) = .ok b ↔ a = b := by
  constructor
  · intro h
    cases h
    rfl
  · rintro rfl
    rfl

/-- Steps behind a refusal succeed exactly when what is refused does not hold and they do. -/
theorem refuse_eq_ok {γ : Type} {p : Prop} [Decidable p] {e : ε} {k : γ → Except ε β}
    {x : Except ε β} {b : β} :
    (if p then throw e >>= k else x) = .ok b ↔ ¬p ∧ x = .ok b := by
  by_cases h : p
  · simp only [h, if_true, not_true_eq_false, false_and, iff_false]
    intro absurd
    cases absurd
  · simp only [h, if_false, not_false_eq_true, true_and]

theorem refuse_last_eq_ok {p : Prop} [Decidable p] {e : ε} {x : Except ε β} {b : β} :
    (if p then throw e else x) = .ok b ↔ ¬p ∧ x = .ok b := by
  by_cases h : p
  · simp only [h, if_true, not_true_eq_false, false_and, iff_false]
    intro absurd
    cases absurd
  · simp only [h, if_false, not_false_eq_true, true_and]

/-- Steps behind a requirement succeed exactly when it holds and they do. -/
theorem require_eq_ok {γ : Type} {p : Prop} [Decidable p] {e : ε} {k : γ → Except ε β}
    {x : Except ε β} {b : β} :
    (if p then x else throw e >>= k) = .ok b ↔ p ∧ x = .ok b := by
  by_cases h : p
  · simp only [h, if_true, true_and]
  · simp only [h, if_false, false_and, iff_false]
    intro absurd
    cases absurd

theorem mapM_eq_ok {f : α → Except ε β} {items : List α} {results : List β} :
    items.mapM f = .ok results ↔ List.Forall₂ (fun a b => f a = .ok b) items results := by
  induction items generalizing results with
  | nil => rw [List.mapM_nil, pure_eq_ok, List.forall₂_nil_left_iff, eq_comm]
  | cons a items ih =>
      rw [List.mapM_cons, bind_eq_ok, List.forall₂_cons_left_iff]
      constructor
      · rintro ⟨b, first, rest⟩
        obtain ⟨bs, others, rest⟩ := bind_eq_ok.mp rest
        exact ⟨b, bs, first, ih.mp others, (pure_eq_ok.mp rest).symm⟩
      · rintro ⟨b, bs, first, others, rfl⟩
        exact ⟨b, first, bind_eq_ok.mpr ⟨bs, ih.mpr others, rfl⟩⟩

/-- Steps that each add one result to those before them, if it agrees with all of them. -/
theorem foldlM_gather {step : List β → α → Except ε (List β)} {P : α → β → Prop} {Q : β → β → Prop}
    (h : ∀ before a after, step before a = .ok after ↔
      ∃ b, after = before ++ [b] ∧ P a b ∧ ∀ c ∈ before, Q c b) {items : List α}
    {before after : List β} :
    items.foldlM step before = .ok after ↔ ∃ results, after = before ++ results ∧
      List.Forall₂ P items results ∧ results.Pairwise Q ∧ ∀ c ∈ before, ∀ b ∈ results, Q c b := by
  induction items generalizing before with
  | nil =>
      rw [List.foldlM_nil, pure_eq_ok]
      constructor
      · rintro rfl
        exact ⟨[], (List.append_nil _).symm, .nil, .nil, nofun⟩
      · rintro ⟨_, rfl, ⟨⟩, -⟩
        exact (List.append_nil _).symm
  | cons a items ih =>
      rw [List.foldlM_cons, bind_eq_ok]
      constructor
      · rintro ⟨_, first, rest⟩
        obtain ⟨b, rfl, holds, agrees⟩ := (h ..).mp first
        obtain ⟨results, rfl, all, apart, agree⟩ := ih.mp rest
        refine ⟨b :: results, by simp, .cons holds all, .cons ?_ apart, ?_⟩
        · exact fun c mem => agree b (List.mem_append_right _ List.mem_cons_self) c mem
        · intro c mem c' mem'
          rcases List.mem_cons.mp mem' with rfl | mem'
          · exact agrees c mem
          · exact agree c (List.mem_append_left _ mem) c' mem'
      · rintro ⟨_, rfl, all, apart, agree⟩
        obtain _ | ⟨holds, all⟩ := all
        rename_i b results
        obtain _ | ⟨first, apart⟩ := apart
        refine ⟨before ++ [b], (h ..).mpr ⟨b, rfl, holds, fun c mem => agree c mem b List.mem_cons_self⟩,
          ih.mpr ⟨results, by simp, all, apart, ?_⟩⟩
        intro c mem c' mem'
        rcases List.mem_append.mp mem with mem | mem
        · exact agree c mem c' (List.mem_cons_of_mem _ mem')
        · cases List.mem_singleton.mp mem
          exact first c' mem'

end Fallible

/-! Lists whose items correspond one by one. -/

namespace Paired

variable {α β γ : Type} {R : α → β → Prop} {as : List α} {bs : List β}

theorem exists_of_forall (h : ∀ a ∈ as, ∃ b, R a b) : ∃ bs, List.Forall₂ R as bs := by
  induction as with
  | nil => exact ⟨[], .nil⟩
  | cons a as ih =>
      obtain ⟨b, first⟩ := h a List.mem_cons_self
      obtain ⟨bs, rest⟩ := ih fun a mem => h a (List.mem_cons_of_mem _ mem)
      exact ⟨b :: bs, .cons first rest⟩

theorem left_of_mem (h : List.Forall₂ R as bs) {b : β} (mem : b ∈ bs) : ∃ a ∈ as, R a b := by
  induction h with
  | nil => cases mem
  | cons first _ ih =>
      rcases List.mem_cons.mp mem with rfl | mem
      · exact ⟨_, List.mem_cons_self, first⟩
      · obtain ⟨a, mem, holds⟩ := ih mem
        exact ⟨a, List.mem_cons_of_mem _ mem, holds⟩

theorem right_of_mem (h : List.Forall₂ R as bs) {a : α} (mem : a ∈ as) : ∃ b ∈ bs, R a b := by
  obtain ⟨b, mem, holds⟩ := left_of_mem h.flip mem
  exact ⟨b, mem, holds⟩

theorem exists_between {P : α → γ → Prop} {Q : γ → β → Prop} (h : List.Forall₂ R as bs)
    (between : ∀ a b, R a b → ∃ c, P a c ∧ Q c b) :
    ∃ cs, List.Forall₂ P as cs ∧ List.Forall₂ Q cs bs := by
  induction h with
  | nil => exact ⟨[], .nil, .nil⟩
  | cons first _ ih =>
      obtain ⟨c, left, right⟩ := between _ _ first
      obtain ⟨cs, lefts, rights⟩ := ih
      exact ⟨c :: cs, .cons left lefts, .cons right rights⟩

theorem map_eq {f : α → γ} {g : β → γ} (h : List.Forall₂ R as bs) (same : ∀ a b, R a b → g b = f a) :
    bs.map g = as.map f := by
  induction h with
  | nil => rfl
  | cons first _ ih => rw [List.map_cons, List.map_cons, same _ _ first, ih]

theorem eq_map_iff {f : α → β} : List.Forall₂ (fun a b => b = f a) as bs ↔ bs = as.map f := by
  constructor
  · intro h
    simpa using map_eq (g := id) h fun _ _ same => same
  · rintro rfl
    exact List.forall₂_map_right_iff.mpr (List.forall₂_same.mpr fun _ _ => rfl)

theorem pairwise {P : α → α → Prop} {Q : β → β → Prop} (h : List.Forall₂ R as bs) (apart : as.Pairwise P)
    (imp : ∀ a b a' b', R a b → R a' b' → P a a' → Q b b') : bs.Pairwise Q := by
  induction h with
  | nil => exact .nil
  | cons first rest ih =>
      obtain _ | ⟨head, tail⟩ := apart
      refine .cons (fun b mem => ?_) (ih tail)
      obtain ⟨a, mem, holds⟩ := left_of_mem rest mem
      exact imp _ _ _ _ first holds (head a mem)

theorem flatMap {S : β → γ → Prop} {f : α → List β} {g : α → List γ}
    (h : ∀ a ∈ as, List.Forall₂ S (f a) (g a)) : List.Forall₂ S (as.flatMap f) (as.flatMap g) := by
  induction as with
  | nil => exact .nil
  | cons a as ih =>
      rw [List.flatMap_cons, List.flatMap_cons]
      exact List.rel_append (h a List.mem_cons_self) (ih fun a mem => h a (List.mem_cons_of_mem _ mem))

end Paired

/-- Among items with different keys a key finds the one that has it. -/
theorem find?_key_eq_some {α κ : Type} [DecidableEq κ] {key : α → κ} {items : List α}
    (nodup : (items.map key).Nodup) {k : κ} {a : α} :
    (items.find? fun a => key a = k) = some a ↔ a ∈ items ∧ key a = k := by
  constructor
  · intro found
    exact ⟨List.mem_of_find?_eq_some found, by simpa using List.find?_some found⟩
  · rintro ⟨mem, rfl⟩
    cases found : items.find? fun b => key b = key a with
    | none => simpa using List.find?_eq_none.mp found a mem
    | some b =>
        have same : key b = key a := by simpa using List.find?_some found
        rw [List.inj_on_of_nodup_map nodup (List.mem_of_find?_eq_some found) mem same]

theorem find?_key_perm {α κ : Type} [DecidableEq κ] {key : α → κ} {items items' : List α}
    (nodup : (items.map key).Nodup) (order : items.Perm items') (k : κ) :
    (items.find? fun a => key a = k) = items'.find? fun a => key a = k := by
  refine Option.ext fun a => ?_
  rw [find?_key_eq_some nodup, find?_key_eq_some ((order.map key).nodup_iff.mp nodup), order.mem_iff]

end MessageCode
