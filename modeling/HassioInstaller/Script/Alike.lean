import Mathlib.Data.List.Forall2
import HassioInstaller.Script.Logic

/-! # Scripts that differ in their commands

Two scripts are alike for a relation on commands if they issue related commands at the same points and
go on alike after the same answers. Each run of one is then matched by a run of the other. -/

namespace Script
variable {C R : Type}

/-- The scripts `p` and `p'` differ only in commands that `same` relates. -/
inductive Alike (same : C → C → Prop) : Script C R α → Script C R α → Prop
  | ret (a : α) : Alike same (.ret a) (.ret a)
  | exit : Alike same .exit .exit
  | call : same c c' → (∀ r, Alike same (k r) (k' r)) → Alike same (.call c k) (.call c' k')
  | loop {σ β : Type} {body : σ → Script C R (σ ⊕ β)} {x : σ} {k k' : β → Script C R α} :
    (∀ b, Alike same (k b) (k' b)) → Alike same (.loop body x k) (.loop body x k')

/-- Entries of two traces with related commands and the same answers. -/
abbrev Alike.Events (same : C → C → Prop) : List (C × R) → List (C × R) → Prop :=
  List.Forall₂ fun e e' => same e.1 e'.1 ∧ e.2 = e'.2

variable {same : C → C → Prop}

theorem alike_refl (hrefl : ∀ c, same c c) (p : Script C R α) : Alike same p p := by
  induction p with
  | ret a => exact .ret a
  | exit => exact .exit
  | call c k ih => exact .call (hrefl c) ih
  | loop body x k _ ih => exact .loop ih

theorem alike_bind {p p' : Script C R α} {f f' : α → Script C R β} (h : Alike same p p')
    (hf : ∀ a, Alike same (f a) (f' a)) : Alike same (p.bind f) (p'.bind f') := by
  induction h with
  | ret a => exact hf a
  | exit => exact .exit
  | call hc _ ih => exact .call hc fun r => ih r hf
  | loop _ ih => exact .loop fun b => ih b hf

theorem alike_foldlM {f : σ → ι → Script C R σ} {is is' : List ι}
    (h : List.Forall₂ (fun i i' => ∀ x, Alike same (f x i) (f x i')) is is') (x : σ) :
    Alike same (is.foldlM f x) (is'.foldlM f x) := by
  induction h generalizing x with
  | nil => exact .ret x
  | cons hi _ ih =>
    rw [List.foldlM_cons, List.foldlM_cons]
    exact alike_bind (hi x) ih

theorem alike_again {body : σ → Script C R (σ ⊕ β)} {k k' : β → Script C R α}
    (h : ∀ b, Alike same (k b) (k' b)) (y : σ ⊕ β) :
    Alike same (again body k y) (again body k' y) := by
  cases y with
  | inl x => exact .loop h
  | inr b => exact h b

/-- Scripts that are alike have returned the same value, or none. -/
theorem Alike.value_eq {p p' : Script C R α} (h : Alike same p p') : p.value = p'.value := by
  cases h with
  | ret | exit | call | loop => rfl

theorem Alike.step {p p' q : Script C R α} (hrefl : ∀ c, same c c) (h : Alike same p p')
    (hs : Step p t q) : ∃ t' q', Step p' t' q' ∧ Alike.Events same t t' ∧ Alike same q q' := by
  cases hs with
  | call r =>
    cases h with
    | call hc hk => exact ⟨_, _, .call r, .cons ⟨hc, rfl⟩ .nil, hk r⟩
  | loop =>
    cases h with
    | loop hk => exact ⟨_, _, .loop, .nil, alike_bind (alike_refl hrefl _) (alike_again hk)⟩

/-- Each run of a script is matched by the scripts alike. -/
theorem Alike.run {p p' q : Script C R α} (hrefl : ∀ c, same c c) (h : Alike same p p')
    (hr : Run p t q) : ∃ t' q', Run p' t' q' ∧ Alike.Events same t t' ∧ Alike same q q' := by
  induction hr generalizing p' with
  | refl => exact ⟨[], p', .refl, .nil, h⟩
  | step hs _ ih =>
    obtain ⟨t₁, p₁, hs', ht₁, h₁⟩ := h.step hrefl hs
    obtain ⟨t₂, q₂, hr', ht₂, h₂⟩ := ih h₁
    exact ⟨t₁ ++ t₂, q₂, .step hs' hr', List.rel_append ht₁ ht₂, h₂⟩

end Script
