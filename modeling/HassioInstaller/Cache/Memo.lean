import Mathlib.Data.Set.Basic
import Mathlib.Logic.Function.Basic

/-! # Stores filled on demand

A store keeps results under keys and is only ever added to. A request takes the result under its
key, and builds it when there is none. Whether a result taken is the one the request would build
(`Clean`) depends on what the keys leave out: it is if all requests that may have left it there
build the same (`BuiltFrom.clean`), and a result that is clean for two requests is built by both. -/

namespace Memo

variable {I K V : Type*}

abbrev Store (K V : Type*) := K → Option V

/-- `s'` has every entry of `s`. -/
def Extends (s s' : Store K V) : Prop := ∀ k v, s k = some v → s' k = some v

theorem Extends.refl (s : Store K V) : Extends s s := fun _ _ h => h

theorem Extends.trans {s s' s'' : Store K V} (h : Extends s s') (h' : Extends s' s'') :
    Extends s s'' := fun k v hv => h' k v (h k v hv)

theorem Extends.none {s s' : Store K V} (h : Extends s s') (hk : s' k = none) : s k = none := by
  cases hs : s k with
  | none => rfl
  | some v => rw [h k v hs] at hk; cases hk

/-- Every entry satisfies `P`. -/
def Entries (P : K → V → Prop) (s : Store K V) : Prop := ∀ k v, s k = some v → P k v

/-- Every entry was built by a request from `S` with its key. -/
def BuiltFrom (key : I → K) (build : I → Option V) (S : Set I) : Store K V → Prop :=
  Entries fun k v => ∃ i ∈ S, key i = k ∧ build i = some v

/-- A result found under the key of the request is the one the request would build. -/
def Clean (key : I → K) (build : I → Option V) (s : Store K V) (i : I) : Prop :=
  ∀ v, s (key i) = some v → build i = some v

section
variable {key : I → K} {build : I → Option V}

/-- One result that is clean for two requests is what both would build. -/
theorem Clean.build_eq {s s' : Store K V} (hi : Clean key build s i) (hj : Clean key build s' j)
    (h : s (key i) = some v) (h' : s' (key j) = some v) : build i = build j :=
  (hi v h).trans (hj v h').symm

/-- A result is clean if every request that may have left it would build the same. -/
theorem BuiltFrom.clean {S : Set I} {s : Store K V} (h : BuiltFrom key build S s)
    (hj : ∀ i ∈ S, key i = key j → build i = build j) : Clean key build s j := by
  intro v hv
  obtain ⟨i, hi, hk, hb⟩ := h _ v hv
  rw [← hj i hi hk, hb]

end

/-! ## Adding to a store -/

variable [DecidableEq K]

theorem extends_update {s : Store K V} (h : s k = none) (v : V) :
    Extends s (Function.update s k (some v)) := by
  intro k' v' hv
  have hne : k' ≠ k := by
    rintro rfl
    rw [h] at hv
    cases hv
  rwa [Function.update_of_ne hne]

theorem Entries.update {P : K → V → Prop} {s : Store K V} (h : Entries P s) (hv : P k v) :
    Entries P (Function.update s k (some v)) := by
  intro k' v' hk
  by_cases hne : k' = k
  · subst hne
    rw [Function.update_self] at hk
    cases hk
    exact hv
  · rw [Function.update_of_ne hne] at hk
    exact h k' v' hk

/-- One request. A build that fails leaves the store as it is. -/
def visit (key : I → K) (build : I → Option V) (s : Store K V) (i : I) : Store K V :=
  match s (key i), build i with
  | none, some v => Function.update s (key i) (some v)
  | _, _ => s

variable {key : I → K} {build : I → Option V}

theorem visit_of_some {s : Store K V} (h : s (key i) = some v) : visit key build s i = s := by
  simp only [visit, h]

theorem visit_of_fail {s : Store K V} (h : build i = none) : visit key build s i = s := by
  cases hs : s (key i) <;> simp only [visit, hs, h]

theorem visit_of_none {s : Store K V} (h : s (key i) = none) (hv : build i = some v) :
    visit key build s i = Function.update s (key i) (some v) := by
  simp only [visit, h, hv]

theorem BuiltFrom.visit {S : Set I} {s : Store K V} (h : BuiltFrom key build S s) (hi : i ∈ S) :
    BuiltFrom key build S (visit key build s i) := by
  cases hs : s (key i) with
  | some v => rwa [visit_of_some hs]
  | none =>
    cases hb : build i with
    | none => rwa [visit_of_fail hb]
    | some v =>
      rw [visit_of_none hs hb]
      exact Entries.update h ⟨i, hi, rfl, hb⟩

end Memo
