/-! # Command scripts and their runs

A script issues commands of a type `C`, each answered by its environment with a value of `R`,
and may return a value, end early (`exit`, after which nothing of the script runs) or go round a
loop any number of times. It is the tree of everything the script may do, one branch for each
answer; a `Run` is one path through it, with the commands issued and the answers to them as its
trace. A run may stop anywhere, so it is also the part of a longer run seen so far. -/

/-- A script over commands `C` and answers `R` that returns an `α`. -/
inductive Script (C R : Type) : Type → Type 1 where
  | ret (a : α) : Script C R α
  | exit : Script C R α
  | call (c : C) (k : R → Script C R α) : Script C R α
  /-- `while true`: a pass of the body goes round again (`inl`) or leaves the loop (`inr`). -/
  | loop {σ β : Type} (body : σ → Script C R (σ ⊕ β)) (x : σ) (k : β → Script C R α) :
    Script C R α

namespace Script
variable {C R : Type}

/-- Sequencing. An early `exit` also skips what comes after. -/
def bind : Script C R α → (α → Script C R β) → Script C R β
  | .ret a, f => f a
  | .exit, _ => .exit
  | .call c k, f => .call c fun r => (k r).bind f
  | .loop body x k, f => .loop body x fun b => (k b).bind f

instance : Monad (Script C R) where
  pure := .ret
  bind := .bind

/-- Issue one command. -/
def issue (c : C) : Script C R R := .call c .ret

/-- What follows a pass of the loop body. -/
def again (body : σ → Script C R (σ ⊕ β)) (k : β → Script C R α) : σ ⊕ β → Script C R α
  | .inl x => .loop body x k
  | .inr b => k b

/-- Run `f` on the members of a list in order. -/
def each : List ι → (ι → Script C R PUnit) → Script C R PUnit
  | [], _ => .ret ⟨⟩
  | i :: is, f => (f i).bind fun _ => each is f

/-- Run `p` if the condition holds. -/
def when (b : Bool) (p : Script C R PUnit) : Script C R PUnit := if b then p else .ret ⟨⟩

@[simp] theorem pure_eq (a : α) : (pure a : Script C R α) = .ret a := rfl

@[simp] theorem bind_eq (p : Script C R α) (f : α → Script C R β) : p >>= f = p.bind f := rfl

@[simp] theorem ret_bind (a : α) (f : α → Script C R β) : (Script.ret a).bind f = f a := rfl

@[simp] theorem exit_bind (f : α → Script C R β) : Script.exit.bind f = .exit := rfl

@[simp] theorem call_bind (c : C) (k : R → Script C R α) (f : α → Script C R β) :
    (Script.call c k).bind f = .call c fun r => (k r).bind f := rfl

@[simp] theorem loop_bind (body : σ → Script C R (σ ⊕ γ)) (k : γ → Script C R α)
    (f : α → Script C R β) :
    (Script.loop body x k).bind f = .loop body x fun b => (k b).bind f := rfl

@[simp] theorem bind_ret (p : Script C R α) : p.bind .ret = p := by
  induction p with
  | ret | exit => rfl
  | call c k ih => simp only [call_bind, ih]
  | loop body x k _ ih => simp only [loop_bind, ih]

theorem bind_assoc (p : Script C R α) (f : α → Script C R β) (g : β → Script C R γ) :
    (p.bind f).bind g = p.bind fun a => (f a).bind g := by
  induction p with
  | ret | exit => rfl
  | call c k ih => simp only [call_bind, ih]
  | loop body x k _ ih => simp only [loop_bind, ih]

theorem foldlM_append (f : σ → ι → Script C R σ) (is js : List ι) (x : σ) :
    (is ++ js).foldlM f x = (is.foldlM f x).bind fun y => js.foldlM f y := by
  induction is generalizing x with
  | nil => rfl
  | cons i is ih =>
    rw [List.cons_append, List.foldlM_cons, List.foldlM_cons, bind_eq, bind_eq, bind_assoc]
    exact congrArg _ (funext ih)

theorem again_bind (body : σ → Script C R (σ ⊕ γ)) (k : γ → Script C R α)
    (f : α → Script C R β) (y : σ ⊕ γ) :
    (again body k y).bind f = again body (fun b => (k b).bind f) y := by
  cases y <;> rfl

/-! ## Runs -/

/-- One step: a command is issued and answered, or a loop is unrolled. -/
inductive Step : Script C R α → List (C × R) → Script C R α → Prop
  | call (r : R) : Step (.call c k) [(c, r)] (k r)
  | loop : Step (.loop body x k) [] ((body x).bind (again body k))

/-- `Run p t q`: `p` comes to `q`, the commands issued on the way and their answers being `t`. -/
inductive Run : Script C R α → List (C × R) → Script C R α → Prop
  | refl : Run p [] p
  | step : Step p t p' → Run p' t' q → Run p (t ++ t') q

/-- Nothing of the script is left to run. -/
def Ended : Script C R α → Prop
  | .ret _ | .exit => True
  | _ => False

instance : (p : Script C R α) → Decidable p.Ended
  | .ret _ | .exit => .isTrue trivial
  | .call .. | .loop .. => .isFalse id

section
variable {p q : Script C R α}

theorem Run.trans {q' : Script C R α} (h : Run p t q) (h' : Run q t' q') :
    Run p (t ++ t') q' := by
  induction h with
  | refl => exact h'
  | step hs _ ih => rw [List.append_assoc]; exact .step hs (ih h')

theorem Run.call {k : R → Script C R α} (r : R) (h : Run (k r) t q) :
    Run (.call c k) ((c, r) :: t) q :=
  .step (.call r) h

theorem Run.of_call {k : R → Script C R α} (h : Run (.call c k) ((c', r) :: t) q) :
    c = c' ∧ Run (k r) t q := by
  generalize hp : Script.call c k = p, ht : (c', r) :: t = u at h
  cases h with
  | refl => cases ht
  | step hs hr =>
    cases hs with
    | call =>
      cases hp
      cases ht
      exact ⟨rfl, hr⟩
    | loop => cases hp

theorem Run.loop {body : σ → Script C R (σ ⊕ β)} {k : β → Script C R α}
    (h : Run ((body x).bind (again body k)) t q) : Run (.loop body x k) t q :=
  .step .loop h

theorem Step.bind (h : Step p t q) (f : α → Script C R β) : Step (p.bind f) t (q.bind f) := by
  cases h with
  | call r => exact .call r
  | loop =>
    rw [bind_assoc, loop_bind]
    simp only [again_bind]
    exact .loop

theorem Run.bind (h : Run p t q) (f : α → Script C R β) : Run (p.bind f) t (q.bind f) := by
  induction h with
  | refl => exact .refl
  | step hs _ ih => exact .step (hs.bind f) ih

/-- A run of two scripts one after the other is in the first, or has come to the second. -/
theorem Run.of_bind {f : α → Script C R β} {q : Script C R β} (h : Run (p.bind f) t q) :
    (∃ p', q = p'.bind f ∧ Run p t p') ∨
      ∃ t₁ t₂ a, t = t₁ ++ t₂ ∧ Run p t₁ (.ret a) ∧ Run (f a) t₂ q := by
  generalize hp : p.bind f = pf at h
  induction h generalizing p with
  | refl => exact .inl ⟨p, hp.symm, .refl⟩
  | @step pf t pf' t' q hs hr ih =>
    have first : ∀ p', pf' = p'.bind f → Step p t p' →
        (∃ p', q = p'.bind f ∧ Run p (t ++ t') p') ∨
          ∃ t₁ t₂ a, t ++ t' = t₁ ++ t₂ ∧ Run p t₁ (.ret a) ∧ Run (f a) t₂ q := by
      intro p' hp' hs'
      rcases ih hp'.symm with ⟨p'', hq, hr'⟩ | ⟨t₁, t₂, a, ht, hr₁, hr₂⟩
      · exact .inl ⟨p'', hq, .step hs' hr'⟩
      · exact .inr ⟨t ++ t₁, t₂, a, by rw [ht, List.append_assoc], .step hs' hr₁, hr₂⟩
    cases p with
    | ret a =>
      subst hp
      exact .inr ⟨[], t ++ t', a, rfl, .refl, .step hs hr⟩
    | exit =>
      subst hp
      cases hs
    | call c k =>
      subst hp
      cases hs with
      | call r => exact first (k r) rfl (.call r)
    | loop body x k =>
      subst hp
      cases hs with
      | loop =>
        refine first ((body x).bind (again body k)) ?_ .loop
        rw [bind_assoc]
        simp only [again_bind]

theorem Run.bind_ret {f : α → Script C R β} {q' : Script C R β} (h : Run p t (.ret a))
    (h' : Run (f a) t' q') : Run (p.bind f) (t ++ t') q' :=
  (h.bind f).trans h'

end

end Script
