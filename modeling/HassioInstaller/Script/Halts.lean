import HassioInstaller.Script.Logic
import Mathlib.Tactic.ByContra
import Mathlib.Tactic.Choose

/-! # Runs that end

`Halts answers p` says that no run of `p` goes on for ever if each command is answered as `answers`
admits, and `Settles answers p` that the same holds wherever a run with any answers has got to. So a
run of a script that settles can only go on for ever if it is given, again and again, an answer that
is not admitted (`Settles.infinitely_often`). Only loops need an argument of their own: a number that
an admitted pass makes smaller (`Settles.loop`). -/

namespace Script
variable {C R : Type} {answers : C → R → Prop}

/-- One step of `p` to `q` with an answer that is admitted. -/
def StepsTo (answers : C → R → Prop) (q p : Script C R α) : Prop :=
  ∃ t, Step p t q ∧ Admissible answers t

/-- No run of `p` with admitted answers goes on for ever. -/
def Halts (answers : C → R → Prop) (p : Script C R α) : Prop := Acc (StepsTo answers) p

/-- Wherever a run of `p` has got to, it ends if the answers are admitted from there on. -/
def Settles (answers : C → R → Prop) (p : Script C R α) : Prop :=
  ∀ t q, Run p t q → Halts answers q

/-- A run of `p` that goes on for ever. -/
structure Forever (p : Script C R α) where
  point : Nat → Script C R α
  trace : Nat → List (C × R)
  start : point 0 = p
  step : ∀ n, Step (point n) (trace n) (point (n + 1))

section
variable {p q : Script C R α}

theorem Forever.run (F : Forever p) (n : Nat) : ∃ t, Run p t (F.point n) := by
  induction n with
  | zero =>
    rw [F.start]
    exact ⟨[], .refl⟩
  | succ n ih =>
    obtain ⟨t, ht⟩ := ih
    exact ⟨t ++ (F.trace n ++ []), ht.trans (.step (F.step n) .refl)⟩

theorem Halts.not_forever (h : Halts answers p) (F : Forever p) :
    ¬∀ n, Admissible answers (F.trace n) := by
  induction h with
  | intro p _ ih =>
    intro hF
    have hfirst : Step p (F.trace 0) (F.point 1) := by
      have hstep := F.step 0
      rwa [F.start] at hstep
    exact ih _ ⟨F.trace 0, hfirst, hF 0⟩
      ⟨fun n => F.point (n + 1), fun n => F.trace (n + 1), rfl, fun n => F.step (n + 1)⟩
      fun n => hF (n + 1)

/-- In a run that goes on for ever an answer that is not admitted is given again and again. -/
theorem Settles.infinitely_often (h : Settles answers p) (F : Forever p) (n : Nat) :
    ∃ m ≥ n, ¬Admissible answers (F.trace m) := by
  by_contra hnone
  obtain ⟨t, ht⟩ := F.run n
  refine (h t _ ht).not_forever ⟨fun m => F.point (n + m), fun m => F.trace (n + m), rfl,
    fun m => F.step (n + m)⟩ fun m => ?_
  by_contra hm
  exact hnone ⟨n + m, Nat.le_add_right n m, hm⟩

/-- A script can go on for ever if it always comes to a point of some kind. -/
theorem nonempty_forever (I : Script C R α → Prop)
    (next : ∀ q, I q → ∃ t q', Step q t q' ∧ I q') (h : I p) : Nonempty (Forever p) := by
  choose trace point hstep hpoint using next
  let points : Nat → { q // I q } := fun n =>
    n.rec ⟨p, h⟩ fun _ q => ⟨point q.1 q.2, hpoint q.1 q.2⟩
  exact ⟨⟨fun n => (points n).1, fun n => trace (points n).1 (points n).2, rfl,
    fun n => hstep (points n).1 (points n).2⟩⟩

/-- A script that can come to a point that it comes back to can go on for ever. -/
theorem nonempty_forever_of_cycle (hp : Run p t₀ q) (hne : t ≠ []) (h : Run q t q) :
    Nonempty (Forever p) := by
  refine nonempty_forever (fun p' => ∃ t, Run p' t q) ?_ ⟨t₀, hp⟩
  have first : ∀ {t p'}, t ≠ [] → Run p' t q → ∃ t p'', Step p' t p'' ∧ ∃ t, Run p'' t q := by
    intro t p' hne hr
    cases hr with
    | refl => exact absurd rfl hne
    | step hs hr => exact ⟨_, _, hs, _, hr⟩
  rintro p' ⟨t', ht'⟩
  cases ht' with
  | refl => exact first hne h
  | step hs hr => exact ⟨_, _, hs, _, hr⟩

/-! ## Scripts that halt -/

theorem halts_of_step (h : ∀ t q, Step p t q → Admissible answers t → Halts answers q) :
    Halts answers p :=
  Acc.intro p fun q ⟨t, hs, ht⟩ => h t q hs ht

theorem Halts.step (h : Halts answers p) (hs : Step p t q) (ht : Admissible answers t) :
    Halts answers q :=
  Acc.inv h ⟨t, hs, ht⟩

theorem halts_ret (a : α) : Halts answers (.ret a) := halts_of_step fun _ _ hs => by cases hs

theorem halts_exit : Halts answers (.exit : Script C R α) := halts_of_step fun _ _ hs => by cases hs

theorem halts_call {k : R → Script C R α} (h : ∀ r, answers c r → Halts answers (k r)) :
    Halts answers (.call c k) := by
  refine halts_of_step fun t q hs ht => ?_
  cases hs with
  | call r => exact h r (ht _ List.mem_cons_self)

/-- A step of two scripts one after the other is one of the first, or the first has returned. -/
theorem Step.of_bind {f : α → Script C R β} {q : Script C R β} (h : Step (p.bind f) t q) :
    (∃ a, p = .ret a ∧ Step (f a) t q) ∨ ∃ p', q = p'.bind f ∧ Step p t p' := by
  cases p with
  | ret a => exact .inl ⟨a, rfl, h⟩
  | exit => cases h
  | call c k =>
    cases h with
    | call r => exact .inr ⟨k r, rfl, .call r⟩
  | loop body x k =>
    cases h with
    | loop =>
      refine .inr ⟨(body x).bind (again body k), ?_, .loop⟩
      simp only [bind_assoc, again_bind]

theorem path_answering (h : Admissible answers t) :
    Path (Contract.answering answers).next () t () :=
  path_monitor_iff.mpr ⟨rfl, h⟩

theorem wp_call_answering {k : R → Script C R α} {Q : α → Unit → Prop}
    (h : ∀ r, answers c r → wp (.answering answers) (k r) Q ()) :
    wp (.answering answers) (.call c k) Q () :=
  wp_call_monitor.mpr ⟨trivial, h⟩

/-- What a script returns whatever it is answered, it returns when answered as is admitted. -/
theorem Within.answering {B : α → Prop} (h : Within E (fun _ => True) p B) :
    wp (.answering answers) p (fun a _ => B a) () :=
  h.anywhere (fun _ _ _ => trivial) fun _ _ => trivial

theorem Halts.bind {f : α → Script C R β} (h : Halts answers p)
    (hf : wp (.answering answers) p (fun a _ => Halts answers (f a)) ()) :
    Halts answers (p.bind f) := by
  induction h with
  | intro p _ ih =>
    refine halts_of_step fun t q hs ht => ?_
    obtain ⟨a, rfl, hs'⟩ | ⟨p', rfl, hs'⟩ := hs.of_bind
    · exact (wp_ret.mp hf).step hs' ht
    · exact ih p' ⟨t, hs', ht⟩ (hf.step hs' (path_answering ht))

/-- A loop halts if each pass does and makes a number smaller or leaves the loop. -/
theorem halts_loop {body : σ → Script C R (σ ⊕ β)} {k : β → Script C R α} (I : σ → Prop)
    (m : σ → Nat) (halts : ∀ x, I x → Halts answers (body x))
    (pass : ∀ x, I x → wp (.answering answers) (body x)
      (fun y _ => y.elim (fun x' => I x' ∧ m x' < m x) fun b => Halts answers (k b)) ())
    (h : I x) : Halts answers (.loop body x k) := by
  induction hm : m x using Nat.strongRecOn generalizing x with
  | _ n ih =>
    subst hm
    refine halts_of_step fun t q hs _ => ?_
    cases hs with
    | loop =>
      refine (halts x h).bind ((pass x h).mono fun y _ hy => ?_)
      cases y with
      | inl x' => exact ih (m x') hy.2 hy.1 rfl
      | inr b => exact hy

/-- Where every command is answered as is admitted, a script that halts comes to an end. -/
theorem Halts.exists_ended {next : S → C → R → S → Prop} (h : Halts answers p)
    (answered : ∀ s c, ∃ r s', answers c r ∧ next s c r s') (s : S) :
    ∃ t q s', Run p t q ∧ Path next s t s' ∧ q.Ended := by
  induction h generalizing s with
  | intro p _ ih =>
    cases p with
    | ret a => exact ⟨[], _, s, .refl, .nil, trivial⟩
    | exit => exact ⟨[], _, s, .refl, .nil, trivial⟩
    | call c k =>
      obtain ⟨r, s₁, hr, hn⟩ := answered s c
      obtain ⟨t, q, s', hrun, hpath, hend⟩ := ih (k r)
        ⟨[(c, r)], .call r, fun e he => by rwa [List.mem_singleton.mp he]⟩ s₁
      exact ⟨(c, r) :: t, q, s', .call r hrun, .cons hn hpath, hend⟩
    | loop body x k =>
      obtain ⟨t, q, s', hrun, hpath, hend⟩ := ih _ ⟨[], .loop, fun e he => by cases he⟩ s
      exact ⟨t, q, s', .loop hrun, hpath, hend⟩

/-! ## Scripts that settle -/

theorem Settles.halts (h : Settles answers p) : Halts answers p := h [] p .refl

theorem Settles.run (h : Settles answers p) (hr : Run p t q) : Settles answers q :=
  fun _ _ hr' => h _ _ (hr.trans hr')

theorem settles_ret (a : α) : Settles answers (.ret a) := by
  intro t q hr
  cases hr with
  | refl => exact halts_ret a
  | step hs => cases hs

theorem settles_exit : Settles answers (.exit : Script C R α) := by
  intro t q hr
  cases hr with
  | refl => exact halts_exit
  | step hs => cases hs

theorem settles_call {k : R → Script C R α} (h : ∀ r, Settles answers (k r)) :
    Settles answers (.call c k) := by
  intro t q hr
  cases hr with
  | refl => exact halts_call fun r _ => (h r).halts
  | step hs hr =>
    cases hs with
    | call r => exact h r _ _ hr

theorem Settles.bind {f : α → Script C R β} (h : Settles answers p)
    (hf : ∀ a, Settles answers (f a)) : Settles answers (p.bind f) := by
  intro t q hr
  obtain ⟨p', rfl, hr'⟩ | ⟨t₁, t₂, a, -, -, hr'⟩ := hr.of_bind
  · refine (h t p' hr').bind ?_
    intro t' q' s' _ _
    cases q' with
    | ret a => exact (hf a).halts
    | exit | call | loop => trivial
  · exact hf a t₂ q hr'

theorem settles_each {f : ι → Script C R PUnit} (h : ∀ i ∈ is, Settles answers (f i)) :
    Settles answers (each is f) := by
  induction is with
  | nil => exact settles_ret _
  | cons i is ih =>
    exact (h i List.mem_cons_self).bind fun _ => ih fun j hj => h j (List.mem_cons_of_mem _ hj)

theorem settles_foldlM {f : σ → ι → Script C R σ} (h : ∀ x i, Settles answers (f x i)) (is : List ι)
    (x : σ) : Settles answers (is.foldlM f x) := by
  induction is generalizing x with
  | nil => exact settles_ret x
  | cons i is ih =>
    rw [List.foldlM_cons]
    exact (h x i).bind ih

theorem settles_when {p : Script C R PUnit} (h : b = true → Settles answers p) :
    Settles answers (Script.when b p) := by
  cases b with
  | true => exact h rfl
  | false => exact settles_ret _

/-- A loop settles if its passes do, keep to `I` whatever they are answered, and make a number
smaller or leave the loop when answered as is admitted. -/
theorem settles_loop {body : σ → Script C R (σ ⊕ β)} {k : β → Script C R α} (I : σ → Prop)
    (m : σ → Nat) (settles : ∀ x, I x → Settles answers (body x))
    (keeps : ∀ x, I x → Only (fun _ => True) (body x) fun y => ∀ x', y = .inl x' → I x')
    (less : ∀ x, I x → wp (.answering answers) (body x)
      (fun y _ => ∀ x', y = .inl x' → m x' < m x) ())
    (hk : ∀ b, Settles answers (k b)) (h : I x) : Settles answers (.loop body x k) := by
  have returned : ∀ {x p' t y}, I x → Run (body x) t p' → (∃ t', Run p' t' (.ret y)) →
      ∀ x', y = .inl x' → I x' := by
    rintro x p' t y hx hr ⟨t', hr'⟩
    have hpath : ∀ t : List (C × R), Path (fun _ _ _ _ => True) () t () := by
      intro t
      induction t with
      | nil => exact .nil
      | cons e t ih => exact .cons trivial ih
    exact keeps x hx _ _ () (hr.trans hr') (hpath _)
  have loops : ∀ x, I x → Halts answers (.loop body x k) := by
    refine fun x hx => halts_loop I m (fun x hx => (settles x hx).halts) (fun x hx => ?_) hx
    intro t q s' hr hp
    have hless := less x hx t q s' hr hp
    cases q with
    | ret y =>
      cases y with
      | inl x' => exact ⟨returned hx .refl ⟨t, hr⟩ x' rfl, hless x' rfl⟩
      | inr b => exact (hk b).halts
    | exit | call | loop => trivial
  -- a run is at the start of a pass, within one, or after the last
  have points : ∀ {p t q}, Run p t q →
      ((∃ x, I x ∧ p = .loop body x k) ∨
        (∃ x t p', I x ∧ Run (body x) t p' ∧ p = p'.bind (again body k)) ∨ Settles answers p) →
      Halts answers q := by
    intro p t q hr hp
    induction hr with
    | refl =>
      rcases hp with ⟨x, hx, rfl⟩ | ⟨x, t, p', hx, hr, rfl⟩ | hp
      · exact loops x hx
      · refine (settles x hx t p' hr).bind ?_
        intro t' q' s' hr' _
        cases q' with
        | ret y =>
          cases y with
          | inl x' => exact loops x' (returned hx hr ⟨t', hr'⟩ x' rfl)
          | inr b => exact (hk b).halts
        | exit | call | loop => trivial
      · exact hp.halts
    | step hs hr ih =>
      rcases hp with ⟨x, hx, rfl⟩ | ⟨x, t, p', hx, hr', rfl⟩ | hp
      · cases hs with
        | loop => exact ih (.inr (.inl ⟨x, [], body x, hx, .refl, rfl⟩))
      · obtain ⟨y, rfl, hs'⟩ | ⟨p'', rfl, hs'⟩ := hs.of_bind
        · cases y with
          | inl x' =>
            cases hs' with
            | loop =>
              exact ih (.inr (.inl ⟨x', [], body x', returned hx hr' ⟨[], .refl⟩ x' rfl, .refl, rfl⟩))
          | inr b => exact ih (.inr (.inr ((hk b).run (.step hs' .refl))))
        · exact ih (.inr (.inl ⟨x, _, p'', hx, hr'.trans (.step hs' .refl), rfl⟩))
      · exact ih (.inr (.inr (hp.run (.step hs .refl))))
  intro t q hr
  exact points hr (.inl ⟨x, h, rfl⟩)

end

end Script
