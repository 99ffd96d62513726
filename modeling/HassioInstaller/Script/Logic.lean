import HassioInstaller.Script.Basic

/-! # A logic of command scripts

A `Contract` names a state that changes as commands are answered, what must hold of the state
whenever a command is issued (`guard`), and what must hold where the script exits early. The
state may be the world the commands act on, a summary of what has happened, or the history itself
(`Contract.history`). `wp K p Q s` says that every run of `p` from `s`, with answers the contract
admits, keeps the guard, and that a value it returns satisfies `Q`. -/

namespace Script
variable {C R S : Type}

structure Contract (S C R : Type) where
  /-- The states an answer to a command may lead to; an answer that leads nowhere is not given. -/
  next : S → C → R → S → Prop
  guard : S → C → Prop
  exit : S → Prop

/-- The states passed through when a trace is answered. -/
inductive Path (next : S → C → R → S → Prop) : S → List (C × R) → S → Prop
  | nil : Path next s [] s
  | cons : next s c r s' → Path next s' t s'' → Path next s ((c, r) :: t) s''

theorem Path.append {next : S → C → R → S → Prop} (h : Path next s t s')
    (h' : Path next s' t' s'') : Path next s (t ++ t') s'' := by
  induction h with
  | nil => exact h'
  | cons hn _ ih => exact .cons hn (ih h')

theorem Path.of_append {next : S → C → R → S → Prop} (h : Path next s (t ++ t') s'') :
    ∃ s', Path next s t s' ∧ Path next s' t' s'' := by
  induction t generalizing s with
  | nil => exact ⟨s, .nil, h⟩
  | cons e t ih =>
    cases h with
    | cons hn h =>
      obtain ⟨s', h1, h2⟩ := ih h
      exact ⟨s', .cons hn h1, h2⟩

/-- What the contract asks of the point a run has come to. -/
def Contract.At (K : Contract S C R) (Q : α → S → Prop) : Script C R α → S → Prop
  | .ret a, s => Q a s
  | .exit, s => K.exit s
  | .call c _, s => K.guard s c
  | .loop .., _ => True

/-- Every run of `p` from `s` meets the contract, and what it returns satisfies `Q`. -/
def wp (K : Contract S C R) (p : Script C R α) (Q : α → S → Prop) (s : S) : Prop :=
  ∀ t q s', Run p t q → Path K.next s t s' → K.At Q q s'

section
variable {K : Contract S C R} {Q Q' : α → S → Prop}

theorem wp.step {p p' : Script C R α} (h : wp K p Q s) (hs : Step p t p')
    (hp : Path K.next s t s') : wp K p' Q s' :=
  fun _ _ _ hr hp' => h _ _ _ (.step hs hr) (hp.append hp')

theorem wp.run {p p' : Script C R α} (h : wp K p Q s) (hr : Run p t p')
    (hp : Path K.next s t s') : wp K p' Q s' :=
  fun _ _ _ hr' hp' => h _ _ _ (hr.trans hr') (hp.append hp')

/-- A set of points that is closed under steps and meets the contract at each of its members. -/
theorem wp_of_invariant (I : Script C R α → S → Prop)
    (closed : ∀ {p t p' s s'}, I p s → Step p t p' → Path K.next s t s' → I p' s')
    (meets : ∀ {p s}, I p s → K.At Q p s) {p : Script C R α} (h : I p s) : wp K p Q s := by
  intro t q s' hr hp
  induction hr generalizing s with
  | refl => cases hp; exact meets h
  | step hs _ ih =>
    obtain ⟨s₁, h1, h2⟩ := hp.of_append
    exact ih (closed h hs h1) h2

@[simp] theorem wp_ret : wp K (.ret a) Q s ↔ Q a s := by
  constructor
  · exact fun h => h _ _ _ .refl .nil
  · intro h t q s' hr hp
    cases hr with
    | refl => cases hp; exact h
    | step hs => cases hs

@[simp] theorem wp_exit : wp K .exit Q s ↔ K.exit s := by
  constructor
  · exact fun h => h _ _ _ .refl .nil
  · intro h t q s' hr hp
    cases hr with
    | refl => cases hp; exact h
    | step hs => cases hs

theorem wp_call {k : R → Script C R α} :
    wp K (.call c k) Q s ↔ K.guard s c ∧ ∀ r s', K.next s c r s' → wp K (k r) Q s' := by
  constructor
  · intro h
    exact ⟨h _ _ _ .refl .nil, fun r s' hn => h.step (.call r) (.cons hn .nil)⟩
  · rintro ⟨hg, h⟩ t q s' hr hp
    cases hr with
    | refl => cases hp; exact hg
    | step hs hr =>
      cases hs with
      | call r => cases hp with | cons hn hp => exact h r _ hn _ _ _ hr hp

theorem wp.mono {p : Script C R α} (h : wp K p Q s) (hQ : ∀ a s, Q a s → Q' a s) :
    wp K p Q' s := by
  intro t q s' hr hp
  have := h t q s' hr hp
  cases q with
  | ret a => exact hQ a s' this
  | exit | call | loop => exact this

theorem wp_bind {p : Script C R α} {f : α → Script C R β} {Q : β → S → Prop} :
    wp K (p.bind f) Q s ↔ wp K p (fun a s => wp K (f a) Q s) s := by
  constructor
  · intro h t q s' hr hp
    have hq := h.run (hr.bind f) hp
    cases q with
    | ret a => exact hq
    | exit => exact wp_exit.mp hq
    | call c k => exact (wp_call.mp hq).1
    | loop => trivial
  · intro h
    refine wp_of_invariant
      (fun q s => (∃ p', q = p'.bind f ∧ wp K p' (fun a => wp K (f a) Q) s) ∨ wp K q Q s)
      ?_ ?_ (.inl ⟨p, rfl, h⟩)
    · rintro _ t q' s s' (⟨p', rfl, h⟩ | h) hs hp
      · cases p' with
        | ret a => exact .inr ((wp_ret.mp h).step hs hp)
        | exit => cases hs
        | call c k => cases hs with | call r => exact .inl ⟨k r, rfl, h.step (.call r) hp⟩
        | loop body x k =>
          cases hs with
          | loop =>
            refine .inl ⟨(body x).bind (again body k), ?_, h.step .loop hp⟩
            simp only [bind_assoc, again_bind]
      · exact .inr (h.step hs hp)
    · rintro _ s (⟨p', rfl, h⟩ | h)
      · cases p' with
        | ret a => exact wp_ret.mp h _ _ _ .refl .nil
        | exit => exact wp_exit.mp h
        | call c k => exact (wp_call.mp h).1
        | loop => trivial
      · exact h _ _ _ .refl .nil

/-- The invariant `I` is kept by a pass of the body that goes round again. -/
theorem wp_loop {body : σ → Script C R (σ ⊕ β)} {k : β → Script C R α} (I : σ → S → Prop)
    (pass : ∀ x s, I x s → wp K (body x) (fun y s => y.elim (I · s) fun b => wp K (k b) Q s) s)
    (h : I x s) : wp K (.loop body x k) Q s := by
  refine wp_of_invariant
    (fun q s => (∃ x, q = .loop body x k ∧ I x s) ∨
      (∃ p, q = p.bind (again body k) ∧
        wp K p (fun y s => y.elim (I · s) fun b => wp K (k b) Q s) s) ∨ wp K q Q s)
    ?_ ?_ (.inl ⟨x, rfl, h⟩)
  · rintro _ t q' s s' (⟨x, rfl, h⟩ | ⟨p, rfl, h⟩ | h) hs hp
    · cases hs
      cases hp
      exact .inr (.inl ⟨body x, rfl, pass x _ h⟩)
    · cases p with
      | ret y =>
        have hy := wp_ret.mp h
        cases y with
        | inl x =>
          cases hs
          cases hp
          exact .inr (.inl ⟨body x, rfl, pass x _ hy⟩)
        | inr b => exact .inr (.inr (hy.step hs hp))
      | exit => cases hs
      | call c k' => cases hs with | call r => exact .inr (.inl ⟨k' r, rfl, h.step (.call r) hp⟩)
      | loop body' x k' =>
        cases hs
        refine .inr (.inl ⟨(body' x).bind (again body' k'), ?_, h.step .loop hp⟩)
        simp only [bind_assoc, again_bind]
    · exact .inr (.inr (h.step hs hp))
  · rintro _ s (⟨x, rfl, h⟩ | ⟨p, rfl, h⟩ | h)
    · trivial
    · cases p with
      | ret y =>
        have hy := wp_ret.mp h
        cases y with
        | inl x => trivial
        | inr b => exact hy _ _ _ .refl .nil
      | exit => exact wp_exit.mp h
      | call c k' => exact (wp_call.mp h).1
      | loop => trivial
    · exact h _ _ _ .refl .nil

end

/-- The invariant `I` is kept by the step of a fold. -/
theorem wp_foldlM {K : Contract S C R} {f : σ → ι → Script C R σ} {is : List ι} (I : σ → S → Prop)
    (step : ∀ x, ∀ i ∈ is, ∀ s, I x s → wp K (f x i) I s) {x : σ} (h : I x s) :
    wp K (is.foldlM f x) I s := by
  induction is generalizing x s with
  | nil => exact wp_ret.mpr h
  | cons i is ih =>
    rw [List.foldlM_cons, bind_eq, wp_bind]
    refine (step x i List.mem_cons_self s h).mono fun y s hy => ?_
    exact ih (fun x j hj => step x j (List.mem_cons_of_mem i hj)) hy

/-! ## Reading a trace back from a contract -/

/-- A run through an answered command passes the point at which that command is issued. -/
theorem Run.split {p q : Script C R α} (h : Run p (pre ++ (c, r) :: post) q) :
    ∃ k, Run p pre (.call c k) ∧ Run (k r) post q := by
  generalize ht : pre ++ (c, r) :: post = t at h
  induction h generalizing pre with
  | refl => simp at ht
  | step hs hr ih =>
    cases hs with
    | call r' =>
      cases pre with
      | nil =>
        cases ht
        exact ⟨_, .refl, hr⟩
      | cons e pre =>
        cases ht
        obtain ⟨k, h1, h2⟩ := ih rfl
        exact ⟨k, .call _ h1, h2⟩
    | loop =>
      obtain ⟨k, h1, h2⟩ := ih ht
      exact ⟨k, .loop h1, h2⟩

/-- The guard held of the state in which a command of the trace was issued. -/
theorem wp.guard {K : Contract S C R} {Q : α → S → Prop} {p q : Script C R α} (h : wp K p Q s)
    (hr : Run p (pre ++ (c, r) :: post) q) (hp : Path K.next s pre s') : K.guard s' c := by
  obtain ⟨k, hk, _⟩ := hr.split
  exact (wp_call.mp (h.run hk hp)).1

/-- The contract whose state is computed from the commands and the answers to them. `answers`
restricts what a command may answer. -/
def Contract.monitor (answers : C → R → Prop) (step : S → C → R → S) (guard : S → C → Prop)
    (exit : S → Prop) : Contract S C R where
  next s c r s' := answers c r ∧ s' = step s c r
  guard := guard
  exit := exit

/-- Every answer of the trace is one its command may give. -/
def Admissible (answers : C → R → Prop) (t : List (C × R)) : Prop :=
  ∀ e ∈ t, answers e.1 e.2

section
variable {answers : C → R → Prop} {step : S → C → R → S} {guard : S → C → Prop} {exit : S → Prop}

theorem path_monitor_iff : Path (Contract.monitor answers step guard exit).next s t s' ↔
    s' = t.foldl (fun s e => step s e.1 e.2) s ∧ Admissible answers t := by
  induction t generalizing s with
  | nil =>
    constructor
    · rintro ⟨⟩
      exact ⟨rfl, fun _ he => nomatch he⟩
    · rintro ⟨rfl, -⟩
      exact .nil
  | cons e t ih =>
    constructor
    · intro hp
      cases hp with
      | cons hn hp =>
        obtain ⟨ha, rfl⟩ := hn
        obtain ⟨rfl, ht⟩ := ih.mp hp
        exact ⟨rfl, List.forall_mem_cons.mpr ⟨ha, ht⟩⟩
    · rintro ⟨rfl, ht⟩
      obtain ⟨ha, ht⟩ := List.forall_mem_cons.mp ht
      exact .cons ⟨ha, rfl⟩ (ih.mpr ⟨rfl, ht⟩)

theorem wp_call_monitor {Q : α → S → Prop} {k : R → Script C R α} :
    wp (.monitor answers step guard exit) (.call c k) Q s ↔
      guard s c ∧
        ∀ r, answers c r → wp (.monitor answers step guard exit) (k r) Q (step s c r) := by
  rw [wp_call]
  refine and_congr_right fun _ => forall_congr' fun r => ?_
  exact ⟨fun h ha => h _ ⟨ha, rfl⟩, fun h _ hn => hn.2 ▸ h hn.1⟩

end

/-- The contract that only restricts what a command may answer. -/
abbrev Contract.answering (answers : C → R → Prop) : Contract Unit C R :=
  .monitor answers (fun _ _ _ => ()) (fun _ _ => True) fun _ => True

/-- What holds of the values of a script holds of every run with admissible answers. -/
theorem wp.returned {answers : C → R → Prop} {p : Script C R α} {Q : α → Prop}
    (h : wp (.answering answers) p (fun a _ => Q a) ()) (hr : Run p t (.ret a))
    (ht : Admissible answers t) : Q a :=
  h t (.ret a) () hr (path_monitor_iff.mpr ⟨rfl, ht⟩)

/-- The contract whose state is the history of the commands that are kept, first to last. -/
abbrev Contract.record (keep : C → Bool) (answers : C → R → Prop)
    (guard : List (C × R) → C → Prop) (exit : List (C × R) → Prop) :
    Contract (List (C × R)) C R :=
  .monitor answers (fun h c r => if keep c then h ++ [(c, r)] else h) guard exit

section
variable {keep : C → Bool} {answers : C → R → Prop} {guard : List (C × R) → C → Prop}
  {exit : List (C × R) → Prop}

theorem wp_record_skip {Q : α → List (C × R) → Prop} {k : R → Script C R α}
    (hc : keep c = false) : wp (.record keep answers guard exit) (.call c k) Q h ↔
      guard h c ∧ ∀ r, answers c r → wp (.record keep answers guard exit) (k r) Q h := by
  rw [wp_call_monitor]
  simp only [hc, Bool.false_eq_true, if_false]

theorem wp_record_keep {Q : α → List (C × R) → Prop} {k : R → Script C R α}
    (hc : keep c = true) : wp (.record keep answers guard exit) (.call c k) Q h ↔
      guard h c ∧
        ∀ r, answers c r → wp (.record keep answers guard exit) (k r) Q (h ++ [(c, r)]) := by
  rw [wp_call_monitor]
  simp only [hc, if_true]

theorem path_record_iff :
    Path (Contract.record keep answers guard exit).next h t h' ↔
      h' = h ++ t.filter (keep ·.1) ∧ Admissible answers t := by
  have hfold : ∀ h : List (C × R),
      t.foldl (fun h e => if keep e.1 then h ++ [(e.1, e.2)] else h) h =
        h ++ t.filter (keep ·.1) := by
    induction t with
    | nil => simp
    | cons e t ih =>
      intro h
      rw [List.foldl_cons, ih]
      cases hk : keep e.1 <;> simp [hk]
  rw [path_monitor_iff, hfold]

end

/-- A contract with the list of the commands that are kept beside its state, first to last. -/
def Contract.recording (K : Contract S C R) (keep : C → Bool) : Contract (S × List C) C R where
  next s c r s' := K.next s.1 c r s'.1 ∧ s'.2 = if keep c then s.2 ++ [c] else s.2
  guard s c := K.guard s.1 c
  exit s := K.exit s.1

theorem path_recording_iff {K : Contract S C R} {keep : C → Bool} {s s' : S × List C} :
    Path (K.recording keep).next s t s' ↔
      Path K.next s.1 t s'.1 ∧ s'.2 = s.2 ++ (t.map Prod.fst).filter keep := by
  induction t generalizing s with
  | nil =>
    constructor
    · intro h
      cases h
      exact ⟨.nil, (List.append_nil _).symm⟩
    · intro h
      obtain ⟨hp, hrec⟩ := h
      obtain ⟨s₁, rec₁⟩ := s
      obtain ⟨s₂, rec₂⟩ := s'
      cases hp
      have hrec : rec₂ = rec₁ := by simpa using hrec
      exact hrec ▸ .nil
  | cons e t ih =>
    obtain ⟨c, r⟩ := e
    have hstep : ∀ rec : List C, (if keep c then rec ++ [c] else rec) ++
        (t.map Prod.fst).filter keep = rec ++ (((c, r) :: t).map Prod.fst).filter keep := by
      intro rec
      cases hk : keep c <;> simp [hk]
    constructor
    · intro h
      cases h with
      | cons hn hp =>
        obtain ⟨hp, hrec⟩ := ih.mp hp
        rw [hn.2, hstep] at hrec
        exact ⟨.cons hn.1 hp, hrec⟩
    · intro h
      obtain ⟨hp, hrec⟩ := h
      cases hp with
      | cons hn hp =>
        have hnext : (K.recording keep).next s c r (_, if keep c then s.2 ++ [c] else s.2) :=
          ⟨hn, rfl⟩
        refine .cons hnext (ih.mpr ⟨hp, ?_⟩)
        rw [hrec, hstep]

/-- What is shown with a record kept holds without it. -/
theorem wp_of_recording {K : Contract S C R} {keep : C → Bool} {p : Script C R α}
    {Q : α → S → Prop} (h : wp (K.recording keep) p (fun a s => Q a s.1) (s, [])) :
    wp K p Q s := by
  intro t q s' hr hp
  have hq := h t q (s', _) hr (path_recording_iff.mpr ⟨hp, rfl⟩)
  cases q with
  | ret | exit | call | loop => exact hq

/-- The contract whose state is the whole history. -/
abbrev Contract.history (answers : C → R → Prop) (guard : List (C × R) → C → Prop)
    (exit : List (C × R) → Prop) : Contract (List (C × R)) C R :=
  .monitor answers (fun h c r => h ++ [(c, r)]) guard exit

theorem path_history_iff {answers : C → R → Prop} {guard : List (C × R) → C → Prop}
    {exit : List (C × R) → Prop} :
    Path (Contract.history answers guard exit).next h t h' ↔
      h' = h ++ t ∧ Admissible answers t := by
  have hfold : ∀ h : List (C × R), t.foldl (fun h e => h ++ [(e.1, e.2)]) h = h ++ t := by
    induction t with
    | nil => simp
    | cons e t ih => intro h; rw [List.foldl_cons, ih]; simp
  rw [path_monitor_iff, hfold]

/-- `P` held of the part of the trace before each of its entries. -/
def Throughout (P : List ε → ε → Prop) (t : List ε) : Prop :=
  ∀ pre e post, t = pre ++ e :: post → P pre e

theorem throughout_nil {P : List ε → ε → Prop} : Throughout P [] :=
  fun pre _ _ h => by cases pre <;> cases h

theorem Throughout.left {P : List ε → ε → Prop} (h : Throughout P (t ++ t')) : Throughout P t :=
  fun pre e post ht => h pre e (post ++ t') (by simp [ht])

theorem throughout_concat {P : List ε → ε → Prop} :
    Throughout P (t ++ [e]) ↔ Throughout P t ∧ P t e := by
  constructor
  · intro h
    exact ⟨fun pre e' post ht => h pre e' (post ++ [e]) (by simp [ht]), h t e [] rfl⟩
  · rintro ⟨ht, he⟩ pre e' post h
    rcases List.eq_nil_or_concat post with rfl | ⟨post', x, rfl⟩
    · obtain ⟨rfl, he'⟩ := List.append_inj' h rfl
      cases he'
      exact he
    · rw [List.concat_eq_append, ← List.cons_append, ← List.append_assoc] at h
      exact ht pre e' post' (List.append_inj' h rfl).1

theorem throughout_append {P : List ε → ε → Prop} (h : Throughout P t)
    (h' : Throughout (fun pre => P (t ++ pre)) t') : Throughout P (t ++ t') := by
  intro pre e post heq
  rcases List.append_eq_append_iff.mp heq with ⟨rest, rfl, ht'⟩ | ⟨rest, rfl, ht'⟩
  · exact h' rest e post ht'
  · cases rest with
    | nil => simpa using h' [] e post ht'.symm
    | cons e' rest =>
      obtain ⟨rfl, rfl⟩ := List.cons.inj ht'
      exact h pre e rest rfl

/-! ## Scripts that keep to a class of commands -/

/-- `p` issues only commands of `A` and returns only values of `B`; it ends early only if `E`. -/
def Within (E : Prop) (A : C → Prop) (p : Script C R α) (B : α → Prop) : Prop :=
  wp (S := Unit) ⟨fun _ _ _ _ => True, fun _ => A, fun _ => E⟩ p (fun a _ => B a) ()

/-- `p` issues only commands of `A` and returns only values of `B`, and it may end early. -/
abbrev Only (A : C → Prop) (p : Script C R α) (B : α → Prop) : Prop := Within True A p B

section
variable {E : Prop} {A : C → Prop} {B : α → Prop}

@[simp] theorem within_ret : Within (R := R) E A (.ret a) B ↔ B a := wp_ret

@[simp] theorem within_exit : Within (R := R) E A .exit B ↔ E := wp_exit

theorem only_exit : Only (R := R) A .exit B := wp_exit.mpr trivial

@[simp] theorem within_call {k : R → Script C R α} :
    Within E A (.call c k) B ↔ A c ∧ ∀ r, Within E A (k r) B := by
  unfold Within
  rw [wp_call]
  exact and_congr_right fun _ => ⟨fun h r => h r () trivial, fun h r _ _ => h r⟩

@[simp] theorem within_bind {p : Script C R α} {f : α → Script C R β} {B : β → Prop} :
    Within E A (p.bind f) B ↔ Within E A p fun a => Within E A (f a) B := wp_bind

theorem Within.mono {p : Script C R α} (h : Within E A p B) (hB : ∀ a, B a → B' a) :
    Within E A p B' :=
  wp.mono h fun a _ => hB a

theorem Within.weaken {A' : C → Prop} {p : Script C R α} (h : Within E A p B)
    (hA : ∀ c, A c → A' c) : Within E A' p B := by
  intro t q s' hr hp
  have := h t q s' hr hp
  cases q with
  | ret | exit | loop => exact this
  | call c => exact hA c this

theorem only_true (p : Script C R α) : Only (fun _ => True) p fun _ => True :=
  fun _ q _ _ _ => by cases q <;> trivial

/-- A loop keeps to `A` if each pass of it does. -/
theorem within_loop {body : σ → Script C R (σ ⊕ β)} {k : β → Script C R α}
    (pass : ∀ x, Within E A (body x) fun y => ∀ b, y = .inr b → Within E A (k b) B) :
    Within E A (.loop body x k) B := by
  refine wp_loop (fun _ _ => True) (fun x _ _ => wp.mono (pass x) fun y _ hy => ?_) trivial
  cases y with
  | inl => trivial
  | inr b => exact hy b rfl

theorem within_each {f : ι → Script C R PUnit} (h : ∀ i ∈ is, Within E A (f i) fun _ => True)
    {B : PUnit → Prop} (hB : B ⟨⟩) : Within E A (each is f) B := by
  induction is with
  | nil => exact within_ret.mpr hB
  | cons i is ih =>
    rw [each, within_bind]
    exact (h i List.mem_cons_self).mono fun _ _ => ih fun j hj => h j (List.mem_cons_of_mem _ hj)

/-- Frame rule: what the commands of `A` cannot change is kept by a script that keeps to them. -/
theorem Within.frame {p : Script C R α} (h : Within E A p B) {K : Contract S C R} (I : S → Prop)
    (guard : ∀ {s c}, I s → A c → K.guard s c)
    (next : ∀ {s c r s'}, I s → A c → K.next s c r s' → I s') (exit : ∀ {s}, E → I s → K.exit s)
    (hs : I s) : wp K p (fun a s => B a ∧ I s) s := by
  refine wp_of_invariant (fun q s => Within E A q B ∧ I s) ?_ ?_ ⟨h, hs⟩
  · rintro _ t q' s s' ⟨hq, hI⟩ hstep hp
    cases hstep with
    | call r =>
      obtain ⟨hc, hk⟩ := within_call.mp hq
      cases hp with
      | cons hn hp =>
        cases hp
        exact ⟨hk r, next hI hc hn⟩
    | loop =>
      cases hp
      exact ⟨wp.step hq .loop .nil, hI⟩
  · rintro q s ⟨hq, hI⟩
    cases q with
    | ret a => exact ⟨within_ret.mp hq, hI⟩
    | exit => exact exit (within_exit.mp hq) hI
    | call c k => exact guard hI (within_call.mp hq).1
    | loop => trivial

/-- A script may run in every state whose commands may be issued in every state. -/
theorem Within.anywhere {p : Script C R α} (h : Within E A p B) {K : Contract S C R}
    (guard : ∀ s c, A c → K.guard s c) (exit : ∀ s, E → K.exit s) :
    wp K p (fun a _ => B a) s := by
  have hframe := h.frame (K := K) (fun _ => True) (fun _ hc => guard _ _ hc) (fun _ _ _ => trivial)
    (fun he _ => exit _ he) (s := s) trivial
  exact hframe.mono fun _ _ ha => ha.1

/-- A script none of whose commands is recorded leaves the record as it is. -/
theorem Within.skip {keep : C → Bool} {answers : C → R → Prop} {guard : List (C × R) → C → Prop}
    {exit : List (C × R) → Prop} {p : Script C R α} (h : Within E A p B)
    (hA : ∀ c, A c → keep c = false ∧ guard hist c) (hexit : exit hist) :
    wp (.record keep answers guard exit) p (fun a h => B a ∧ h = hist) hist := by
  refine h.frame (· = hist) ?_ ?_ (fun _ hs => hs ▸ hexit) rfl
  · rintro _ c rfl hc
    exact (hA c hc).2
  · rintro _ c r _ rfl hc ⟨-, rfl⟩
    simp only [(hA c hc).1, Bool.false_eq_true, if_false]

end

/-! ## What a script can come to -/

/-- After the trace `t` the script may be about to issue `c`. -/
def Issues (p : Script C R α) (t : List (C × R)) (c : C) : Prop := ∃ k, Run p t (.call c k)

/-- Without a state every trace is one that is admitted. -/
theorem path_anywhere (t : List (C × R)) : Path (fun _ _ _ _ => True) () t () := by
  induction t with
  | nil => exact .nil
  | cons e t ih => exact .cons trivial ih

theorem Within.issues {p : Script C R α} (h : Within E A p B) (hc : Issues p t c) : A c :=
  let ⟨k, hr⟩ := hc
  h t (.call c k) () hr (path_anywhere t)

theorem Within.returns {p : Script C R α} (h : Within E A p B) (hr : Run p t (.ret a)) : B a :=
  h t (.ret a) () hr (path_anywhere t)

theorem only_iff_issues {p : Script C R α} :
    Only A p (fun _ => True) ↔ ∀ t c, Issues p t c → A c := by
  refine ⟨fun h _ _ => h.issues, fun h t q s hr _ => ?_⟩
  cases q with
  | call c k => exact h t c ⟨k, hr⟩
  | ret | exit | loop => trivial

theorem Issues.of_run {p q : Script C R α} (hr : Run p t q) (h : Issues q t' c) :
    Issues p (t ++ t') c :=
  let ⟨k, hk⟩ := h
  ⟨k, hr.trans hk⟩

/-- A command of two scripts in sequence is one of the first, or one of the second after it. -/
theorem Run.call_of_bind {p : Script C R α} {f : α → Script C R β} {k : R → Script C R β}
    (hr : Run (p.bind f) t (.call c k)) :
    Issues p t c ∨ ∃ t₁ t₂ a, t = t₁ ++ t₂ ∧ Run p t₁ (.ret a) ∧ Run (f a) t₂ (.call c k) := by
  rcases hr.of_bind with ⟨p', heq, hr'⟩ | h
  · cases p' with
    | ret a => exact .inr ⟨t, [], a, (List.append_nil t).symm, hr', by rw [heq]; exact .refl⟩
    | call c' k' =>
      obtain ⟨rfl, -⟩ := Script.call.inj heq
      exact .inl ⟨k', hr'⟩
    | exit | loop => cases heq
  · exact .inr h

/-- Where the first of two scripts never issues `c`, a run that has come to `c` is in the second. -/
theorem Run.past {p : Script C R α} {f : α → Script C R β} {k : R → Script C R β}
    (hp : Only (· ≠ c) p fun _ => True) (hr : Run (p.bind f) t (.call c k)) :
    ∃ t₁ t₂ a, t = t₁ ++ t₂ ∧ Run p t₁ (.ret a) ∧ Run (f a) t₂ (.call c k) :=
  hr.call_of_bind.resolve_left fun h => only_iff_issues.mp hp t c h rfl

/-- A run of a script that keeps to `A` has only commands of `A` in its trace. -/
theorem Run.keeps {p : Script C R α} (hp : Only A p fun _ => True) (hr : Run p t q) :
    ∀ e ∈ t, A e.1 := by
  intro e he
  obtain ⟨pre, post, rfl⟩ := List.append_of_mem he
  obtain ⟨k, hk, -⟩ := Run.split (c := e.1) (r := e.2) hr
  exact only_iff_issues.mp hp pre e.1 ⟨k, hk⟩

theorem Run.past_only {p : Script C R α} {f : α → Script C R β} {k : R → Script C R β}
    (hp : Only A p fun _ => True) (hc : ¬ A c) (hr : Run (p.bind f) t (.call c k)) :
    ∃ t₁ t₂ a, t = t₁ ++ t₂ ∧ (∀ e ∈ t₁, A e.1) ∧ Run p t₁ (.ret a) ∧ Run (f a) t₂ (.call c k) := by
  have hne : Only (· ≠ c) p fun _ => True := hp.weaken fun _ hA he => hc (he ▸ hA)
  obtain ⟨t₁, t₂, a, ht, h₁, h₂⟩ := hr.past hne
  exact ⟨t₁, t₂, a, ht, h₁.keeps hp, h₁, h₂⟩

section
variable {answers : C → R → Prop}

/-- Some run of the script with admissible answers returns a value of `B`. -/
def Can (answers : C → R → Prop) (p : Script C R α) (B : α → Prop) : Prop :=
  ∃ t a, Run p t (.ret a) ∧ Admissible answers t ∧ B a

/-- Some run of the script with admissible answers comes to the command. -/
def Reaches (answers : C → R → Prop) (p : Script C R α) (c : C) : Prop :=
  ∃ t, Issues p t c ∧ Admissible answers t

theorem admissible_nil : Admissible answers [] := fun _ he => nomatch he

theorem Admissible.append {t t' : List (C × R)} (h : Admissible answers t)
    (h' : Admissible answers t') : Admissible answers (t ++ t') :=
  List.forall_mem_append.mpr ⟨h, h'⟩

theorem can_ret {B : α → Prop} (h : B a) : Can answers (.ret a) B :=
  ⟨[], a, .refl, admissible_nil, h⟩

theorem can_call {k : R → Script C R α} {B : α → Prop} (r : R) (hr : answers c r)
    (h : Can answers (k r) B) : Can answers (.call c k) B :=
  let ⟨t, a, hrun, ht, ha⟩ := h
  ⟨(c, r) :: t, a, .call r hrun, List.forall_mem_cons.mpr ⟨hr, ht⟩, ha⟩

theorem can_bind {p : Script C R α} {f : α → Script C R β} {B : β → Prop}
    (h : Can answers p fun a => Can answers (f a) B) : Can answers (p.bind f) B :=
  let ⟨t, _, hr, ht, t', b, hr', ht', hb⟩ := h
  ⟨t ++ t', b, hr.bind_ret hr', ht.append ht', hb⟩

theorem can_loop {body : σ → Script C R (σ ⊕ β)} {k : β → Script C R α} {B : α → Prop}
    (h : Can answers ((body x).bind (again body k)) B) : Can answers (.loop body x k) B :=
  let ⟨t, a, hr, ht, ha⟩ := h
  ⟨t, a, .loop hr, ht, ha⟩

theorem Can.mono {p : Script C R α} {B B' : α → Prop} (h : Can answers p B)
    (hB : ∀ a, B a → B' a) : Can answers p B' :=
  let ⟨t, a, hr, ht, ha⟩ := h
  ⟨t, a, hr, ht, hB a ha⟩

theorem can_each {f : ι → Script C R PUnit} (h : ∀ i ∈ is, Can answers (f i) fun _ => True) :
    Can answers (each is f) fun _ => True := by
  induction is with
  | nil => exact can_ret trivial
  | cons i is ih =>
    have hrest := ih fun j hj => h j (List.mem_cons_of_mem i hj)
    exact can_bind ((h i List.mem_cons_self).mono fun _ _ => hrest)

theorem reaches_self {k : R → Script C R α} : Reaches answers (.call c k) c :=
  ⟨[], ⟨k, .refl⟩, admissible_nil⟩

theorem reaches_call {k : R → Script C R α} (r : R) (hr : answers c r)
    (h : Reaches answers (k r) c') : Reaches answers (.call c k) c' :=
  let ⟨t, ⟨k', hrun⟩, ht⟩ := h
  ⟨(c, r) :: t, ⟨k', .call r hrun⟩, List.forall_mem_cons.mpr ⟨hr, ht⟩⟩

theorem reaches_bind {p : Script C R α} (h : Reaches answers p c) (f : α → Script C R β) :
    Reaches answers (p.bind f) c :=
  let ⟨t, ⟨_, hr⟩, ht⟩ := h
  ⟨t, ⟨_, hr.bind f⟩, ht⟩

theorem reaches_after {p : Script C R α} {f : α → Script C R β}
    (h : Can answers p fun a => Reaches answers (f a) c) : Reaches answers (p.bind f) c :=
  let ⟨t, _, hr, ht, t', ⟨k, hr'⟩, ht'⟩ := h
  ⟨t ++ t', ⟨k, hr.bind_ret hr'⟩, ht.append ht'⟩

theorem reaches_loop {body : σ → Script C R (σ ⊕ β)} {k : β → Script C R α}
    (h : Reaches answers (body x) c) : Reaches answers (.loop body x k) c :=
  let ⟨t, ⟨_, hr⟩, ht⟩ := h
  ⟨t, ⟨_, .loop (hr.bind (again body k))⟩, ht⟩

end

/-! ## Signals -/

/-- The runs of a script in which a signal may come wherever it has not ended. The handler `h` goes
first, and the script is resumed when it returns. -/
inductive Signalled (h : Script C R PUnit) : Script C R α → List (C × R) → Script C R α → Prop
  | refl : Signalled h p [] p
  | step : Step p t p' → Signalled h p' t' q → Signalled h p (t ++ t') q
  | signal : ¬ p.Ended → Signalled h (h.bind fun _ => p) t q → Signalled h p t q

section
variable {h : Script C R PUnit} {p q : Script C R α}

theorem Signalled.of_run (hr : Run p t q) : Signalled h p t q := by
  induction hr with
  | refl => exact .refl
  | step hs _ ih => exact .step hs ih

/-- A run through an answered command passes the point at which that command is issued. -/
theorem Signalled.split (hs : Signalled h p (pre ++ (c, r) :: post) q) :
    ∃ k, Signalled h p pre (.call c k) := by
  generalize ht : pre ++ (c, r) :: post = t at hs
  induction hs generalizing pre with
  | refl => simp at ht
  | step hstep _ ih =>
    cases hstep with
    | call r' =>
      cases pre with
      | nil =>
        cases ht
        exact ⟨_, .refl⟩
      | cons e pre =>
        cases ht
        obtain ⟨k, hk⟩ := ih rfl
        exact ⟨k, .step (.call _) hk⟩
    | loop =>
      obtain ⟨k, hk⟩ := ih ht
      exact ⟨k, .step .loop hk⟩
  | signal hend _ ih =>
    obtain ⟨k, hk⟩ := ih ht
    exact ⟨k, .signal hend hk⟩

/-- A contract that does not notice the handler is met whatever signals come. -/
theorem wp.signalled {K : Contract S C R} {Q : α → S → Prop} (hs : Signalled h p t q)
    (handler : ∀ s, wp K h (fun _ s' => ∀ p : Script C R α, wp K p Q s → wp K p Q s') s)
    (hwp : wp K p Q s) (hp : Path K.next s t s') : wp K q Q s' := by
  induction hs generalizing s with
  | refl =>
    cases hp
    exact hwp
  | step hstep _ ih =>
    obtain ⟨s₁, h₁, h₂⟩ := hp.of_append
    exact ih (hwp.step hstep h₁) h₂
  | @signal p _ _ _ _ ih =>
    have hresumed : wp K (h.bind fun _ => p) Q s :=
      wp_bind.mpr ((handler s).mono fun _ s' hs' => hs' p hwp)
    exact ih hresumed hp

end

/-! ## Playing a script against an oracle -/

/-- The run in which every command is answered by the oracle, cut after `n` steps. -/
def play (oracle : List (C × R) → C → R) :
    Nat → List (C × R) → Script C R α → List (C × R) × Script C R α
  | n + 1, h, .call c k => play oracle n (h ++ [(c, oracle h c)]) (k (oracle h c))
  | n + 1, h, .loop body x k => play oracle n h ((body x).bind (again body k))
  | _, h, p => (h, p)

theorem play_run (oracle : List (C × R) → C → R) (n : Nat) (h : List (C × R))
    (p : Script C R α) :
    ∃ t, (play oracle n h p).1 = h ++ t ∧ Run p t (play oracle n h p).2 := by
  induction n generalizing h p with
  | zero => exact ⟨[], by simp [play], by simpa [play] using Run.refl⟩
  | succ n ih =>
    cases p with
    | ret a => exact ⟨[], by simp [play], .refl⟩
    | exit => exact ⟨[], by simp [play], .refl⟩
    | call c k =>
      obtain ⟨t, ht, hr⟩ := ih (h ++ [(c, oracle h c)]) (k (oracle h c))
      exact ⟨(c, oracle h c) :: t, by simp [play, ht], .call _ hr⟩
    | loop body x k =>
      obtain ⟨t, ht, hr⟩ := ih h ((body x).bind (again body k))
      exact ⟨t, ht, .loop hr⟩

/-- The trace an oracle makes is the trace of a run. -/
theorem run_play (oracle : List (C × R) → C → R) (n : Nat) (p : Script C R α) :
    Run p (play oracle n [] p).1 (play oracle n [] p).2 := by
  obtain ⟨t, ht, hr⟩ := play_run oracle n [] p
  rwa [ht, List.nil_append]

/-- Every command of the trace has the answer of the oracle. -/
theorem play_answers (f : C → R) (n : Nat) (p : Script C R α) :
    ∀ e ∈ (play (fun _ => f) n [] p).1, e.2 = f e.1 := by
  have general : ∀ (h : List (C × R)) (p : Script C R α), (∀ e ∈ h, e.2 = f e.1) →
      ∀ e ∈ (play (fun _ => f) n h p).1, e.2 = f e.1 := by
    induction n with
    | zero => exact fun h p hh => by simpa [play] using hh
    | succ n ih =>
      intro h p hh
      cases p with
      | ret | exit => simpa [play] using hh
      | call c k =>
        refine ih _ _ (List.forall_mem_append.mpr ⟨hh, fun e he => ?_⟩)
        rw [List.mem_singleton.mp he]
      | loop body x k => exact ih _ _ hh
  exact general [] p fun _ he => (List.not_mem_nil he).elim

/-- What a script without loops returns if each command is answered by `f`. -/
def answered (f : C → R) : Script C R α → Option α
  | .ret a => some a
  | .call c k => (k (f c)).answered f
  | .exit | .loop .. => none

theorem answered_bind (f : C → R) (p : Script C R α) (g : α → Script C R β) :
    (p.bind g).answered f = (p.answered f).bind fun a => (g a).answered f := by
  induction p with
  | ret | exit | loop => rfl
  | call c k ih => exact ih (f c) g

theorem exists_run_of_answered {f : C → R} {p : Script C R α} (h : p.answered f = some a) :
    ∃ t, Run p t (.ret a) ∧ ∀ e ∈ t, e.2 = f e.1 := by
  induction p with
  | ret b =>
    cases h
    exact ⟨[], .refl, fun _ he => (List.not_mem_nil he).elim⟩
  | exit | loop => cases h
  | call c k ih =>
    obtain ⟨t, hr, ht⟩ := ih (f c) h
    exact ⟨(c, f c) :: t, .call _ hr, List.forall_mem_cons.mpr ⟨rfl, ht⟩⟩

/-- The value a script has returned, at the point it has come to. -/
def value : Script C R α → Option α
  | .ret a => some a
  | _ => none

/-- The command a script is about to issue, at the point it has come to. -/
def next : Script C R α → Option C
  | .call c _ => some c
  | _ => none

theorem eq_call_of_next {p : Script C R α} (h : p.next = some c) : ∃ k, p = .call c k := by
  cases p <;> cases h
  exact ⟨_, rfl⟩

theorem eq_ret_of_value {p : Script C R α} (h : p.value = some a) : p = .ret a := by
  cases p <;> cases h
  rfl

end Script
