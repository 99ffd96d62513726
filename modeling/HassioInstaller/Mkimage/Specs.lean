import HassioInstaller.Mkimage.Build
import Mathlib.Data.List.Basic

/-! # What the build functions do to the disk

One lemma says what a call of `build_section` can do (`buildSection_cases`), and one what going
through sections does when nothing failed (`Built`). -/

namespace HassioInstaller.Mkimage

variable {Dir : Type*} {K : KeyTools} {T : Tools Dir} {simulate : Bool}

theorem sanitize_ne_space (c : Char) : sanitize c ≠ ' ' := by
  unfold sanitize
  split
  · rename_i h
    rintro rfl
    exact absurd h (by decide)
  · decide

theorem Request.dir_toList (q : Request) : q.dir.toList =
    (q.builder.name.toList ++ joined (q.args ++ q.id.toList ++ q.rest)).map sanitize :=
  String.toList_ofList

theorem Request.dir_ne (q : Request) : q.dir ≠ "" := by
  intro h
  have hl : q.dir.toList = [] := by rw [h]; rfl
  rw [q.dir_toList, List.map_eq_nil_iff, List.append_eq_nil_iff] at hl
  cases hb : q.builder <;> simp [hb, Builder.name] at hl

/-- A word of `$_my_sections`. -/
def Word (d : String) : Prop := d ≠ "" ∧ ' ' ∉ d.toList

theorem Request.dir_word (q : Request) : Word q.dir := by
  refine ⟨q.dir_ne, fun h => ?_⟩
  rw [q.dir_toList, List.mem_map] at h
  obtain ⟨c, -, hc⟩ := h
  exact sanitize_ne_space c hc

/-! ## One section -/

/-- What one call of `build_section` can do. -/
theorem buildSection_cases (simulate : Bool) (T : Tools Dir) (q : Request) (p : Progress Dir) :
    (((p.work.sections q.dir).isSome ∨ simulate = true) ∧ buildSection simulate T q p =
      (true, { p with mySections := p.mySections ++ [q.dir] })) ∨
    (simulate = false ∧ p.work.sections q.dir = none ∧ ∃ d, T.build q = some d ∧
      buildSection simulate T q p = (true, { p with
        work := p.work.addSection q.dir d
        dirty := true
        mySections := p.mySections ++ [q.dir] })) ∨
    (simulate = false ∧ p.work.sections q.dir = none ∧ T.build q = none ∧
      buildSection simulate T q p = (false, { p with fail := true })) := by
  simp only [buildSection, if_neg q.dir_ne, Bool.or_eq_true]
  split
  next h => exact .inl ⟨h, rfl⟩
  next h =>
    obtain ⟨hnone, hsim⟩ := not_or.mp h
    rw [Bool.not_eq_true] at hsim
    rw [Option.not_isSome_iff_eq_none] at hnone
    cases hb : T.build q with
    | some d => exact .inr (.inl ⟨hsim, hnone, d, rfl, rfl⟩)
    | none => exact .inr (.inr ⟨hsim, hnone, rfl, rfl⟩)

/-- The cache of sections is a store filled on demand. -/
theorem buildSection_sections (q : Request) (p : Progress Dir) :
    (buildSection false T q p).2.work.sections =
      Memo.visit Request.dir T.build p.work.sections q := by
  obtain ⟨hhit | h, h'⟩ | ⟨-, hnone, d, hd, h'⟩ | ⟨-, -, hd, h'⟩ := buildSection_cases false T q p
  · obtain ⟨c, hc⟩ := Option.isSome_iff_exists.mp hhit
    rw [h', Memo.visit_of_some hc]
  · cases h
  · rw [h', Memo.visit_of_none hnone hd]
    rfl
  · rw [h', Memo.visit_of_fail hd]

theorem buildSection_simulate (q : Request) (p : Progress Dir) :
    (buildSection true T q p).2.work = p.work := by
  obtain ⟨-, h⟩ | ⟨h, -⟩ | ⟨h, -⟩ := buildSection_cases true T q p
  · rw [h]
  · cases h
  · cases h

/-- Sections are added and nothing else changes. -/
structure Grows (w w' : Work Dir) : Prop where
  sections : Memo.Extends w.sections w'.sections
  merged : w'.merged = w.merged
  out : w'.out = w.out

theorem Grows.refl (w : Work Dir) : Grows w w := ⟨.refl _, rfl, rfl⟩

theorem Grows.trans {w w' w'' : Work Dir} (h : Grows w w') (h' : Grows w' w'') : Grows w w'' :=
  ⟨h.sections.trans h'.sections, h'.merged.trans h.merged, h'.out.trans h.out⟩

theorem grows_buildSection (q : Request) (p : Progress Dir) :
    Grows p.work (buildSection simulate T q p).2.work := by
  obtain ⟨-, h⟩ | ⟨-, hnone, d, -, h⟩ | ⟨-, -, -, h⟩ := buildSection_cases simulate T q p
  · rw [h]
    exact .refl _
  · rw [h]
    exact ⟨Memo.extends_update hnone d, rfl, rfl⟩
  · rw [h]
    exact .refl _

/-! ## All sections -/

/-- What every call of `build_section` keeps, going through sections keeps. -/
theorem runSection_invariant {I : Work Dir → Prop} {qs : List Request}
    (h : ∀ q ∈ qs, ∀ p : Progress Dir, I p.work → I (buildSection simulate T q p).2.work)
    {b : Bool} {p : Progress Dir} (hp : I p.work) :
    I (qs.foldl (fun r q => buildSection simulate T q r.2) (b, p)).2.work := by
  induction qs generalizing b p with
  | nil => exact hp
  | cons q qs ih =>
    exact ih (fun q' hq' => h q' (List.mem_cons_of_mem q hq')) (h q List.mem_cons_self p hp)

theorem runSections_invariant {I : Work Dir → Prop} {ss : List (List Request)}
    (h : ∀ q ∈ ss.flatten, ∀ p : Progress Dir, I p.work → I (buildSection simulate T q p).2.work)
    {p : Progress Dir} (hp : I p.work) : I (runSections simulate T ss p).2.work := by
  induction ss generalizing p with
  | nil => exact hp
  | cons qs ss ih =>
    have hqs : I (runSection simulate T qs p).2.work :=
      runSection_invariant (fun q hq => h q (List.mem_append_left _ hq)) hp
    rw [runSections]
    cases hr : runSection simulate T qs p with
    | mk b p' =>
      rw [hr] at hqs
      cases b with
      | true => exact ih (fun q hq => h q (List.mem_append_right _ hq)) hqs
      | false => exact hqs

theorem grows_runSections (ss : List (List Request)) (p : Progress Dir) :
    Grows p.work (runSections simulate T ss p).2.work :=
  runSections_invariant (I := Grows p.work) (fun q _ _ h => h.trans (grows_buildSection q _))
    (.refl _)

/-- What going through requests does when no build failed. -/
structure Built (simulate : Bool) (qs : List Request) (p p' : Progress Dir) : Prop where
  grows : Grows p.work p'.work
  mySections : p'.mySections = p.mySections ++ qs.map Request.dir
  present : simulate = false → ∀ q ∈ qs, (p'.work.sections q.dir).isSome
  simulated : simulate = true → p'.work = p.work
  /-- Only requested sections are new. -/
  new : p.work.sections d = none → (p'.work.sections d).isSome → d ∈ qs.map Request.dir
  /-- The build is dirty when a section is new. -/
  dirty : p'.dirty = true ↔
    p.dirty = true ∨ ∃ d, p.work.sections d = none ∧ (p'.work.sections d).isSome

theorem Built.nil (p : Progress Dir) : Built simulate [] p p where
  grows := .refl _
  mySections := (List.append_nil _).symm
  present _ q hq := by cases hq
  simulated _ := rfl
  new h h' := by rw [h] at h'; cases h'
  dirty := by
    refine ⟨.inl, ?_⟩
    rintro (h | ⟨d, hd, hd'⟩)
    · exact h
    · rw [hd] at hd'
      cases hd'

theorem isSome_of_extends {s s' : Memo.Store String Dir} (h : Memo.Extends s s')
    (hd : (s d).isSome) : (s' d).isSome := by
  obtain ⟨c, hc⟩ := Option.isSome_iff_exists.mp hd
  rw [h d c hc]
  rfl

theorem Built.append {p p' p'' : Progress Dir} (h : Built simulate qs p p')
    (h' : Built simulate qs' p' p'') : Built simulate (qs ++ qs') p p'' where
  grows := h.grows.trans h'.grows
  mySections := by rw [h'.mySections, h.mySections, List.map_append, List.append_assoc]
  present hs q hq := by
    rcases List.mem_append.mp hq with hq | hq
    · exact isSome_of_extends h'.grows.sections (h.present hs q hq)
    · exact h'.present hs q hq
  simulated hs := (h'.simulated hs).trans (h.simulated hs)
  new {d} hd hd'' := by
    rw [List.map_append, List.mem_append]
    cases hd' : p'.work.sections d with
    | none => exact .inr (h'.new hd' hd'')
    | some c => exact .inl (h.new hd (Option.isSome_iff_exists.mpr ⟨c, hd'⟩))
  dirty := by
    rw [h'.dirty, h.dirty]
    constructor
    · rintro ((hp | ⟨d, hd, hd'⟩) | ⟨d, hd', hd''⟩)
      · exact .inl hp
      · exact .inr ⟨d, hd, isSome_of_extends h'.grows.sections hd'⟩
      · exact .inr ⟨d, h.grows.sections.none hd', hd''⟩
    · rintro (hp | ⟨d, hd, hd''⟩)
      · exact .inl (.inl hp)
      cases hd' : p'.work.sections d with
      | none => exact .inr ⟨d, hd', hd''⟩
      | some c => exact .inl (.inr ⟨d, hd, Option.isSome_iff_exists.mpr ⟨c, hd'⟩⟩)

/-- A failed build is remembered. -/
theorem buildSection_built {q : Request} {p : Progress Dir}
    (hf : (buildSection simulate T q p).2.fail = false) :
    p.fail = false ∧ Built simulate [q] p (buildSection simulate T q p).2 := by
  obtain ⟨hc, h⟩ | ⟨hs, hnone, d, -, h⟩ | ⟨-, -, -, h⟩ := buildSection_cases simulate T q p
  · rw [h] at hf ⊢
    refine ⟨hf, .refl _, rfl, fun hs q' hq' => ?_, fun _ => rfl, fun hd hd' => ?_, .inl, ?_⟩
    · rcases hc with hc | hc
      · rwa [List.mem_singleton.mp hq']
      · rw [hc] at hs
        cases hs
    · rw [hd] at hd'
      cases hd'
    · rintro (hp | ⟨d, hd, hd'⟩)
      · exact hp
      · rw [hd] at hd'
        cases hd'
  · rw [h] at hf ⊢
    have hself : ((p.work.addSection q.dir d).sections q.dir).isSome := by simp
    refine ⟨hf, ⟨Memo.extends_update hnone d, rfl, rfl⟩, rfl, fun _ q' hq' => ?_,
      fun hs' => ?_, fun {d'} hd hd' => ?_, fun _ => .inr ⟨q.dir, hnone, hself⟩, fun _ => rfl⟩
    · rw [List.mem_singleton.mp hq']
      exact hself
    · rw [hs] at hs'
      cases hs'
    · by_contra hne
      have hdir : d' ≠ q.dir := fun h => hne (h ▸ List.mem_singleton_self _)
      rw [Work.addSection_sections, Function.update_of_ne hdir, hd] at hd'
      cases hd'
  · rw [h] at hf
    cases hf

theorem runSection_built {qs : List Request} {b : Bool} {p : Progress Dir} {r : Bool × Progress Dir}
    (h : qs.foldl (fun r q => buildSection simulate T q r.2) (b, p) = r) (hf : r.2.fail = false) :
    p.fail = false ∧ Built simulate qs p r.2 := by
  induction qs generalizing b p with
  | nil =>
    subst h
    exact ⟨hf, .nil _⟩
  | cons q qs ih =>
    obtain ⟨hq, hqs⟩ := ih h
    obtain ⟨hp, hb⟩ := buildSection_built hq
    exact ⟨hp, hb.append hqs⟩

theorem runSections_built {ss : List (List Request)} {p p' : Progress Dir}
    (h : runSections simulate T ss p = (true, p')) (hf : p'.fail = false) :
    p.fail = false ∧ Built simulate ss.flatten p p' := by
  induction ss generalizing p with
  | nil =>
    cases h
    exact ⟨hf, .nil _⟩
  | cons qs ss ih =>
    rw [runSections] at h
    split at h
    next p₁ hr =>
      obtain ⟨hf₁, hb₁⟩ := ih h
      obtain ⟨hp, hb⟩ := runSection_built hr hf₁
      exact ⟨hp, hb.append hb₁⟩
    next => cases h

/-- When no builder fails, sections are gone through to the end. -/
theorem runSection_returns {qs : List Request} {p : Progress Dir}
    (h : ∀ q ∈ qs, (T.build q).isSome) (hf : p.fail = false) :
    (runSection simulate T qs p).1 = true ∧ (runSection simulate T qs p).2.fail = false := by
  rw [runSection]
  induction qs generalizing p with
  | nil => exact ⟨rfl, hf⟩
  | cons q qs ih =>
    rw [List.foldl_cons]
    obtain ⟨-, hq⟩ | ⟨-, -, d, -, hq⟩ | ⟨-, -, hq, -⟩ := buildSection_cases simulate T q p
    · rw [hq]
      exact ih (fun q' hq' => h q' (List.mem_cons_of_mem q hq')) hf
    · rw [hq]
      exact ih (fun q' hq' => h q' (List.mem_cons_of_mem q hq')) hf
    · have hsome := h q List.mem_cons_self
      rw [hq] at hsome
      cases hsome

theorem runSections_returns {ss : List (List Request)} {p : Progress Dir}
    (h : ∀ q ∈ ss.flatten, (T.build q).isSome) (hf : p.fail = false) :
    ∃ p', runSections simulate T ss p = (true, p') ∧ p'.fail = false := by
  induction ss generalizing p with
  | nil => exact ⟨p, rfl, hf⟩
  | cons qs ss ih =>
    obtain ⟨hret, hf'⟩ : (runSection simulate T qs p).1 = true ∧
        (runSection simulate T qs p).2.fail = false :=
      runSection_returns (fun q hq => h q (List.mem_append_left _ hq)) hf
    obtain ⟨p', hp', hpf⟩ := ih (fun q hq => h q (List.mem_append_right _ hq)) hf'
    refine ⟨p', ?_, hpf⟩
    rw [runSections, ← hp']
    split
    next p₁ hr => rw [hr]
    next p₁ hr =>
      rw [hr] at hret
      cases hret

/-! ## A profile -/

/-- A build of a supported profile stops at a section, or gets to the image with all sections. -/
theorem buildProfile_cases (o : Options) (j : Job Dir) (w : Work Dir) (h : j.vars.supported = true) :
    (buildProfile K o j w).1 = false ∧ Grows w (buildProfile K o j w).2 ∨
    ∃ p, Built o.simulate (j.vars.requests K) ⟨w, false, false, []⟩ p ∧
      buildProfile K o j w = makeImage K o j p := by
  have hgrows : Grows w (runSections o.simulate j.tools (j.vars.allSections K)
    ⟨w, false, false, []⟩).2.work := grows_runSections _ ⟨w, false, false, []⟩
  rw [buildProfile, h]
  cases hr : runSections o.simulate j.tools (j.vars.allSections K) ⟨w, false, false, []⟩ with
  | mk b p =>
    rw [hr] at hgrows
    cases b with
    | false => exact .inl ⟨rfl, hgrows⟩
    | true =>
      cases hf : p.fail with
      | true =>
        left
        simpa only [Bool.not_true, Bool.false_eq_true, if_false, hf, if_true, true_and] using hgrows
      | false =>
        right
        simp only [Bool.not_true, Bool.false_eq_true, if_false, hf]
        exact ⟨p, (runSections_built hr hf).2, rfl⟩

/-- Without `--yaml`, a build whose builders succeed returns 0, whatever becomes of the image. -/
theorem buildProfile_returns {o : Options} {j : Job Dir} (w : Work Dir)
    (h : ∀ q ∈ j.vars.requests K, (j.tools.build q).isSome) (hy : o.yaml = false) :
    (buildProfile K o j w).1 = true := by
  obtain ⟨p, hp, hf⟩ : ∃ p, runSections o.simulate j.tools (j.vars.allSections K)
      ⟨w, false, false, []⟩ = (true, p) ∧ p.fail = false := runSections_returns h rfl
  cases hs : j.vars.supported with
  | false => rw [buildProfile, hs]; rfl
  | true =>
    rw [buildProfile, hs, hp]
    simp only [Bool.not_true, Bool.false_eq_true, if_false, hf, makeImage, hy, Bool.not_false,
      Bool.true_or]
    split <;> rfl

theorem buildProfile_unsupported (o : Options) (w : Work Dir) (h : j.vars.supported = false) :
    buildProfile K o j w = (true, w) := by
  rw [buildProfile, h]
  rfl

/-! ## Commands that succeed -/

/-- The command a step runs. -/
def Step.tool : Step → Option Tool
  | .run t => some t
  | .orReturn t => some t
  | .skip => none

/-- Tools that succeed, at work on the record of what was run. -/
def logged : Tools (List Tool) where
  exec t d := (true, d ++ [t])
  empty := []

theorem logged_body (body : List Step) (d : List Tool) :
    logged.body body (true, d) = (true, d ++ body.filterMap Step.tool) := by
  induction body generalizing d with
  | nil => rw [List.filterMap_nil, List.append_nil]; rfl
  | cons s body ih =>
    cases s with
    | skip => exact ih d
    | run t =>
      rw [List.filterMap_cons_some (f := Step.tool) (b := t) rfl, List.append_cons]
      exact ih (d ++ [t])
    | orReturn t =>
      rw [List.filterMap_cons_some (f := Step.tool) (b := t) rfl, List.append_cons]
      exact ih (d ++ [t])

theorem logged_build (q : Request) : logged.build q = some (q.body.filterMap Step.tool) := by
  rw [Tools.build, logged_body]
  rfl

/-! ## A run and a history -/

/-- The jobs of a run, in order. -/
def Run.jobs (r : Run Dir) : List (Job Dir) := r.archs.flatMap Prod.snd

section
variable {I : Work Dir → Prop} {o : Options} {w : Work Dir}

/-- What every job keeps, a run keeps, whether it stops early or not. -/
theorem buildProfiles_invariant {js : List (Job Dir)}
    (h : ∀ j ∈ js, ∀ w, I w → I (buildProfile K o j w).2) (hw : I w) :
    I (buildProfiles K o js w).2 := by
  induction js generalizing w with
  | nil => exact hw
  | cons j js ih =>
    have hj := h j List.mem_cons_self w hw
    rw [buildProfiles]
    split
    next w₁ hr =>
      rw [hr] at hj
      exact ih (fun j' hj' => h j' (List.mem_cons_of_mem j hj')) hj
    next w₁ hr =>
      rw [hr] at hj
      exact hj

theorem mkimage_invariant {r : Run Dir}
    (h : ∀ j ∈ r.jobs, ∀ w, I w → I (buildProfile K r.options j w).2)
    (hw : I w) : I (mkimage K r w).2 := by
  obtain ⟨o, archs⟩ := r
  rw [mkimage]
  simp only [Run.jobs] at h
  induction archs generalizing w with
  | nil => exact hw
  | cons a archs ih =>
    obtain ⟨ready, js⟩ := a
    rw [List.flatMap_cons] at h
    cases ready with
    | false => exact hw
    | true =>
      have hjs := buildProfiles_invariant (fun j hj => h j (List.mem_append_left _ hj)) hw
      rw [buildArchs]
      split
      next w₁ hr =>
        rw [hr] at hjs
        exact ih hjs fun j hj => h j (List.mem_append_right _ hj)
      next w₁ hr =>
        rw [hr] at hjs
        exact hjs

theorem history_invariant {rs : List (Run Dir)}
    (h : ∀ r ∈ rs, ∀ j ∈ r.jobs, ∀ w, I w → I (buildProfile K r.options j w).2) (hw : I w) :
    I (history K rs w) := by
  induction rs generalizing w with
  | nil => exact hw
  | cons r rs ih =>
    exact ih (fun r' hr' => h r' (List.mem_cons_of_mem r hr'))
      (mkimage_invariant (h r List.mem_cons_self) hw)

end

theorem buildProfiles_append {o : Options} (js js' : List (Job Dir)) (w : Work Dir) :
    buildProfiles K o (js ++ js') w =
      match buildProfiles K o js w with
      | (true, w) => buildProfiles K o js' w
      | (false, w) => (false, w) := by
  induction js generalizing w with
  | nil => rfl
  | cons j js ih =>
    rw [List.cons_append, buildProfiles, buildProfiles]
    split
    next w₁ _ => exact ih w₁
    next => rfl

theorem mkimage_single (o : Options) (j : Job Dir) (w : Work Dir) :
    mkimage K ⟨o, [(true, [j])]⟩ w = buildProfile K o j w := by
  simp only [mkimage, buildArchs, buildProfiles]
  obtain ⟨b, w'⟩ := buildProfile K o j w
  cases b <;> rfl

/-- A run that exits 0 has gone through all its jobs. -/
theorem buildProfiles_of_mkimage {r : Run Dir} {w w' : Work Dir} (h : mkimage K r w = (true, w')) :
    buildProfiles K r.options r.jobs w = (true, w') := by
  obtain ⟨o, archs⟩ := r
  rw [mkimage] at h
  simp only [Run.jobs] at h ⊢
  induction archs generalizing w with
  | nil => exact h
  | cons a archs ih =>
    obtain ⟨ready, js⟩ := a
    cases ready with
    | false => cases h
    | true =>
      rw [List.flatMap_cons, buildProfiles_append]
      rw [buildArchs] at h
      split at h
      next w₁ hr =>
        rw [hr]
        exact ih h
      next => cases h

end HassioInstaller.Mkimage
