import HassioInstaller.Mkimage.Rebuild
import HassioInstaller.Mkimage.Steps

/-! # Builds that are killed

A `WORKDIR` that is kept is used again by the next run, also when the last one was killed. A section
gets its name by `mv` of a directory whose builder has succeeded, so whatever is killed, every section
is whole (`whole_of_after`). A merged directory and an image are made under the names they keep, and
are taken for done once they are there. So a job that exits 0 has left a current image exactly when
what it found was in order (`current_iff_found`), and one that is killed while it makes its image
leaves a file that is never made anew (`kill_sticks`). -/

namespace HassioInstaller.Mkimage
open Script

variable {Dir : Type} {K : KeyTools} {R : Set (Run Dir)}

/-- `js` are the jobs that a run does before `post`, which are what is left of an architecture. -/
def Run.Before (r : Run Dir) (js post : List (Job Dir)) : Prop :=
  ∃ archs jobs rest, r.archs = archs ++ (true, jobs ++ post) :: rest ∧ (∀ a ∈ archs, a.1 = true) ∧
    js = archs.flatMap Prod.snd ++ jobs

theorem Run.Before.mem_jobs {r : Run Dir} (h : r.Before js post) (hj : j ∈ js ++ post) :
    j ∈ r.jobs := by
  obtain ⟨archs, jobs, rest, harchs, -, rfl⟩ := h
  rw [Run.jobs, harchs, List.flatMap_append, List.flatMap_cons]
  simp only [List.mem_append] at hj ⊢
  tauto

/-- What a run, started on `w`, leaves when it is killed between two jobs or within one. -/
inductive Interrupted (K : KeyTools) (r : Run Dir) (w : Work Dir) : Work Dir → Prop
  | between : r.Before js post → buildProfiles K r.options js w = (true, w') → Interrupted K r w w'
  | within : r.Before js (j :: post) → buildProfiles K r.options js w = (true, w₁) →
    Killed K r.options j w₁ w' → Interrupted K r w w'

/-- What runs of `R` leave, each of which came to its end or was killed. -/
inductive After (K : KeyTools) (R : Set (Run Dir)) (w : Work Dir) : Work Dir → Prop
  | refl : After K R w w
  | ended : After K R w w₁ → r ∈ R → After K R w (mkimage K r w₁).2
  | killed : After K R w w₁ → r ∈ R → Interrupted K r w₁ w₂ → After K R w w₂

section
variable {I : Memo.Store String Dir → Prop} {w w' : Work Dir} {r : Run Dir}

/-- The builders of a run keep `I`. -/
def Run.Keeps (K : KeyTools) (I : Memo.Store String Dir → Prop) (r : Run Dir) : Prop :=
  r.options.simulate = false → ∀ j ∈ r.jobs, ∀ q ∈ j.vars.requests K, Admits I j.tools q

theorem Run.Keeps.ended (h : r.Keeps K I) (hw : I w.sections) : I (mkimage K r w).2.sections :=
  mkimage_invariant (I := fun w => I w.sections)
    (fun j hj _ hw => sections_of_buildProfile (fun hsim => h hsim j hj) hw) hw

theorem Run.Keeps.killed (h : r.Keeps K I) (hk : Interrupted K r w w') (hw : I w.sections) :
    I w'.sections := by
  have before : ∀ {js post w₁}, r.Before js post → buildProfiles K r.options js w = (true, w₁) →
      I w₁.sections := by
    intro js post w₁ hb heq
    have hjobs : ∀ j ∈ js, ∀ w, I w.sections → I (buildProfile K r.options j w).2.sections :=
      fun j hj _ hw => sections_of_buildProfile
        (fun hsim => h hsim j (hb.mem_jobs (List.mem_append_left _ hj))) hw
    have hinv := buildProfiles_invariant (I := fun w => I w.sections) hjobs hw
    rwa [heq] at hinv
  cases hk with
  | between hb heq => exact before hb heq
  | within hb heq hk =>
    have hj := hb.mem_jobs (List.mem_append_right _ List.mem_cons_self)
    exact sections_of_killed hk (fun hsim => h hsim _ hj) (before hb heq)

theorem After.sections (h : After K R w w') (hR : ∀ r ∈ R, r.Keeps K I) (hw : I w.sections) :
    I w'.sections := by
  induction h with
  | refl => exact hw
  | ended _ hr ih => exact (hR _ hr).ended ih
  | killed _ hr hk ih => exact (hR _ hr).killed hk ih

/-- Whatever runs there were and wherever they were killed, the sections there were are as they were,
and a new one is all that a builder that succeeded made of its request. -/
theorem whole_of_after (h : After K R w w') : Memo.Extends w.sections w'.sections ∧
    ∀ d c, w'.sections d = some c → w.sections d = some c ∨
      ∃ r ∈ R, r.options.simulate = false ∧ ∃ j ∈ r.jobs, ∃ q ∈ j.vars.requests K,
        q.dir = d ∧ j.tools.build q = some c := by
  let P : String → Dir → Prop := fun d c => w.sections d = some c ∨
    ∃ r ∈ R, r.options.simulate = false ∧ ∃ j ∈ r.jobs, ∃ q ∈ j.vars.requests K,
      q.dir = d ∧ j.tools.build q = some c
  refine h.sections (I := fun st => Memo.Extends w.sections st ∧ Memo.Entries P st) ?_
    ⟨.refl _, fun d c hc => .inl hc⟩
  intro r hr hsim j hj q hq st d hst hnone hd
  exact ⟨hst.1.trans (Memo.extends_update hnone d),
    hst.2.update (.inr ⟨r, hr, hsim, j, hj, q, hq, rfl, hd⟩)⟩

end

/-! ## What a job makes of what it finds -/

section
variable {o : Options} {j : Job Dir} {v v' : Vars} {w w' : Work Dir} {p : Progress Dir}

theorem selects_mergeSections (h : ∀ q ∈ v.requests K, (w.sections q.dir).isSome) :
    v.Selects K w (mergeSections v' (v.dirs K) w).parts := by
  refine ⟨mergeSections_fst fun d hd => ?_, fun x hx => (mem_mergeSections.mp hx).2⟩
  obtain ⟨q, hq, rfl⟩ := List.mem_map.mp hd
  exact h q hq

theorem selects_congr (h : w'.sections = w.sections) : v.Selects K w' parts ↔ v.Selects K w parts := by
  rw [Vars.Selects, Vars.Selects, h]

theorem current_congr (h : w'.sections = w.sections) (hout : w'.out v.file = w.out v.file) :
    v.Current K w' ↔ v.Current K w := by
  simp only [Vars.Current, selects_congr h, hout]

/-- An image that is made is current when it is made of the sections selected. -/
theorem makeImage_current_iff (hn : p.dirty = true ∨ p.work.out j.vars.file = none)
    (hok : j.createOk = true)
    (hm : (merge K o.simulate j.vars p).merged (j.vars.destdir K p.mySections) = some m) :
    j.vars.Current K (makeImage K o j p).2 ↔ j.vars.Selects K p.work m.parts := by
  obtain ⟨-, heq⟩ | ⟨hno, -⟩ := makeImage_cases K o j p
  · have hmade : createImage j ((merge K o.simulate j.vars p).merged
        (j.vars.destdir K p.mySections)) (p.work.out j.vars.file) = some (.made m) := by
      simp only [hm, createImage, hok]
    have hout : (makeImage K o j p).2.out j.vars.file = some (.made m) := by
      rw [heq, hmade]
      exact Function.update_self ..
    have hsections : (makeImage K o j p).2.sections = p.work.sections := by
      rw [heq, Work.setOut_sections, merge_sections]
    rw [← selects_congr hsections]
    constructor
    · rintro ⟨m', hm', hs⟩
      cases hout.symm.trans hm'
      exact hs
    · exact fun hs => ⟨m, hout, hs⟩
  · exact absurd hn hno

/-- Whatever is on disk: a job that returns 0, and could make its image, leaves a current one exactly
when it found a section missing, or no image and no merged directory that links to other sections
than those selected, or a current image. -/
theorem current_iff_found (hs : j.vars.supported = true) (hsim : o.simulate = false)
    (hok : j.createOk = true) (hret : (buildProfile K o j w).1 = true) :
    j.vars.Current K (buildProfile K o j w).2 ↔ j.vars.Missing K w ∨
      (w.out j.vars.file = none ∧
        ∀ m, w.merged (j.vars.destdir K (j.vars.dirs K)) = some m → j.vars.Selects K w m.parts) ∨
      j.vars.Current K w := by
  by_cases hmissing : j.vars.Missing K w
  · -- all is made anew
    refine iff_of_true ?_ (.inl hmissing)
    obtain ⟨hfail, -⟩ | ⟨p, hb, heq⟩ := buildProfile_cases (K := K) o j w hs
    · rw [hfail] at hret
      cases hret
    have hdirty : p.dirty = true := hb.dirty_iff.mpr ⟨hsim, hmissing⟩
    have hm : (merge K o.simulate j.vars p).merged (j.vars.destdir K p.mySections) =
        some (mergeSections j.vars p.mySections p.work) := by
      simp [merge, hdirty, hsim]
    rw [heq, makeImage_current_iff (.inl hdirty) hok hm, hb.mySections_eq]
    exact selects_mergeSections (hb.present hsim)
  have hpresent : ∀ q ∈ j.vars.requests K, (w.sections q.dir).isSome := fun q hq =>
    Option.isSome_iff_ne_none.mpr fun hnone => hmissing ⟨q, hq, hnone⟩
  rw [buildProfile_present hs fun q hq => .inl (hpresent q hq), or_iff_right hmissing]
  cases hout : w.out j.vars.file with
  | none =>
    have hno : ¬ j.vars.Current K w := by
      rintro ⟨m, hm, -⟩
      rw [hout] at hm
      cases hm
    rw [or_iff_left hno]
    cases hm : w.merged (j.vars.destdir K (j.vars.dirs K)) with
    | none =>
      rw [makeImage_current_iff (m := mergeSections j.vars (j.vars.dirs K) w) (.inr hout) hok
        (by simp [merge, hm, hsim])]
      exact iff_of_true (selects_mergeSections hpresent) ⟨rfl, fun m h => by cases h⟩
    | some m =>
      rw [makeImage_current_iff (m := m) (.inr hout) hok (by simp [merge, hm])]
      refine ⟨fun hsel => ⟨rfl, fun m' hm' => ?_⟩, fun h => h.2 m rfl⟩
      cases hm'
      exact hsel
  | some i =>
    obtain ⟨hn, -⟩ | ⟨-, heq⟩ := makeImage_cases K o j ⟨w, false, false, j.vars.dirs K⟩
    · rw [hout] at hn
      rcases hn with hn | hn <;> cases hn
    rw [heq, current_congr merge_sections (congrFun merge_out _)]
    exact ⟨.inr, fun h => h.resolve_left fun hn => by cases hn.1⟩

/-- A job that is to make an image can be killed so that what it leaves under the name of the image
is none, and that no run of the job makes it anew: all exit 0, and leave everything as it is. -/
theorem kill_sticks (hs : j.vars.supported = true) (hsim : o.simulate = false)
    (hbuild : ∀ q ∈ j.vars.requests K, (j.tools.build q).isSome) (hneeded : j.vars.Needed K o w) :
    ∃ w', Killed K o j w w' ∧ (∀ m, w'.out j.vars.file ≠ some (.made m)) ∧
      ∀ r : Run Dir, (∀ a ∈ r.archs, a.1 = true) → (∀ j' ∈ r.jobs, j'.vars = j.vars) →
        mkimage K r w' = (true, w') := by
  obtain ⟨p, t, k, s, hb, hrun, hpath, hkept⟩ := comes_to_create hs hbuild hneeded
  let w' := s.kept.setOut j.vars.file (some .other)
  have hout : w'.out j.vars.file = some .other := Function.update_self ..
  have hready : Ready K j.vars w' := by
    have hmerged : (merge K o.simulate j.vars p).merged (j.vars.destdir K p.mySections) ≠ none :=
      merge_ne_none hsim
    rw [hb.mySections_eq, ← hkept] at hmerged
    refine ⟨fun q hq => ?_, Option.isSome_iff_ne_none.mpr hmerged⟩
    rw [Work.setOut_sections, hkept, merge_sections]
    exact hb.present hsim q hq
  refine ⟨w', ⟨_, t, _, k, s, s.setImage j.vars.file (some .other), hrun, hpath, .image _ (by simp), rfl⟩,
    fun m hm => ?_, fun r harchs hjobs => ?_⟩
  · rw [hout] at hm
    cases hm
  · rw [mkimage_eq harchs]
    refine buildProfiles_eq fun j' hj' _ => ?_
    rw [hjobs j' hj', hout]
    exact ⟨hready, rfl⟩

end

/-! ## The container, killed -/

theorem firstJob_builds (q : Request) : ((firstJob true).tools.build q).isSome := by
  rw [firstJob, logged_build]
  rfl

theorem firstJob_kernel : (firstJob true).vars.requestKernel spelled "lts" ∈
    (firstJob true).vars.requests spelled := List.mem_cons_self

theorem firstJob_needed :
    (firstJob true).vars.Needed spelled ⟨false, false⟩ (emptyWork : Work (List Tool)) := .inr rfl

theorem before_firstRun : (firstRun true).Before [] [firstJob true] :=
  ⟨[], [], [], rfl, fun _ ha => (List.not_mem_nil ha).elim, rfl⟩

/-- The container is killed before it makes its image. -/
theorem whole_of_after_first : ∃ w', After spelled {firstRun true} emptyWork w' ∧
    ∀ q ∈ (firstJob true).vars.requests spelled, ∃ c, w'.sections q.dir = some c ∧
      ∃ q' ∈ (firstJob true).vars.requests spelled, q'.dir = q.dir ∧ logged.build q' = some c := by
  obtain ⟨p, t, k, s, hb, hrun, hpath, hkept⟩ :=
    comes_to_create (j := firstJob true) rfl (fun q _ => firstJob_builds q) firstJob_needed
  have hkilled : Killed spelled ⟨false, false⟩ (firstJob true) emptyWork s.kept :=
    ⟨_, t, _, k, s, s, hrun, hpath, .before, rfl⟩
  have hafter : After spelled {firstRun true} emptyWork s.kept :=
    .killed .refl rfl (.within before_firstRun rfl hkilled)
  refine ⟨s.kept, hafter, fun q hq => ?_⟩
  have hsome : (s.kept.sections q.dir).isSome := by
    rw [hkept, merge_sections]
    exact hb.present rfl q hq
  obtain ⟨c, hc⟩ := Option.isSome_iff_exists.mp hsome
  obtain hold | ⟨r, rfl, -, j, hj, q', hq', hdir, hbuild⟩ := (whole_of_after hafter).2 q.dir c hc
  · cases hold
  · rw [List.mem_singleton.mp hj] at hq' hbuild
    exact ⟨c, hc, q', hq', hdir, hbuild⟩

/-- A file that is no image is made anew where nothing is built yet. -/
theorem current_iff_found_first : (firstJob true).vars.Current spelled (buildProfile spelled
    ⟨false, false⟩ (firstJob true) (emptyWork.setOut (firstJob true).vars.file (some .other))).2 :=
  (current_iff_found rfl rfl rfl (firstJob_returns true _)).mpr
    (.inl ⟨_, firstJob_kernel, rfl⟩)

theorem kill_sticks_first : ∃ w', Killed spelled ⟨false, false⟩ (firstJob true) emptyWork w' ∧
    (∀ m, w'.out (firstJob true).vars.file ≠ some (.made m)) ∧
    mkimage spelled (firstRun true) w' = (true, w') := by
  obtain ⟨w', hkilled, hno, hagain⟩ :=
    kill_sticks (j := firstJob true) rfl rfl (fun q _ => firstJob_builds q) firstJob_needed
  refine ⟨w', hkilled, hno, hagain (firstRun true) (fun a ha => ?_) fun j' hj' => ?_⟩
  · rw [List.mem_singleton.mp ha]
  · rw [List.mem_singleton.mp hj']

end HassioInstaller.Mkimage
