import HassioInstaller.Mkimage.Current

/-! # Running the build again

A run that exits 0 leaves every section and every merged directory that its jobs ask for (`Ready`),
and no later run takes one away. So the same jobs find all they need, however their tools would
behave then, and all that is left to do is to make an image that is missing. A simulated run comes
to the same by another way: it builds nothing, and so never finds an image out of date. -/

namespace HassioInstaller.Mkimage

variable {Dir : Type*} {K : KeyTools}

/-- The sections that a build selects and their merged directory are on disk. -/
structure Ready (K : KeyTools) (v : Vars) (w : Work Dir) : Prop where
  sections : ∀ q ∈ v.requests K, (w.sections q.dir).isSome
  merged : (w.merged (v.destdir K (v.dirs K))).isSome

/-- At most images that were missing are there now. -/
structure Supplied (w w' : Work Dir) : Prop where
  sections : w'.sections = w.sections
  merged : w'.merged = w.merged
  out : w.out f = some i → w'.out f = some i

theorem Supplied.refl (w : Work Dir) : Supplied w w := ⟨rfl, rfl, id⟩

theorem Supplied.trans {w w' w'' : Work Dir} (h : Supplied w w') (h' : Supplied w' w'') :
    Supplied w w'' :=
  ⟨h'.sections.trans h.sections, h'.merged.trans h.merged, fun hf => h'.out (h.out hf)⟩

theorem Ready.supplied {v : Vars} {w w' : Work Dir} (h : Ready K v w) (hs : Supplied w w') :
    Ready K v w' where
  sections := by
    rw [hs.sections]
    exact h.sections
  merged := by
    rw [hs.merged]
    exact h.merged

section
variable {o : Options} {j : Job Dir} {v : Vars} {w : Work Dir} {p : Progress Dir}
  {T : Tools Dir} {simulate : Bool}

/-! ## Nothing to build -/

theorem runSection_present {qs : List Request}
    (h : ∀ q ∈ qs, (p.work.sections q.dir).isSome ∨ simulate = true) :
    runSection simulate T qs p =
      (true, { p with mySections := p.mySections ++ qs.map Request.dir }) := by
  rw [runSection]
  induction qs generalizing p with
  | nil => simp
  | cons q qs ih =>
    have hq : buildSection simulate T q p =
        (true, { p with mySections := p.mySections ++ [q.dir] }) := by
      have hhit := h q List.mem_cons_self
      obtain ⟨-, heq⟩ | ⟨hs, hnone, -⟩ | ⟨hs, hnone, -⟩ := buildSection_cases simulate T q p
      · exact heq
      all_goals rw [hs, hnone] at hhit; rcases hhit with hhit | hhit <;> cases hhit
    have hqs := ih (p := { p with mySections := p.mySections ++ [q.dir] })
      fun q' hq' => h q' (List.mem_cons_of_mem q hq')
    rw [List.foldl_cons, hq, hqs, List.map_cons, List.append_assoc]
    rfl

theorem runSections_present {ss : List (List Request)}
    (h : ∀ q ∈ ss.flatten, (p.work.sections q.dir).isSome ∨ simulate = true) :
    runSections simulate T ss p =
      (true, { p with mySections := p.mySections ++ ss.flatten.map Request.dir }) := by
  induction ss generalizing p with
  | nil => simp [runSections]
  | cons qs ss ih =>
    have hss := ih (p := { p with mySections := p.mySections ++ qs.map Request.dir })
      fun q hq => h q (List.mem_append_right _ hq)
    rw [runSections, runSection_present fun q hq => h q (List.mem_append_left _ hq)]
    simp only [hss, List.flatten_cons, List.map_append, List.append_assoc]

/-- With nothing to build, a job goes on to the image with the sections it selects. -/
theorem buildProfile_present (hs : j.vars.supported = true)
    (h : ∀ q ∈ j.vars.requests K, (w.sections q.dir).isSome ∨ o.simulate = true) :
    buildProfile K o j w = makeImage K o j ⟨w, false, false, j.vars.dirs K⟩ := by
  have hrun : runSections o.simulate j.tools (j.vars.allSections K) ⟨w, false, false, []⟩ =
      (true, ⟨w, false, false, j.vars.dirs K⟩) := runSections_present h
  rw [buildProfile, hs, hrun]
  rfl

/-- Where nothing was built, an image that is there is kept. -/
theorem supplied_setOut (hnone : w.out f = none) (i : Option (Image Dir)) :
    Supplied w (w.setOut f i) where
  sections := rfl
  merged := rfl
  out {g i'} hg := by
    have hne : g ≠ f := by
      rintro rfl
      rw [hnone] at hg
      cases hg
    rw [Work.setOut_out, Function.update_of_ne hne, hg]

theorem supplied_makeImage {ds : List String}
    (hm : merge K o.simulate j.vars ⟨w, false, false, ds⟩ = w) :
    Supplied w (makeImage K o j ⟨w, false, false, ds⟩).2 := by
  obtain ⟨hn, heq⟩ | ⟨-, heq⟩ := makeImage_cases K o j ⟨w, false, false, ds⟩
  · rw [heq, hm]
    refine supplied_setOut ?_ _
    rcases hn with hn | hn
    · cases hn
    · exact hn
  · rw [heq, hm]
    exact .refl w

theorem supplied_simulated (hsim : o.simulate = true) : Supplied w (buildProfile K o j w).2 := by
  cases hs : j.vars.supported with
  | false =>
    rw [buildProfile_unsupported o w hs]
    exact .refl w
  | true =>
    rw [buildProfile_present hs fun _ _ => .inr hsim]
    refine supplied_makeImage ?_
    obtain ⟨hno, -⟩ | ⟨-, heq⟩ := merge_cases (K := K) o.simulate j.vars
      ⟨w, false, false, j.vars.dirs K⟩
    · rw [hno] at hsim
      cases hsim
    · exact heq

theorem returns_simulated (hsim : o.simulate = true) (hyaml : o.yaml = false) :
    (buildProfile K o j w).1 = true := by
  cases hs : j.vars.supported with
  | false => rw [buildProfile_unsupported o w hs]
  | true =>
    rw [buildProfile_present hs fun _ _ => .inr hsim, makeImage, hyaml]
    split <;> rfl

theorem Ready.merge_eq (h : Ready K v w) : merge K simulate v ⟨w, false, false, v.dirs K⟩ = w := by
  obtain ⟨hdest, hsome⟩ := Option.isSome_iff_exists.mp h.merged
  simp [merge, hsome]

theorem Ready.buildProfile_supplied (h : Ready K j.vars w) :
    Supplied w (buildProfile K o j w).2 := by
  cases hs : j.vars.supported with
  | false =>
    rw [buildProfile_unsupported o w hs]
    exact .refl w
  | true =>
    rw [buildProfile_present hs fun q hq => .inl (h.sections q hq)]
    exact supplied_makeImage h.merge_eq

/-- When the image is there too, a job has nothing to do. -/
theorem Ready.buildProfile_eq (h : Ready K j.vars w) (hs : j.vars.supported = true)
    (hf : (w.out j.vars.file).isSome) : buildProfile K o j w = (true, w) := by
  obtain ⟨i, hi⟩ := Option.isSome_iff_exists.mp hf
  rw [buildProfile_present hs fun q hq => .inl (h.sections q hq), makeImage, h.merge_eq, hi]
  rfl

/-! ## What a run leaves -/

theorem merge_ne_none (hsim : simulate = false) :
    (merge K simulate v p).merged (v.destdir K p.mySections) ≠ none := by
  rw [Ne, merge_eq_none, hsim]
  rintro ⟨hno, -⟩
  cases hno

/-- A job that returns 0, and is not simulated, has everything ready. -/
theorem ready_of_buildProfile (hsim : o.simulate = false) (hs : j.vars.supported = true)
    (hret : (buildProfile K o j w).1 = true) : Ready K j.vars (buildProfile K o j w).2 := by
  obtain ⟨hfail, -⟩ | ⟨p, hb, hm⟩ := buildProfile_cases (K := K) o j w hs
  · rw [hfail] at hret
    cases hret
  have hmerged : (merge K o.simulate j.vars p).merged (j.vars.destdir K p.mySections) ≠ none :=
    merge_ne_none hsim
  rw [hb.mySections_eq] at hmerged
  have hpresent : ∀ q ∈ j.vars.requests K,
      ((merge K o.simulate j.vars p).sections q.dir).isSome := by
    rw [merge_sections]
    exact hb.present hsim
  rw [hm]
  obtain ⟨-, heq⟩ | ⟨-, heq⟩ := makeImage_cases K o j p
  · rw [heq]
    exact ⟨hpresent, Option.isSome_iff_ne_none.mpr hmerged⟩
  · rw [heq]
    exact ⟨hpresent, Option.isSome_iff_ne_none.mpr hmerged⟩

/-- Then the image is there as well, unless `create_image_*` failed. -/
theorem out_of_buildProfile (hsim : o.simulate = false) (hs : j.vars.supported = true)
    (hok : j.createOk = true) (hret : (buildProfile K o j w).1 = true) :
    ((buildProfile K o j w).2.out j.vars.file).isSome := by
  obtain ⟨hfail, -⟩ | ⟨p, hb, hm⟩ := buildProfile_cases (K := K) o j w hs
  · rw [hfail] at hret
    cases hret
  rw [hm]
  obtain ⟨-, heq⟩ | ⟨hno, heq⟩ := makeImage_cases K o j p
  · rw [heq, Work.setOut_out, Function.update_self]
    obtain ⟨m, -, -, hc⟩ | ⟨hbad, -⟩ := createImage_cases j
      ((merge K o.simulate j.vars p).merged (j.vars.destdir K p.mySections)) (p.work.out j.vars.file)
    · rw [hc]
      rfl
    · exact absurd ⟨hok, merge_ne_none hsim⟩ hbad
  · rw [heq, merge_out, Option.isSome_iff_ne_none]
    exact fun hnone => hno (.inr hnone)

/-- What is ready stays so: no job takes a section or a merged directory away. -/
theorem Ready.buildProfile (h : Ready K v w) : Ready K v (buildProfile K o j w).2 := by
  cases hs : j.vars.supported with
  | false =>
    rw [buildProfile_unsupported o w hs]
    exact h
  | true =>
    have hgrows : ∀ {w'}, Grows w w' → Ready K v w' := fun {w'} hg =>
      ⟨fun q hq => isSome_of_extends hg.sections (h.sections q hq), by
        rw [hg.merged]
        exact h.merged⟩
    obtain ⟨-, hg⟩ | ⟨p, hb, hm⟩ := buildProfile_cases (K := K) o j w hs
    · exact hgrows hg
    have hp : Ready K v p.work := hgrows hb.grows
    have hmerge : Ready K v (merge K o.simulate j.vars p) := by
      refine ⟨by rw [merge_sections]; exact hp.sections, ?_⟩
      obtain ⟨-, heq⟩ | ⟨-, heq⟩ := merge_cases (K := K) o.simulate j.vars p
      · rw [heq, Work.addMerged_merged]
        by_cases hname : v.destdir K (v.dirs K) = j.vars.destdir K p.mySections
        · rw [hname, Function.update_self]
          rfl
        · rw [Function.update_of_ne hname]
          exact hp.merged
      · rw [heq]
        exact hp.merged
    rw [hm]
    obtain ⟨-, heq⟩ | ⟨-, heq⟩ := makeImage_cases K o j p
    · rw [heq]
      exact ⟨hmerge.sections, hmerge.merged⟩
    · rw [heq]
      exact hmerge

end

section
variable {r : Run Dir} {v : Vars} {w w' : Work Dir}

theorem Ready.history (h : Ready K v w) (rs : List (Run Dir)) : Ready K v (history K rs w) :=
  history_invariant (fun _ _ _ _ _ h => h.buildProfile) h

theorem ready_of_buildProfiles {o : Options} {js : List (Job Dir)} (hsim : o.simulate = false)
    (hret : (buildProfiles K o js w).1 = true) :
    ∀ j ∈ js, j.vars.supported = true → Ready K j.vars (buildProfiles K o js w).2 := by
  induction js generalizing w with
  | nil =>
    intro j hj
    cases hj
  | cons j js ih =>
    intro i hi hs
    rw [buildProfiles] at hret ⊢
    split at hret
    next w₁ hj =>
      rcases List.mem_cons.mp hi with rfl | hi
      · have hready := ready_of_buildProfile (w := w) hsim hs (by rw [hj])
        rw [hj] at hready
        exact buildProfiles_invariant (fun _ _ _ h => h.buildProfile) hready
      · exact ih hret i hi hs
    next => cases hret

theorem ready_of_mkimage (hsim : r.options.simulate = false) (h : mkimage K r w = (true, w')) :
    ∀ j ∈ r.jobs, j.vars.supported = true → Ready K j.vars w' := by
  have hall := buildProfiles_of_mkimage h
  have hready : ∀ j ∈ r.jobs, j.vars.supported = true →
      Ready K j.vars (buildProfiles K r.options r.jobs w).2 :=
    ready_of_buildProfiles hsim (by rw [hall])
  rwa [hall] at hready

theorem buildProfiles_eq {o : Options} {js : List (Job Dir)}
    (h : ∀ j ∈ js, j.vars.supported = true → Ready K j.vars w ∧ (w.out j.vars.file).isSome) :
    buildProfiles K o js w = (true, w) := by
  induction js with
  | nil => rfl
  | cons j js ih =>
    have hj : buildProfile K o j w = (true, w) := by
      cases hs : j.vars.supported with
      | false => exact buildProfile_unsupported o w hs
      | true =>
        obtain ⟨hready, hf⟩ := h j List.mem_cons_self hs
        exact hready.buildProfile_eq hs hf
    rw [buildProfiles, hj]
    exact ih fun i hi => h i (List.mem_cons_of_mem j hi)

/-- A run whose package roots can be set up does what its jobs do. -/
theorem mkimage_eq (h : ∀ a ∈ r.archs, a.1 = true) :
    mkimage K r w = buildProfiles K r.options r.jobs w := by
  obtain ⟨o, archs⟩ := r
  rw [mkimage]
  simp only [Run.jobs] at h ⊢
  induction archs generalizing w with
  | nil => rfl
  | cons a archs ih =>
    obtain ⟨ready, js⟩ := a
    obtain rfl : ready = true := h _ List.mem_cons_self
    rw [List.flatMap_cons, buildProfiles_append, buildArchs]
    obtain ⟨b, w₁⟩ := buildProfiles K o js w
    cases b with
    | true => exact ih fun a ha => h a (List.mem_cons_of_mem _ ha)
    | false => rfl

/-- After a run that exits 0, and after whatever runs came since, the same jobs build no section,
merge nothing, and replace no image, whatever their tools are by then. -/
theorem rebuild_supplies {rs : List (Run Dir)} {r' : Run Dir} (hsim : r.options.simulate = false)
    (h : mkimage K r w = (true, w'))
    (hjobs : ∀ j' ∈ r'.jobs, j'.vars.supported = true → ∃ j ∈ r.jobs, j.vars = j'.vars) :
    Supplied (history K rs w') (mkimage K r' (history K rs w')).2 ∧
    ((∀ a ∈ r'.archs, a.1 = true) →
      (∀ j' ∈ r'.jobs, j'.vars.supported = true →
        ((history K rs w').out j'.vars.file).isSome) →
      mkimage K r' (history K rs w') = (true, history K rs w')) := by
  have hready : ∀ j' ∈ r'.jobs, j'.vars.supported = true → Ready K j'.vars (history K rs w') := by
    intro j' hj' hs
    obtain ⟨j, hj, heq⟩ := hjobs j' hj' hs
    rw [← heq] at hs ⊢
    exact (ready_of_mkimage hsim h j hj hs).history rs
  refine ⟨?_, fun harchs hfiles => ?_⟩
  · refine mkimage_invariant (I := fun w₁ => Supplied (history K rs w') w₁)
      (fun j' hj' w₁ hw₁ => ?_) (.refl _)
    cases hs : j'.vars.supported with
    | false =>
      rw [buildProfile_unsupported _ w₁ hs]
      exact hw₁
    | true => exact hw₁.trans ((hready j' hj' hs).supplied hw₁).buildProfile_supplied
  · rw [mkimage_eq harchs]
    exact buildProfiles_eq fun j' hj' hs => ⟨hready j' hj' hs, hfiles j' hj' hs⟩

/-- A simulated run builds no section, merges nothing, and replaces no image, whether it stops early
or not; and no builder can make it fail. -/
theorem simulated_supplies (hsim : r.options.simulate = true) :
    Supplied w (mkimage K r w).2 ∧
    (r.options.yaml = false → (∀ a ∈ r.archs, a.1 = true) → (mkimage K r w).1 = true) := by
  refine ⟨mkimage_invariant (I := fun w₁ => Supplied w w₁)
    (fun _ _ _ hw₁ => hw₁.trans (supplied_simulated hsim)) (.refl w), fun hyaml harchs => ?_⟩
  rw [mkimage_eq harchs]
  induction r.jobs generalizing w with
  | nil => rfl
  | cons j js ih =>
    have hj : (buildProfile K r.options j w).1 = true := returns_simulated hsim hyaml
    rw [buildProfiles]
    split
    next w₁ _ => exact ih
    next w₁ hr =>
      rw [hr] at hj
      cases hj

end

/-! ## The container, run again -/

/-- The run of the container once more, where no command works any longer. -/
def secondRun (simulate : Bool) : Run (List Tool) :=
  ⟨⟨simulate, false⟩, [(true, [{ firstJob true with tools := ⟨fun _ d => (false, d), []⟩ }])]⟩

theorem rebuild_supplies_second : ∃ w, mkimage spelled (firstRun true) emptyWork = (true, w) ∧
    mkimage spelled (secondRun false) w = (true, w) := by
  obtain ⟨w, hj, hw⟩ := mkimage_firstRun true
  have hout := out_of_buildProfile (K := spelled) (o := ⟨false, false⟩) (w := emptyWork)
    (j := firstJob true) rfl rfl rfl (by rw [hj])
  rw [hj] at hout
  have hsame : ∀ j' ∈ (secondRun false).jobs, j'.vars.supported = true →
      ∃ j ∈ (firstRun true).jobs, j.vars = j'.vars := by
    intro j' hj' _
    rw [List.mem_singleton.mp hj']
    exact ⟨firstJob true, List.mem_singleton_self _, rfl⟩
  have hagain : (∀ a ∈ (secondRun false).archs, a.1 = true) →
      (∀ j' ∈ (secondRun false).jobs, j'.vars.supported = true →
        ((history spelled [] w).out j'.vars.file).isSome) →
      mkimage spelled (secondRun false) (history spelled [] w) = (true, history spelled [] w) :=
    (rebuild_supplies rfl hw hsame).2
  refine ⟨w, hw, hagain (fun a ha => ?_) fun j' hj' _ => ?_⟩
  · rw [List.mem_singleton.mp ha]
  · rw [List.mem_singleton.mp hj']
    exact hout

theorem simulated_supplies_second :
    (mkimage spelled (secondRun true) emptyWork).2.sections = emptyWork.sections ∧
    (mkimage spelled (secondRun true) emptyWork).1 = true := by
  obtain ⟨hs, hret⟩ := simulated_supplies (K := spelled) (r := secondRun true) (w := emptyWork) rfl
  exact ⟨hs.sections, hret rfl fun a ha => by rw [List.mem_singleton.mp ha]⟩

end HassioInstaller.Mkimage
