import HassioInstaller.Mkimage.Current

/-! # What the keys of sections leave out

A section found under its key is clean when its builder would make the same now. The key has the
builder, the words it is called with and a checksum. What else the builder reads is listed by
`Unchecked`: two requests with one key make the same if they agree on it and on the words, of which
the key only has the letters and digits. -/

namespace HassioInstaller.Mkimage

/-- What a builder reads besides its words and what its checksum is taken of. -/
inductive Unchecked
  | kernel (modloopSign : Bool) (abuildPubkey modloopfw : String) (repositories : List String)
    (index : String) (bootAddons : List String)
  | apks (RELEASE privkey : String)
  | apkovl (script : Option Overlay) (found : List (Option (List (String × Entry))))
  | grubEfi (grubMod : List String)
  | none

def Vars.unchecked (v : Vars) : Builder → Unchecked
  | .kernel => .kernel (v.modloopSign = "yes") v.abuildPubkey v.modloopfw v.repositories v.index
      v.bootAddons
  | .apks => .apks v.RELEASE v.privkey
  | .apkovl => .apkovl v.script v.found
  | .grubEfi => .grubEfi v.grubMod
  | .syslinux | .syslinuxCfg | .grubCfg => .none

/-- The two requests agree on the builder, its words and what is not checked. -/
structure Agree (v : Vars) (q : Request) (v' : Vars) (q' : Request) : Prop where
  builder : q.builder = q'.builder
  args : q.args = q'.args
  rest : q.rest = q'.rest
  unchecked : v.unchecked q.builder = v'.unchecked q'.builder

/-! ## The requests of a build -/

inductive Requested (K : KeyTools) (v : Vars) : Request → Prop
  | kernel (f : String) : Requested K v (v.requestKernel K f)
  | apks : Requested K v (v.requestApks K)
  | apkovl : Requested K v (v.requestApkovl K)
  | syslinux : Requested K v (v.requestSyslinux K)
  | syslinuxCfg : v.syslinuxCfg ≠ "" → Requested K v (v.requestSyslinuxCfg K)
  /-- The command line of the kernel has been changed on `ppc64le`. -/
  | grubCfg (cmdline : String) :
    Requested K v (Vars.requestGrubCfg K { v with kernelCmdline := cmdline })
  | grubEfi (format efi : String) : Requested K v (v.requestGrubEfi K format efi)

variable {K : KeyTools} {v v' : Vars} {q q' : Request}

theorem requested_of_mem (h : q ∈ v.requests K) : Requested K v q := by
  simp only [Vars.requests, Vars.allSections, List.flatten_cons, List.flatten_nil, List.append_nil,
    List.mem_append] at h
  rcases h with h | h | h | h | h | h | h
  · obtain ⟨f, -, rfl⟩ := List.mem_map.mp h
    exact .kernel f
  · rw [Vars.sectionApks] at h
    split at h
    · cases h
    · rw [List.mem_singleton.mp h]
      exact .apks
  · rw [Vars.sectionApkovl] at h
    split at h
    · cases h
    · rw [List.mem_singleton.mp h]
      exact .apkovl
  · rw [Vars.sectionSyslinux] at h
    split at h
    · cases h
    · rw [List.mem_singleton.mp h]
      exact .syslinux
  · rw [Vars.sectionSyslinuxCfg] at h
    split at h
    · cases h
    next hne =>
      rw [List.mem_singleton.mp h]
      exact .syslinuxCfg hne
  · rw [Vars.sectionGrubieee1275] at h
    split at h
    · cases h
    · rw [List.mem_singleton.mp h]
      exact .grubCfg _
  · rw [Vars.sectionGrubEfi] at h
    split at h
    · split at h
      · cases h
      · rcases List.mem_cons.mp h with h | h
        · rw [h]
          exact .grubCfg v.kernelCmdline
        · rw [List.mem_singleton.mp h]
          exact .grubEfi _ _
    · cases h

/-! ## From the key to what is built -/

theorem joined_append (ws ws' : List String) : joined (ws ++ ws') = joined ws ++ joined ws' :=
  List.flatMap_append

theorem map_sanitize {s : String} (h : ∀ c ∈ s.toList, c.isAlphanum) :
    s.toList.map sanitize = s.toList := by
  have hid : ∀ c ∈ s.toList, sanitize c = id c := fun c hc => if_pos (h c hc)
  rw [List.map_congr_left hid, List.map_id]

/-- The checksum can be read off a key whose other words are known. -/
theorem id_of_dir (hb : q.builder = q'.builder) (ha : q.args = q'.args) (hr : q.rest = q'.rest)
    (hid : ∀ i ∈ q.id, ∀ c ∈ i.toList, c.isAlphanum)
    (hid' : ∀ i ∈ q'.id, ∀ c ∈ i.toList, c.isAlphanum)
    (h : q.dir = q'.dir) : q.id = q'.id := by
  have hl : (joined q.id.toList).map sanitize = (joined q'.id.toList).map sanitize := by
    have := congrArg String.toList h
    simp only [Request.dir_toList, hb, ha, hr, joined_append, List.map_append] at this
    exact List.append_cancel_right (List.append_cancel_left (List.append_cancel_left
      (by simpa only [List.append_assoc] using this)))
  cases hi : q.id with
  | none =>
    cases hi' : q'.id with
    | none => rfl
    | some i' => rw [hi, hi'] at hl; cases hl
  | some i =>
    cases hi' : q'.id with
    | none => rw [hi, hi'] at hl; cases hl
    | some i' =>
      rw [hi, hi'] at hl
      simp only [joined, Option.toList_some, List.flatMap_cons, List.flatMap_nil, List.append_nil,
        List.map_cons, List.cons.injEq] at hl
      rw [map_sanitize (hid i hi), map_sanitize (hid' i' hi')] at hl
      rw [String.toList_injective hl.2]

theorem Requested.hex (hK : K.Sound) (h : Requested K v q) :
    ∀ i ∈ q.id, ∀ c ∈ i.toList, c.isAlphanum := by
  cases h with
  | apkovl =>
    intro i hi
    obtain ⟨o, -, rfl⟩ := Option.map_eq_some_iff.mp hi
    exact hK.hexScript o
  | _ =>
    intro i hi
    cases hi
    exact hK.hex _

theorem kernelId_inj {f f' : String} (h : v.kernelId K f = v'.kernelId K f') :
    v.initfsFeatures = v'.initfsFeatures ∧ v.hostkeys = v'.hostkeys := by
  have hl := congrArg String.toList (List.cons.inj h).1
  simp only [String.toList_append, List.append_assoc] at hl
  cases hk : v.hostkeys <;> cases hk' : v'.hostkeys
  · rw [hk, hk'] at hl
    exact ⟨String.toList_injective (List.append_cancel_right hl), rfl⟩
  · rw [hk, hk'] at hl
    have := congrArg List.getLast? hl
    simp at this
  · rw [hk, hk'] at hl
    have := congrArg List.getLast? hl
    simp at this
  · rw [hk, hk'] at hl
    exact ⟨String.toList_injective (List.append_cancel_right hl), rfl⟩

/-- Requests with one key that agree on the rest have the same builder run the same commands. -/
theorem body_of_agree (hK : K.Sound) (hq : Requested K v q) (hq' : Requested K v' q')
    (hdir : q.dir = q'.dir) (h : Agree v q v' q') : q.body = q'.body := by
  obtain ⟨hb, ha, hr, hu⟩ := h
  have hid := id_of_dir hb ha hr (hq.hex hK) (hq'.hex hK) hdir
  cases hq with
  | kernel f =>
    cases hq' <;> cases hb
    obtain ⟨hfeat, hkeys⟩ := kernelId_inj (hK.injective (Option.some.inj hid))
    simp only [Vars.requestKernel, List.cons.injEq, and_true] at ha hr
    simp only [Vars.unchecked, Vars.requestKernel, Unchecked.kernel.injEq] at hu
    obtain ⟨hsign, hpub, hfw, hrepo, hindex, hadd⟩ := hu
    obtain ⟨harch, rfl⟩ := ha
    simp only [Vars.requestKernel, Vars.buildKernel, hfeat, hkeys, harch, hr, hsign, hpub, hfw,
      hrepo, hindex, hadd]
  | apks =>
    cases hq' <;> cases hb
    have hlist := hK.injective (Option.some.inj hid)
    simp only [Vars.requestApks, List.cons.injEq, and_true] at ha
    simp only [Vars.unchecked, Vars.requestApks, Unchecked.apks.injEq] at hu
    simp only [Vars.requestApks, Vars.buildApks, hlist, ha, hu]
  | apkovl =>
    cases hq' <;> cases hb
    simp only [Vars.requestApkovl, List.cons.injEq, and_true] at ha
    simp only [Vars.unchecked, Vars.requestApkovl, Unchecked.apkovl.injEq] at hu
    simp only [Vars.requestApkovl, Vars.buildApkovl, ha, hu]
  | syslinux =>
    cases hq' <;> cases hb
    have hlist := hK.injective (Option.some.inj hid)
    simp only [Vars.requestSyslinux, Vars.buildSyslinux, hlist]
  | syslinuxCfg _ =>
    cases hq' <;> cases hb
    have hcfg := hK.injective (Option.some.inj hid)
    simp only [Vars.requestSyslinuxCfg, List.cons.injEq, and_true] at ha
    simp only [Vars.requestSyslinuxCfg, Vars.buildSyslinuxCfg, hcfg, ha]
  | grubCfg c =>
    cases hq' <;> cases hb
    have hcfg := hK.injective (Option.some.inj hid)
    simp only [Vars.requestGrubCfg, Vars.buildGrubCfg, hcfg]
  | grubEfi format efi =>
    cases hq' <;> cases hb
    have hcfg := hK.injective (Option.some.inj hid)
    simp only [Vars.requestGrubEfi, List.cons.injEq, and_true] at ha
    simp only [Vars.unchecked, Vars.requestGrubEfi, Unchecked.grubEfi.injEq] at hu
    simp only [Vars.requestGrubEfi, Vars.buildGrubEfi, hcfg, ha, hu]

/-! ## From what is run to what is read -/

/-- What a builder runs when all goes well. -/
def Request.tools (q : Request) : List Tool := q.body.filterMap Step.tool

/-- The builder by what it runs first. -/
def builderOf : List Tool → Option Builder
  | .updateKernel _ :: _ => some .kernel
  | .fakeroot .. :: _ => some .apkovl
  | .mkdir _ :: .fetchApks .. :: _ => some .apks
  | .mkdir _ :: .fetchSyslinux _ :: _ => some .syslinux
  | .mkdir _ :: .write path _ :: _ =>
    some (if path = "boot/grub/grub.cfg" then .grubCfg else .syslinuxCfg)
  | .mkdir _ :: .grubMkimage .. :: _ => some .grubEfi
  | _ => none

theorem syslinuxCfg_ne_grubCfg : v.syslinuxCfg ≠ "boot/grub/grub.cfg" := by
  rw [Vars.syslinuxCfg]
  split
  · decide
  · split <;> decide

theorem Requested.builderOf_tools (h : Requested K v q) : builderOf q.tools = some q.builder := by
  cases h with
  | syslinuxCfg _ => exact congrArg some (if_neg syslinuxCfg_ne_grubCfg)
  | _ => rfl

theorem tools_kernel (f : String) : (v.requestKernel K f).tools =
    .updateKernel {
      hostkeys := v.hostkeys
      apkPubkey := v.abuildPubkey
      modloopsign := v.modloopSign = "yes"
      flavor := f
      arch := v.ARCH
      package := v.kernelPkgs f
      feature := v.initfsFeatures
      modloopfw := v.modloopfw
      repositories := v.repositories
      index := v.index } :: v.bootAddons.map (.fetchBoot v.index) := by
  simp only [Request.tools, Vars.requestKernel, Vars.buildKernel]
  rw [List.filterMap_cons_some (f := Step.tool) rfl]
  congr 1
  split
  next h =>
    rw [h]
    rfl
  next =>
    rw [List.filterMap_map]
    exact congrFun List.filterMap_eq_map' v.bootAddons

/-- What is run tells the builder, its words and what is not checked. -/
theorem agree_of_tools (hq : Requested K v q) (hq' : Requested K v' q') (h : q.tools = q'.tools) :
    Agree v q v' q' := by
  have hb : q.builder = q'.builder :=
    Option.some.inj (hq.builderOf_tools.symm.trans (h ▸ hq'.builderOf_tools))
  cases hq with
  | kernel f =>
    cases hq' <;> cases hb
    simp only [tools_kernel, List.cons.injEq, Tool.updateKernel.injEq, UpdateKernel.mk.injEq] at h
    obtain ⟨⟨-, hpub, hsign, hflavor, harch, hpkgs, -, hfw, hrepo, hindex⟩, hadd⟩ := h
    have hfetch : Function.Injective (Tool.fetchBoot v'.index) :=
      fun _ _ h => (Tool.fetchBoot.inj h).2
    rw [hindex] at hadd
    refine ⟨rfl, ?_, hpkgs, ?_⟩
    · simp only [Vars.requestKernel, harch, hflavor]
    · simp only [Vars.requestKernel, Vars.unchecked, hsign, hpub, hfw, hrepo, hindex,
        List.map_injective_iff.mpr hfetch hadd]
  | apks =>
    cases hq' <;> cases hb
    have hindex := (List.cons.inj (List.cons.inj (List.cons.inj (List.cons.inj h).2).2).2)
    obtain ⟨hrel, harch, -⟩ := Tool.apkIndex.inj hindex.1
    have hkey := (Tool.abuildSign.inj (List.cons.inj hindex.2).1).1
    refine ⟨rfl, ?_, rfl, ?_⟩
    · simp only [Vars.requestApks, harch]
    · simp only [Vars.requestApks, Vars.unchecked, hrel, hkey]
  | apkovl =>
    cases hq' <;> cases hb
    obtain ⟨hscript, hhost, hfound⟩ := Tool.fakeroot.inj (List.cons.inj h).1
    refine ⟨rfl, ?_, rfl, ?_⟩
    · simp only [Vars.requestApkovl, hhost]
    · simp only [Vars.requestApkovl, Vars.unchecked, hscript, hfound]
  | syslinux =>
    cases hq' <;> cases hb
    exact ⟨rfl, rfl, rfl, rfl⟩
  | syslinuxCfg _ =>
    cases hq' <;> cases hb
    have hpath := (Tool.write.inj (List.cons.inj (List.cons.inj h).2).1).1
    refine ⟨rfl, ?_, rfl, rfl⟩
    simp only [Vars.requestSyslinuxCfg, hpath]
  | grubCfg c =>
    cases hq' <;> cases hb
    exact ⟨rfl, rfl, rfl, rfl⟩
  | grubEfi format efi =>
    cases hq' <;> cases hb
    obtain ⟨-, hefi, hformat, hmod⟩ := Tool.grubMkimage.inj (List.cons.inj (List.cons.inj h).2).1
    have hefi : efi = _ := String.toList_injective
      (List.append_cancel_left (by simpa only [String.toList_append] using congrArg String.toList hefi))
    refine ⟨rfl, ?_, rfl, ?_⟩
    · simp only [Vars.requestGrubEfi, hformat, hefi]
    · simp only [Vars.requestGrubEfi, Vars.unchecked, hmod]

/-! ## Calls of `build_section` -/

section
variable {Dir : Type*}

/-- The calls in a `section_*` function, each with what it finds on disk. -/
def sectionCalls (simulate : Bool) (T : Tools Dir) :
    List Request → Progress Dir → List (Request × Work Dir)
  | [], _ => []
  | q :: qs, p => (q, p.work) :: sectionCalls simulate T qs (buildSection simulate T q p).2

def sectionsCalls (simulate : Bool) (T : Tools Dir) :
    List (List Request) → Progress Dir → List (Request × Work Dir)
  | [], _ => []
  | qs :: ss, p => sectionCalls simulate T qs p ++
    match runSection simulate T qs p with
    | (true, p) => sectionsCalls simulate T ss p
    | (false, _) => []

def Job.calls (K : KeyTools) (o : Options) (j : Job Dir) (w : Work Dir) : List (Request × Work Dir) :=
  if j.vars.supported then
    sectionsCalls o.simulate j.tools (j.vars.allSections K) ⟨w, false, false, []⟩
  else []

def jobsCalls (K : KeyTools) (o : Options) :
    List (Job Dir) → Work Dir → List (Request × Work Dir)
  | [], _ => []
  | j :: js, w => j.calls K o w ++
    match buildProfile K o j w with
    | (true, w) => jobsCalls K o js w
    | (false, _) => []

def archsCalls (K : KeyTools) (o : Options) :
    List (Bool × List (Job Dir)) → Work Dir → List (Request × Work Dir)
  | [], _ => []
  | (false, _) :: _, _ => []
  | (true, js) :: archs, w => jobsCalls K o js w ++
    match buildProfiles K o js w with
    | (true, w) => archsCalls K o archs w
    | (false, _) => []

/-- The calls of `build_section` in a run. -/
def Run.calls (K : KeyTools) (r : Run Dir) (w : Work Dir) : List (Request × Work Dir) :=
  archsCalls K r.options r.archs w

variable {I : Work Dir → Prop} {T : Tools Dir} {simulate : Bool} {o : Options} {w : Work Dir}

/-- What every call keeps, every call finds. -/
theorem sectionCalls_forall {qs : List Request} {p : Progress Dir}
    (h : ∀ q ∈ qs, ∀ p : Progress Dir, I p.work → I (buildSection simulate T q p).2.work)
    (hp : I p.work) : ∀ c ∈ sectionCalls simulate T qs p, c.1 ∈ qs ∧ I c.2 := by
  induction qs generalizing p with
  | nil => intro c hc; cases hc
  | cons q qs ih =>
    intro c hc
    rcases List.mem_cons.mp hc with rfl | hc
    · exact ⟨List.mem_cons_self, hp⟩
    · obtain ⟨hq, hI⟩ := ih (fun q' hq' => h q' (List.mem_cons_of_mem q hq'))
        (h q List.mem_cons_self p hp) c hc
      exact ⟨List.mem_cons_of_mem q hq, hI⟩

theorem sectionsCalls_forall {ss : List (List Request)} {p : Progress Dir}
    (h : ∀ q ∈ ss.flatten, ∀ p : Progress Dir, I p.work → I (buildSection simulate T q p).2.work)
    (hp : I p.work) : ∀ c ∈ sectionsCalls simulate T ss p, c.1 ∈ ss.flatten ∧ I c.2 := by
  induction ss generalizing p with
  | nil => intro c hc; cases hc
  | cons qs ss ih =>
    intro c hc
    have hqs : ∀ q ∈ qs, ∀ p : Progress Dir, I p.work → I (buildSection simulate T q p).2.work :=
      fun q hq => h q (List.mem_append_left _ hq)
    rcases List.mem_append.mp hc with hc | hc
    · obtain ⟨hq, hI⟩ := sectionCalls_forall hqs hp c hc
      exact ⟨List.mem_append_left _ hq, hI⟩
    have hrun : I (runSection simulate T qs p).2.work := runSection_invariant hqs hp
    split at hc
    next p₁ hr =>
      rw [hr] at hrun
      obtain ⟨hq, hI⟩ := ih (fun q hq => h q (List.mem_append_right _ hq)) hrun c hc
      exact ⟨List.mem_append_right _ hq, hI⟩
    next => cases hc

theorem makeImage_sections (j : Job Dir) (p : Progress Dir) :
    (makeImage K o j p).2.sections = p.work.sections := by
  obtain ⟨-, h⟩ | ⟨-, h⟩ := makeImage_cases K o j p
  · rw [h, Work.setOut_sections, merge_sections]
  · rw [h, merge_sections]

/-- A job changes the sections as `build_section` does. -/
theorem buildProfile_sections {J : Memo.Store String Dir → Prop} {j : Job Dir}
    (h : j.vars.supported = true → ∀ q ∈ j.vars.requests K, ∀ p : Progress Dir,
      J p.work.sections → J (buildSection o.simulate j.tools q p).2.work.sections)
    (hw : J w.sections) : J (buildProfile K o j w).2.sections := by
  cases hs : j.vars.supported with
  | false => rwa [buildProfile_unsupported o w hs]
  | true =>
    have hrun : J (runSections o.simulate j.tools (j.vars.allSections K)
        ⟨w, false, false, []⟩).2.work.sections :=
      runSections_invariant (I := fun w => J w.sections) (h hs) hw
    rw [buildProfile, hs]
    simp only [Bool.not_true, Bool.false_eq_true, if_false]
    split
    next p hr =>
      rwa [hr] at hrun
    next p hr =>
      rw [hr] at hrun
      split
      · exact hrun
      · rwa [makeImage_sections]

section
variable {J : Memo.Store String Dir → Prop}

/-- The jobs of `js` keep `J`, as far as sections go. -/
def Keeps (K : KeyTools) (o : Options) (J : Memo.Store String Dir → Prop) (j : Job Dir) : Prop :=
  j.vars.supported = true → ∀ q ∈ j.vars.requests K, ∀ p : Progress Dir,
    J p.work.sections → J (buildSection o.simulate j.tools q p).2.work.sections

/-- The request of a call is one of the jobs', and the call finds what they keep. -/
def Finds (K : KeyTools) (J : Memo.Store String Dir → Prop) (js : List (Job Dir))
    (c : Request × Work Dir) : Prop :=
  (∃ j ∈ js, j.vars.supported = true ∧ c.1 ∈ j.vars.requests K) ∧ J c.2.sections

theorem Finds.mono {js js' : List (Job Dir)} {c : Request × Work Dir} (h : Finds K J js c)
    (hsub : ∀ j ∈ js, j ∈ js') : Finds K J js' c := by
  obtain ⟨⟨j, hj, hs, hc⟩, hJ⟩ := h
  exact ⟨⟨j, hsub j hj, hs, hc⟩, hJ⟩

theorem jobsCalls_forall {js : List (Job Dir)} (h : ∀ j ∈ js, Keeps K o J j) (hw : J w.sections) :
    ∀ c ∈ jobsCalls K o js w, Finds K J js c := by
  induction js generalizing w with
  | nil => intro c hc; cases hc
  | cons j js ih =>
    intro c hc
    have hj : Keeps K o J j := h j List.mem_cons_self
    rcases List.mem_append.mp hc with hc | hc
    · rw [Job.calls] at hc
      split at hc
      next hs =>
        obtain ⟨hq, hJ⟩ := sectionsCalls_forall (I := fun w => J w.sections) (hj hs) hw c hc
        exact ⟨⟨j, List.mem_cons_self, hs, hq⟩, hJ⟩
      next => cases hc
    · have hnext : J (buildProfile K o j w).2.sections := buildProfile_sections hj hw
      split at hc
      next w₁ hr =>
        rw [hr] at hnext
        exact (ih (fun j' hj' => h j' (List.mem_cons_of_mem j hj')) hnext c hc).mono
          fun j' hj' => List.mem_cons_of_mem j hj'
      next => cases hc

theorem calls_forall {r : Run Dir} (h : ∀ j ∈ r.jobs, Keeps K r.options J j) (hw : J w.sections) :
    ∀ c ∈ r.calls K w, Finds K J r.jobs c := by
  obtain ⟨o, archs⟩ := r
  simp only [Run.jobs, Run.calls] at h ⊢
  induction archs generalizing w with
  | nil => intro c hc; cases hc
  | cons a archs ih =>
    obtain ⟨ready, js⟩ := a
    intro c hc
    have hjs : ∀ j ∈ js, Keeps K o J j := fun j hj => h j (List.mem_append_left _ hj)
    cases ready with
    | false => cases hc
    | true =>
      rcases List.mem_append.mp hc with hc | hc
      · exact (jobsCalls_forall hjs hw c hc).mono fun j hj => List.mem_append_left _ hj
      · have hnext : J (buildProfiles K o js w).2.sections :=
          buildProfiles_invariant (I := fun w => J w.sections)
            (fun j hj _ hw => buildProfile_sections (hjs j hj) hw) hw
        split at hc
        next w₁ hr =>
          rw [hr] at hnext
          exact (ih hnext (fun j hj => h j (List.mem_append_right _ hj)) c hc).mono
            fun j hj => List.mem_append_right _ hj
        next => cases hc

theorem history_sections {rs : List (Run Dir)} (h : ∀ r ∈ rs, ∀ j ∈ r.jobs, Keeps K r.options J j)
    (hw : J w.sections) : J (history K rs w).sections :=
  history_invariant (I := fun w => J w.sections)
    (fun r hr j hj _ hw => buildProfile_sections (h r hr j hj) hw) hw

end

/-- When builders succeed every request is called for, and finds at least what was there. -/
theorem mem_sectionCalls {qs : List Request} {p : Progress Dir} (hq : q ∈ qs) :
    ∃ w, (q, w) ∈ sectionCalls simulate T qs p ∧ Memo.Extends p.work.sections w.sections := by
  induction qs generalizing p with
  | nil => cases hq
  | cons q' qs ih =>
    rcases List.mem_cons.mp hq with rfl | hq
    · exact ⟨p.work, List.mem_cons_self, .refl _⟩
    · obtain ⟨w, hw, hext⟩ := ih (p := (buildSection simulate T q' p).2) hq
      exact ⟨w, List.mem_cons_of_mem _ hw, (grows_buildSection q' p).sections.trans hext⟩

theorem mem_sectionsCalls {ss : List (List Request)} {p : Progress Dir}
    (h : ∀ q ∈ ss.flatten, (T.build q).isSome) (hf : p.fail = false) (hq : q ∈ ss.flatten) :
    ∃ w, (q, w) ∈ sectionsCalls simulate T ss p ∧ Memo.Extends p.work.sections w.sections := by
  induction ss generalizing p with
  | nil => cases hq
  | cons qs ss ih =>
    rw [sectionsCalls]
    rcases List.mem_append.mp hq with hq | hq
    · obtain ⟨w, hw, hext⟩ := mem_sectionCalls (p := p) (T := T) hq
      exact ⟨w, List.mem_append_left _ hw, hext⟩
    obtain ⟨hret, hf'⟩ : (runSection simulate T qs p).1 = true ∧
        (runSection simulate T qs p).2.fail = false :=
      runSection_returns (fun q hq => h q (List.mem_append_left _ hq)) hf
    have hgrows : Grows p.work (runSection simulate T qs p).2.work :=
      runSection_invariant (I := Grows p.work) (fun q _ _ h => h.trans (grows_buildSection q _))
        (.refl _)
    obtain ⟨w, hw, hext⟩ := ih (fun q hq => h q (List.mem_append_right _ hq)) hf' hq
    refine ⟨w, List.mem_append_right _ ?_, hgrows.sections.trans hext⟩
    split
    next p₁ hr => rwa [hr] at hw
    next p₁ hr =>
      rw [hr] at hret
      cases hret

end

/-! ## Histories -/

/-- What may be asked for by a build of a profile it supports, with variables from `S`. -/
def asked (K : KeyTools) (S : Set Vars) : Set Request :=
  { q | ∃ v ∈ S, v.supported = true ∧ q ∈ v.requests K }

/-- A run with the tools `T` and variables from `S`. -/
def Run.Within (T : Tools Dir) (S : Set Vars) (r : Run Dir) : Prop :=
  ∀ j ∈ r.jobs, j.tools = T ∧ j.vars ∈ S

theorem Run.Within.keeps {r : Run Dir} {T : Tools Dir} (h : r.Within T S) :
    ∀ j ∈ r.jobs, Keeps K r.options (Memo.BuiltFrom Request.dir T.build (asked K S)) j := by
  intro j hj hs q hq p hp
  obtain ⟨rfl, hv⟩ := h j hj
  cases hsim : r.options.simulate with
  | true => rwa [buildSection_simulate]
  | false =>
    rw [buildSection_sections]
    exact hp.visit ⟨j.vars, hv, hs, hq⟩

/-- One build of a profile. -/
def singleRun (T : Tools Dir) (v : Vars) : Run Dir :=
  ⟨⟨false, false⟩, [(true, [⟨v, T, true, .nothing, true⟩])]⟩

theorem singleRun_within {T : Tools Dir} (hv : v ∈ S) : (singleRun T v).Within T S := by
  intro j hj
  rw [List.mem_singleton.mp hj]
  exact ⟨rfl, hv⟩

section
variable {T : Tools Dir} (hT : ∀ q ∈ v.requests K, (T.build q).isSome) (hs : v.supported = true)
include hT hs

theorem mem_singleRun_calls (hq : q ∈ v.requests K) (w : Work Dir) :
    ∃ w', (q, w') ∈ (singleRun T v).calls K w ∧ Memo.Extends w.sections w'.sections := by
  obtain ⟨w', hw', hext⟩ : ∃ w', (q, w') ∈ sectionsCalls false T (v.allSections K)
      ⟨w, false, false, []⟩ ∧ Memo.Extends w.sections w'.sections :=
    mem_sectionsCalls hT rfl hq
  refine ⟨w', List.mem_append_left _ (List.mem_append_left _ ?_), hext⟩
  rwa [Job.calls, if_pos hs]

theorem singleRun_present (hq : q ∈ v.requests K) (w : Work Dir) :
    ((history K [singleRun T v] w).sections q.dir).isSome := by
  show ((mkimage K (singleRun T v) w).2.sections q.dir).isSome
  rw [singleRun, mkimage_single]
  have hret : (buildProfile K ⟨false, false⟩ ⟨v, T, true, .nothing, true⟩ w).1 = true :=
    buildProfile_returns w hT rfl
  obtain ⟨hfail, -⟩ | ⟨p, hb, hm⟩ := buildProfile_cases (K := K) ⟨false, false⟩
    (⟨v, T, true, .nothing, true⟩ : Job Dir) w hs
  · rw [hret] at hfail
    cases hfail
  · rw [hm, makeImage_sections]
    exact hb.present rfl q hq

end

/-- Every section on disk was built by a request of the runs so far. -/
theorem history_builtFrom {T : Tools Dir} {w₀ : Work Dir} {rs : List (Run Dir)} (h₀ : w₀.Fresh)
    (h : ∀ r ∈ rs, r.Within T S) :
    Memo.BuiltFrom Request.dir T.build (asked K S) (history K rs w₀).sections := by
  refine history_sections (fun r hr => (h r hr).keeps) ?_
  rw [h₀.sections]
  exact fun _ _ h => by cases h

/-- Sections found in the cache are clean in every history over `S`, whatever the tools, exactly
when requests with one key agree on what the checksum leaves out. -/
theorem cached_clean_iff (hK : K.Sound) (S : Set Vars) :
    (∀ (Dir : Type) (T : Tools Dir) (w₀ : Work Dir) (rs : List (Run Dir)) (r : Run Dir), w₀.Fresh →
      (∀ r' ∈ rs, r'.Within T S) → r.Within T S →
      ∀ c ∈ r.calls K (history K rs w₀), Memo.Clean Request.dir T.build c.2.sections c.1) ↔
    ∀ v ∈ S, ∀ v' ∈ S, v.supported = true → v'.supported = true →
      ∀ q ∈ v.requests K, ∀ q' ∈ v'.requests K, q.dir = q'.dir → Agree v q v' q' := by
  constructor
  · intro h v hv v' hv' hs hs' q hq q' hq' hdir
    have hT : ∀ v : Vars, ∀ q ∈ v.requests K, (logged.build q).isSome := fun _ q _ => by
      rw [logged_build]
      rfl
    have hclean : ∀ v' ∈ S,
        ∀ c ∈ (singleRun logged v').calls K (history K [singleRun logged v] emptyWork),
        Memo.Clean Request.dir logged.build c.2.sections c.1 := fun v' hv' =>
      h _ logged emptyWork [singleRun logged v] (singleRun logged v') emptyWork_fresh
        (fun r hr => List.mem_singleton.mp hr ▸ singleRun_within hv) (singleRun_within hv')
    obtain ⟨c, hc⟩ := Option.isSome_iff_exists.mp (singleRun_present (hT v) hs hq emptyWork)
    -- the section is on disk, and both profiles ask for it again
    obtain ⟨w, hw, hext⟩ := mem_singleRun_calls (hT v) hs hq _
    obtain ⟨w', hw', hext'⟩ := mem_singleRun_calls (hT v') hs' hq' _
    have hbuild := (hclean v hv _ hw).build_eq (hclean v' hv' _ hw') (hext _ _ hc)
      (hdir ▸ hext' _ _ hc)
    rw [logged_build, logged_build] at hbuild
    exact agree_of_tools (requested_of_mem hq) (requested_of_mem hq') (Option.some.inj hbuild)
  · intro h Dir T w₀ rs r h₀ hrs hr c hc
    obtain ⟨⟨j, hj, hs, hq⟩, hJ⟩ :=
      calls_forall (hr.keeps (K := K)) (history_builtFrom h₀ hrs) c hc
    apply Memo.BuiltFrom.clean hJ
    rintro q ⟨v, hv, hsv, hqv⟩ hdir
    have hagree := h v hv j.vars (hr j hj).2 hsv hs q hqv c.1 hq hdir
    have hbody := body_of_agree hK (requested_of_mem hqv) (requested_of_mem hq) hdir hagree
    rw [Tools.build, Tools.build, hbody]

/-- A profile that has an overlay and nothing else. -/
def overlayOnly (release : String) : Vars :=
  { container "#!/bin/bash" with
    RELEASE := release
    arch := ["x86_64"]
    apkovl := "genapkovl-hassio-installer.sh"
    hostname := "hassio-installer" }

theorem requests_overlayOnly (release : String) :
    (overlayOnly release).requests spelled = [(overlayOnly release).requestApkovl spelled] := by
  simp [Vars.requests, Vars.allSections, Vars.sectionKernels, Vars.sectionApks, Vars.sectionApkovl,
    Vars.sectionSyslinux, Vars.sectionSyslinuxCfg, Vars.syslinuxCfg, Vars.sectionGrubieee1275,
    Vars.sectionGrubEfi, Vars.efiTarget, overlayOnly, container]

/-- The overlay of the first release is rightly taken from the cache for the second. -/
theorem cached_clean_iff_overlay :
    ∃ w, ((overlayOnly "1.3").requestApkovl spelled, w) ∈
        (singleRun logged (overlayOnly "1.3")).calls spelled
          (history spelled [singleRun logged (overlayOnly "1.2")] emptyWork) ∧
      Memo.Clean Request.dir logged.build w.sections ((overlayOnly "1.3").requestApkovl spelled) := by
  have hmem : ∀ release, overlayOnly release ∈ Set.range overlayOnly := fun release => ⟨release, rfl⟩
  have hq : (overlayOnly "1.3").requestApkovl spelled ∈ (overlayOnly "1.3").requests spelled := by
    rw [requests_overlayOnly]
    exact List.mem_singleton_self _
  have hT : ∀ q ∈ (overlayOnly "1.3").requests spelled, (logged.build q).isSome := fun q _ => by
    rw [logged_build]
    rfl
  obtain ⟨w, hw, -⟩ := mem_singleRun_calls hT rfl hq _
  refine ⟨w, hw, (cached_clean_iff spelled_sound (Set.range overlayOnly)).mpr ?_ _ logged emptyWork
    [singleRun logged (overlayOnly "1.2")] (singleRun logged (overlayOnly "1.3")) emptyWork_fresh
    (fun r hr => List.mem_singleton.mp hr ▸ singleRun_within (hmem _)) (singleRun_within (hmem _))
    _ hw⟩
  rintro _ ⟨release, rfl⟩ _ ⟨release', rfl⟩ - - q hq q' hq' -
  rw [requests_overlayOnly] at hq hq'
  rw [List.mem_singleton.mp hq, List.mem_singleton.mp hq']
  exact ⟨rfl, rfl, rfl, rfl⟩

/-! ## An edited installer -/

/-- A file of a section: what an external command was run with, or the packed overlay. -/
inductive Made
  | ran (t : Tool)
  | archive (name : String) (files : Archive)

/-- External commands succeed, and the overlay script is run. -/
def staged : Tools (List Made) where
  exec t d :=
    match t with
    | .fakeroot script host found =>
      match script.bind fun s => s.run host found fun _ => none with
      | some files => (true, d ++ [.archive (host ++ ".apkovl.tar.gz") files])
      | none => (false, d)
    | t => (true, d ++ [.ran t])
  empty := []

theorem staged_body {body : List Step} (d : List Made)
    (h : ∀ t ∈ body.filterMap Step.tool, ∀ s host found, t ≠ .fakeroot s host found) :
    staged.body body (true, d) = (true, d ++ (body.filterMap Step.tool).map .ran) := by
  induction body generalizing d with
  | nil => rw [List.filterMap_nil, List.map_nil, List.append_nil]; rfl
  | cons s body ih =>
    have hran : ∀ t : Tool, (∀ s host found, t ≠ .fakeroot s host found) →
        staged.exec t d = (true, d ++ [.ran t]) := by
      intro t ht
      cases t <;> first | rfl | exact absurd rfl (ht _ _ _)
    cases s with
    | skip => exact ih d h
    | run t =>
      rw [List.filterMap_cons_some (f := Step.tool) (b := t) rfl] at h ⊢
      rw [List.map_cons, List.append_cons, ← ih _ fun t ht => h t (List.mem_cons_of_mem _ ht)]
      rw [Tools.body, hran t (h t List.mem_cons_self)]
    | orReturn t =>
      rw [List.filterMap_cons_some (f := Step.tool) (b := t) rfl] at h ⊢
      rw [List.map_cons, List.append_cons, ← ih _ fun t ht => h t (List.mem_cons_of_mem _ ht)]
      rw [Tools.body, hran t (h t List.mem_cons_self)]

/-- Only the overlay has an archive in it. -/
theorem staged_build (h : Requested K v q) (hb : q.builder ≠ .apkovl) :
    staged.build q = some (q.tools.map .ran) := by
  have hno : ∀ t ∈ q.tools, ∀ s host found, t ≠ .fakeroot s host found := by
    cases h with
    | apkovl => exact absurd rfl hb
    | kernel f =>
      rw [tools_kernel]
      intro t ht
      rcases List.mem_cons.mp ht with rfl | ht
      · nofun
      · obtain ⟨a, -, rfl⟩ := List.mem_map.mp ht
        nofun
    | _ =>
      simp [Request.tools, Vars.requestApks, Vars.buildApks, Vars.requestSyslinux,
        Vars.buildSyslinux, Vars.requestSyslinuxCfg, Vars.buildSyslinuxCfg, Vars.requestGrubCfg,
        Vars.buildGrubCfg, Vars.buildCfg, Vars.requestGrubEfi, Vars.buildGrubEfi, Step.tool]
  rw [Tools.build, staged_body _ hno]
  rfl

/-- The build of the repository with the given installer. -/
def shipped (installer : String) : Vars := profileHassioInstaller (container installer)

theorem overlay_installer (installer : String) : ∃ files,
    staged.build ((shipped installer).requestApkovl spelled) =
      some [.archive "hassio-installer.apkovl.tar.gz" files] ∧
      files "installer.sh" = some (.file "0755" installer) :=
  ⟨_, rfl, rfl⟩

theorem staged_succeeds (installer : String) :
    ∀ q ∈ (shipped installer).requests spelled, (staged.build q).isSome := by
  intro q hq
  have hreq := requested_of_mem hq
  by_cases hb : q.builder = .apkovl
  · cases hreq <;> cases hb
    obtain ⟨files, hbuild, -⟩ := overlay_installer installer
    rw [hbuild]
    rfl
  · rw [staged_build hreq hb]
    rfl

/-- The overlay of an edited installer is taken from the cache, with the old installer in it. -/
theorem edited_installer_not_rebuilt :
    ∃ c ∈ (singleRun staged (shipped "new")).calls spelled
        (history spelled [singleRun staged (shipped "old")] emptyWork),
      c.1 = (shipped "new").requestApkovl spelled ∧ (c.2.sections c.1.dir).isSome ∧
      ¬ Memo.Clean Request.dir staged.build c.2.sections c.1 := by
  have hmem : ∀ i, (shipped i).requestApkovl spelled ∈ (shipped i).requests spelled := by
    intro i
    simp [Vars.requests, Vars.allSections, Vars.sectionApkovl, shipped, profileHassioInstaller]
  have hdir : ((shipped "old").requestApkovl spelled).dir =
      ((shipped "new").requestApkovl spelled).dir := rfl
  obtain ⟨d, hd⟩ := Option.isSome_iff_exists.mp
    (singleRun_present (staged_succeeds "old") rfl (hmem "old") emptyWork)
  obtain ⟨w, hw, hext⟩ := mem_singleRun_calls (staged_succeeds "new") rfl (hmem "new")
    (history spelled [singleRun staged (shipped "old")] emptyWork)
  have hw' : w.sections ((shipped "new").requestApkovl spelled).dir = some d := hdir ▸ hext _ _ hd
  refine ⟨_, hw, rfl, by rw [hw']; rfl, fun hclean => ?_⟩
  obtain ⟨new, hnew, hnewi⟩ := overlay_installer "new"
  have hdnew := (hclean d hw').symm.trans hnew
  -- what is there was built by a request of the first run
  have hwithin : ∀ r ∈ [singleRun staged (shipped "old")], r.Within staged {shipped "old"} := by
    intro r hr
    rw [List.mem_singleton.mp hr]
    exact singleRun_within (show shipped "old" ∈ ({shipped "old"} : Set Vars) from rfl)
  obtain ⟨q, ⟨v, rfl, -, hq⟩, -, hq'⟩ := history_builtFrom emptyWork_fresh hwithin _ _ hd
  rw [hdnew] at hq'
  have hreq := requested_of_mem hq
  by_cases hb : q.builder = .apkovl
  · cases hreq <;> cases hb
    obtain ⟨old, hold, holdi⟩ := overlay_installer "old"
    cases (hold.symm.trans hq')
    rw [hnewi] at holdi
    revert holdi
    decide
  · rw [staged_build hreq hb] at hq'
    cases ht : q.tools with
    | nil => rw [ht] at hq'; cases hq'
    | cons t ts => rw [ht] at hq'; cases hq'

end HassioInstaller.Mkimage
