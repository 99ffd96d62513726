import HassioInstaller.Mkimage.Cached

/-! # Complete sections

`build_section` calls a builder as the condition of an `if`, so `set -e` is off in it, and its result
is that of its last command unless it says `|| return 1` before. A section of which a command failed
is kept just if the status of no command that counts tells. -/

namespace HassioInstaller.Mkimage

/-- The commands that make the content of a section. -/
def Tool.content : Tool → Bool
  | .mkdir _ | .write .. | .mv .. | .rm _ | .touch _ | .lsApks _ => false
  | .updateKernel _ | .fetchBoot .. | .fetchApks .. | .apkIndex .. | .abuildSign .. | .fakeroot ..
  | .fetchSyslinux _ | .grubMkimage .. => true

/-- The pipelines `apk fetch ... | tar ...`; their status is that of `tar`. -/
def Tool.piped : Tool → Bool
  | .fetchBoot .. | .fetchSyslinux _ => true
  | _ => false

variable {Dir : Type*} {K : KeyTools} {T : Tools Dir} {o : Options} {j : Job Dir} {w w' : Work Dir}
  {q : Request} {fetched : Tool → Dir → Bool}

namespace Tools

/-- The commands a builder runs, each with the work directory it finds. -/
def ran (T : Tools Dir) : List Step → Dir → List (Tool × Dir)
  | [], _ => []
  | .run t :: body, d => (t, d) :: T.ran body (T.exec t d).2
  | .orReturn t :: body, d => (t, d) :: if (T.exec t d).1 then T.ran body (T.exec t d).2 else []
  | .skip :: body, d => T.ran body d

/-- Those of them whose status counts. -/
def judged (T : Tools Dir) : List Step → Dir → List (Tool × Dir)
  | [], _ => []
  | .run t :: body, d => if body = [] then [(t, d)] else T.judged body (T.exec t d).2
  | .orReturn t :: body, d => (t, d) :: if (T.exec t d).1 then T.judged body (T.exec t d).2 else []
  | .skip :: body, d => T.judged body d

/-- A command fails. -/
def Fails (T : Tools Dir) (e : Tool × Dir) : Prop := (T.exec e.1 e.2).1 = false

/-- A command succeeds, in a pipeline the `apk fetch` at its head too. -/
def Succeeds (T : Tools Dir) (fetched : Tool → Dir → Bool) (e : Tool × Dir) : Prop :=
  (T.exec e.1 e.2).1 = true ∧ (e.1.piped → fetched e.1 e.2 = true)

/-- Every command that makes content succeeds. -/
def Complete (T : Tools Dir) (fetched : Tool → Dir → Bool) (q : Request) : Prop :=
  ∀ e ∈ T.ran q.body T.empty, e.1.content → T.Succeeds fetched e

theorem body_status {body : List Step} (h : body ≠ []) (b : Bool) (d : Dir) :
    T.body body (b, d) = T.body body (true, d) := by
  cases body with
  | nil => exact absurd rfl h
  | cons s body => cases s <;> rfl

/-- A builder fails just if a command fails whose status counts. -/
theorem body_fails_iff (body : List Step) (d : Dir) :
    (T.body body (true, d)).1 = false ↔ ∃ e ∈ T.judged body d, T.Fails e := by
  induction body generalizing d with
  | nil => simp [Tools.body, judged]
  | cons s body ih =>
    cases s with
    | skip => exact ih d
    | run t =>
      rw [Tools.body, judged]
      by_cases hnil : body = []
      · subst hnil
        rw [if_pos rfl]
        simp [Tools.body, Fails]
      · rw [if_neg hnil, ← ih, ← body_status hnil (T.exec t d).1]
    | orReturn t =>
      rw [Tools.body, judged]
      cases hr : T.exec t d with
      | mk b d' =>
        cases b with
        | true => simp [ih, Fails, hr]
        | false => simp [Fails, hr]

theorem build_eq_none_iff (q : Request) :
    T.build q = none ↔ ∃ e ∈ T.judged q.body T.empty, T.Fails e := by
  rw [← body_fails_iff, Tools.build]
  split
  next hr => simp [hr]
  next hr => simp [hr]

end Tools

/-! ## Which commands count -/

/-- The commands that count are those `counts` holds of. -/
def Marked (counts : Tool → Bool) : List Step → Prop
  | [] => True
  | .run t :: body => (counts t ↔ body = []) ∧ Marked counts body
  | .orReturn t :: body => counts t ∧ Marked counts body
  | .skip :: body => Marked counts body

theorem judged_eq_filter {counts : Tool → Bool} {body : List Step} (h : Marked counts body) (d : Dir) :
    T.judged body d = (T.ran body d).filter fun e => counts e.1 := by
  induction body generalizing d with
  | nil => rfl
  | cons s body ih =>
    cases s with
    | skip => exact ih h d
    | run t =>
      obtain ⟨ht, hbody⟩ := h
      rw [Tools.judged, Tools.ran]
      by_cases hnil : body = []
      · subst hnil
        rw [if_pos rfl, List.filter_cons, if_pos (ht.mpr rfl)]
        rfl
      · rw [if_neg hnil, List.filter_cons, if_neg (mt ht.mp hnil), ih hbody]
    | orReturn t =>
      obtain ⟨ht, hbody⟩ := h
      rw [Tools.judged, Tools.ran, List.filter_cons, if_pos ht]
      split
      · rw [ih hbody]
      · rfl

/-- Of commands in a row the last one counts. -/
theorem judged_run {ts : List Tool} (d : Dir) :
    T.judged (ts.map .run) d = (T.ran (ts.map .run) d).getLast?.toList := by
  induction ts generalizing d with
  | nil => rfl
  | cons t ts ih =>
    rw [List.map_cons, Tools.judged, Tools.ran]
    cases ts with
    | nil => rfl
    | cons t' ts =>
      rw [if_neg (by simp), ih, List.map_cons, Tools.ran, List.getLast?_cons_cons]

theorem ran_run_tools (ts : List Tool) (d : Dir) : (T.ran (ts.map .run) d).map Prod.fst = ts := by
  induction ts generalizing d with
  | nil => rfl
  | cons t ts ih => rw [List.map_cons, Tools.ran, List.map_cons, ih]

/-- The commands on whose status `build_apks` and `build_syslinux` return. -/
def Tool.counts : Tool → Bool
  | .lsApks _ | .touch _ | .mv .. | .rm _ => true
  | _ => false

/-- A failed command is noticed: never in a kernel without boot addons; in one with boot addons when
`tar` fails for the last of them; in the packages when there is no package or `touch` fails; in
`syslinux` when a file cannot be moved or `rm` fails; and always in the other sections. -/
def Covered (T : Tools Dir) (fetched : Tool → Dir → Bool) (q : Request) : Prop :=
  match q.builder with
  | .kernel => T.Complete fetched q ∨ ∃ index addon d,
      (T.ran q.body T.empty).getLast? = some (.fetchBoot index addon, d) ∧
        T.Fails (.fetchBoot index addon, d)
  | .apks | .syslinux => T.Complete fetched q ∨
      ∃ e ∈ T.ran q.body T.empty, e.1.counts ∧ T.Fails e
  | .apkovl | .syslinuxCfg | .grubCfg | .grubEfi => True

theorem marked_apks (v : Vars) : Marked Tool.counts (v.buildApks K) := by
  simp [Vars.buildApks, Marked, Tool.counts]

theorem marked_syslinux (v : Vars) : Marked Tool.counts (v.buildSyslinux K) := by
  simp [Vars.buildSyslinux, Marked, Tool.counts]

/-- Where the commands that count are known, their failures are. -/
theorem exists_judged {body : List Step} (h : Marked Tool.counts body) (d : Dir) :
    (∃ e ∈ T.judged body d, T.Fails e) ↔ ∃ e ∈ T.ran body d, e.1.counts ∧ T.Fails e := by
  simp only [judged_eq_filter h, List.mem_filter, and_assoc]

theorem exists_judged_kernel (v : Vars) (f : String) (pkgs : List String) (d : Dir) :
    (∃ e ∈ T.judged (v.buildKernel f pkgs) d, T.Fails e) ↔ ∃ index addon d',
      (T.ran (v.buildKernel f pkgs) d).getLast? = some (.fetchBoot index addon, d') ∧
        T.Fails (.fetchBoot index addon, d') := by
  rw [Vars.buildKernel]
  by_cases hnil : v.bootAddons = []
  · rw [if_pos hnil]
    simp [Tools.judged, Tools.ran]
  · have hmap : v.bootAddons.map (fun a => Step.run (.fetchBoot v.index a)) =
        (v.bootAddons.map (.fetchBoot v.index)).map .run := by simp
    have hne : (v.bootAddons.map (.fetchBoot v.index)).map Step.run ≠ [] := by simpa using hnil
    rw [if_neg hnil, hmap, Tools.judged, if_neg hne, judged_run, Tools.ran]
    generalize (T.exec _ d).2 = d₁
    have htools := ran_run_tools (T := T) (v.bootAddons.map (.fetchBoot v.index)) d₁
    generalize T.ran ((v.bootAddons.map (.fetchBoot v.index)).map .run) d₁ = R at htools ⊢
    obtain rfl | ⟨R, ⟨t, d'⟩, rfl⟩ := List.eq_nil_or_concat R
    · exact absurd (List.map_eq_nil_iff.mp htools.symm) hnil
    have hlast : t ∈ v.bootAddons.map (.fetchBoot v.index) := by
      rw [← htools]
      exact List.mem_map_of_mem (List.concat_eq_append ▸ List.mem_concat_self)
    obtain ⟨a, -, rfl⟩ := List.mem_map.mp hlast
    rw [List.concat_eq_append, ← List.cons_append, List.getLast?_concat, List.getLast?_concat]
    constructor
    · rintro ⟨e, he, hfail⟩
      obtain rfl := List.mem_singleton.mp he
      exact ⟨v.index, a, d', rfl, hfail⟩
    · rintro ⟨index, addon, d'', he, hfail⟩
      rw [← Option.some.inj he] at hfail
      exact ⟨_, List.mem_singleton_self _, hfail⟩

/-- Where just the commands that make content count, a section is complete or not made. -/
theorem complete_or_none (h : Marked Tool.content q.body)
    (hp : ∀ e ∈ T.ran q.body T.empty, e.1.piped = false) :
    T.Complete fetched q ∨ T.build q = none := by
  by_cases hb : T.build q = none
  · exact .inr hb
  · left
    intro e he hc
    rw [Tools.build_eq_none_iff, judged_eq_filter h] at hb
    have hok : ¬T.Fails e := fun hf => hb ⟨e, List.mem_filter.mpr ⟨he, hc⟩, hf⟩
    exact ⟨Bool.not_eq_false _ ▸ hok, fun hpiped => by rw [hp e he] at hpiped; cases hpiped⟩

/-- What is covered is complete or not made. -/
theorem covered_iff {v : Vars} (hq : Requested K v q) :
    Covered T fetched q ↔ T.Complete fetched q ∨ T.build q = none := by
  cases hq with
  | kernel f => exact or_congr_right ((exists_judged_kernel v f _ _).symm.trans
      (Tools.build_eq_none_iff (v.requestKernel K f)).symm)
  | apks => exact or_congr_right ((exists_judged (marked_apks v) _).symm.trans
      (Tools.build_eq_none_iff (v.requestApks K)).symm)
  | syslinux => exact or_congr_right ((exists_judged (marked_syslinux v) _).symm.trans
      (Tools.build_eq_none_iff (v.requestSyslinux K)).symm)
  | apkovl =>
    refine iff_of_true trivial (complete_or_none ?_ ?_)
    · simp [Vars.requestApkovl, Vars.buildApkovl, Marked, Tool.content]
    · simp [Vars.requestApkovl, Vars.buildApkovl, Tools.ran, Tool.piped]
  | syslinuxCfg _ =>
    refine iff_of_true trivial (.inl ?_)
    simp [Tools.Complete, Vars.requestSyslinuxCfg, Vars.buildSyslinuxCfg, Vars.buildCfg, Tools.ran,
      Tool.content]
  | grubCfg _ =>
    refine iff_of_true trivial (.inl ?_)
    simp [Tools.Complete, Vars.requestGrubCfg, Vars.buildGrubCfg, Vars.buildCfg, Tools.ran,
      Tool.content]
  | grubEfi format efi =>
    refine iff_of_true trivial (complete_or_none ?_ ?_)
    · simp [Vars.requestGrubEfi, Vars.buildGrubEfi, Marked, Tool.content]
    · simp [Vars.requestGrubEfi, Vars.buildGrubEfi, Tools.ran, Tool.piped]

/-! ## What becomes of the profile -/

/-- A failed section is not forgotten. -/
theorem buildSection_fail {p : Progress Dir} (h : p.fail = true) :
    (buildSection simulate T q p).2.fail = true := by
  obtain ⟨-, h'⟩ | ⟨-, -, d, -, h'⟩ | ⟨-, -, -, h'⟩ := buildSection_cases simulate T q p
  · rw [h', h]
  · rw [h', h]
  · rw [h']

theorem runSection_fail {qs : List Request} {b : Bool} {p : Progress Dir} (h : p.fail = true) :
    (qs.foldl (fun r q => buildSection simulate T q r.2) (b, p)).2.fail = true := by
  induction qs generalizing b p with
  | nil => exact h
  | cons q qs ih => exact ih (buildSection_fail h)

theorem runSections_fail {ss : List (List Request)} {p : Progress Dir} (h : p.fail = true) :
    (runSections simulate T ss p).2.fail = true := by
  induction ss generalizing p with
  | nil => exact h
  | cons qs ss ih =>
    have hqs : (runSection simulate T qs p).2.fail = true := runSection_fail h
    rw [runSections]
    split
    next p₁ hr =>
      rw [hr] at hqs
      exact ih hqs
    next p₁ hr =>
      rw [hr] at hqs
      exact hqs

/-- The builder of `q` is called in `w'`, and fails. -/
structure Failed (T : Tools Dir) (q : Request) (w' : Work Dir) : Prop where
  missing : w'.sections q.dir = none
  build : T.build q = none

theorem Failed.buildSection (h : Failed T q w') {p : Progress Dir} (hp : p.work = w') :
    buildSection false T q p = (false, { p with fail := true }) := by
  obtain ⟨hhit | hsim, -⟩ | ⟨-, -, d, hd, -⟩ | ⟨-, -, -, h'⟩ := buildSection_cases false T q p
  · rw [hp, h.missing] at hhit
    cases hhit
  · cases hsim
  · rw [h.build] at hd
    cases hd
  · exact h'

theorem Failed.runSection (h : Failed T q w') {qs : List Request} {b : Bool} {p : Progress Dir}
    (hcall : (q, w') ∈ sectionCalls false T qs p) :
    (qs.foldl (fun r q => Mkimage.buildSection false T q r.2) (b, p)).2.fail = true := by
  induction qs generalizing b p with
  | nil => cases hcall
  | cons q' qs ih =>
    rw [List.foldl_cons]
    rcases List.mem_cons.mp hcall with hhead | htail
    · obtain ⟨rfl, hw⟩ := Prod.mk.inj hhead
      have hfail : (Mkimage.buildSection false T q p).2.fail = true := by
        rw [h.buildSection hw.symm]
      exact runSection_fail (p := (Mkimage.buildSection false T q p).2) hfail
    · exact ih htail

theorem Failed.runSections (h : Failed T q w') {ss : List (List Request)} {p : Progress Dir}
    (hcall : (q, w') ∈ sectionsCalls false T ss p) :
    (runSections false T ss p).2.fail = true := by
  induction ss generalizing p with
  | nil => cases hcall
  | cons qs ss ih =>
    rw [Mkimage.runSections]
    rcases List.mem_append.mp hcall with hhead | htail
    · have hfail : (Mkimage.runSection false T qs p).2.fail = true := h.runSection hhead
      split
      next p₁ hr =>
        rw [hr] at hfail
        exact runSections_fail hfail
      next p₁ hr =>
        rw [hr] at hfail
        exact hfail
    · cases hr : Mkimage.runSection false T qs p with
      | mk b p₁ =>
        rw [hr] at htail
        cases b with
        | true => exact ih htail
        | false => cases htail

/-- A builder that fails makes the build of the profile fail. -/
theorem Failed.buildProfile (h : Failed j.tools q w') (hsim : o.simulate = false)
    (hcall : (q, w') ∈ j.calls K o w) : (buildProfile K o j w).1 = false := by
  rw [Job.calls, hsim] at hcall
  split at hcall
  next hs =>
    have hfail := h.runSections hcall
    rw [Mkimage.buildProfile, hs, hsim]
    simp only [Bool.not_true, Bool.false_eq_true, if_false]
    split
    next => rfl
    next p hr =>
      rw [hr] at hfail
      rw [if_pos hfail]
  next => cases hcall

/-- What the builder of `q` makes is complete, or it is not kept and the build of the profile
fails. -/
def Guarded (K : KeyTools) (o : Options) (j : Job Dir) (w : Work Dir)
    (fetched : Tool → Dir → Bool) (q : Request) (w' : Work Dir) : Prop :=
  j.tools.Complete fetched q ∨
    (∀ p : Progress Dir, p.work = w' → (buildSection o.simulate j.tools q p).1 = false ∧
      (buildSection o.simulate j.tools q p).2.work.sections q.dir = none) ∧
    (buildProfile K o j w).1 = false

/-- Of the sections a build of a profile makes, just those are guarded that are covered. -/
theorem guarded_iff (hcall : (q, w') ∈ j.calls K o w) (hsim : o.simulate = false)
    (hnew : w'.sections q.dir = none) :
    Guarded K o j w fetched q w' ↔ Covered j.tools fetched q := by
  have hq : Requested K j.vars q := by
    rw [Job.calls] at hcall
    split at hcall
    · exact requested_of_mem (sectionsCalls_forall (I := fun _ => True) (fun _ _ _ _ => trivial)
        trivial _ hcall).1
    · cases hcall
  rw [covered_iff hq, Guarded]
  refine or_congr_right ⟨fun h => ?_, fun hb => ⟨fun p hp => ?_, ?_⟩⟩
  · obtain ⟨hfalse, -⟩ := h.1 ⟨w', false, false, []⟩ rfl
    rw [hsim] at hfalse
    obtain ⟨-, h'⟩ | ⟨-, -, d, -, h'⟩ | ⟨-, -, hb, -⟩ :=
      buildSection_cases false j.tools q ⟨w', false, false, []⟩
    · rw [h'] at hfalse
      cases hfalse
    · rw [h'] at hfalse
      cases hfalse
    · exact hb
  · have hfailed : Failed j.tools q w' := ⟨hnew, hb⟩
    rw [hsim, hfailed.buildSection hp, hp]
    exact ⟨rfl, hnew⟩
  · exact Failed.buildProfile ⟨hnew, hb⟩ hsim hcall

/-- The first section `start.sh` asks for. -/
def firstKernel : Request :=
  (profileHassioInstaller (container "#!/bin/bash")).requestKernel spelled "lts"

theorem firstKernel_called (T : Tools (List Tool)) : (firstKernel, emptyWork) ∈
    ({ firstJob true with tools := T } : Job (List Tool)).calls spelled ⟨false, false⟩ emptyWork := by
  have hs : (firstJob true).vars.supported = true := rfl
  have hall : (firstJob true).vars.allSections spelled =
      [firstKernel] :: ((firstJob true).vars.allSections spelled).tail := rfl
  rw [Job.calls, if_pos hs, hall, sectionsCalls, sectionCalls]
  exact List.mem_append_left _ List.mem_cons_self

theorem guarded_iff_logged : Guarded spelled ⟨false, false⟩ (firstJob true) emptyWork
    (fun _ _ => true) firstKernel emptyWork :=
  (guarded_iff (firstKernel_called logged) rfl rfl).mpr (.inl fun _ _ _ => ⟨rfl, fun _ => rfl⟩)

/-- `update-kernel` fails, the other commands succeed. -/
def noKernel : Tools (List Tool) where
  exec t d := (match t with
    | .updateKernel _ => false
    | _ => true, d ++ [t])
  empty := []

def noKernelJob : Job (List Tool) := { firstJob true with tools := noKernel }

theorem noKernel_build : ∀ q ∈ noKernelJob.vars.requests spelled, (noKernel.build q).isSome := by
  intro q hq
  cases requested_of_mem hq <;> rfl

/-- A kernel that was not made enters the cache, and the build of the profile goes on. -/
theorem broken_kernel_kept :
    (firstKernel, emptyWork) ∈ noKernelJob.calls spelled ⟨false, false⟩ emptyWork ∧
      ¬Guarded spelled ⟨false, false⟩ noKernelJob emptyWork (fun _ _ => true) firstKernel emptyWork ∧
      (buildProfile spelled ⟨false, false⟩ noKernelJob emptyWork).1 = true ∧
      ((buildProfile spelled ⟨false, false⟩ noKernelJob emptyWork).2.sections
        firstKernel.dir).isSome := by
  have hret : (buildProfile spelled ⟨false, false⟩ noKernelJob emptyWork).1 = true :=
    buildProfile_returns emptyWork noKernel_build rfl
  have hmem : firstKernel ∈ noKernelJob.vars.requests spelled := List.mem_cons_self
  refine ⟨firstKernel_called noKernel, fun h => ?_, hret, ?_⟩
  · rcases h with hcomplete | ⟨-, hfail⟩
    · cases (hcomplete _ List.mem_cons_self rfl).1
    · rw [hret] at hfail
      cases hfail
  · obtain ⟨hfail, -⟩ | ⟨p, hb, hm⟩ :=
      buildProfile_cases (K := spelled) ⟨false, false⟩ noKernelJob emptyWork rfl
    · rw [hret] at hfail
      cases hfail
    · rw [hm, makeImage_sections]
      exact hb.present rfl firstKernel hmem

end HassioInstaller.Mkimage
