import HassioInstaller.Mkimage.Current
import HassioInstaller.Script.Halts

/-! # A build step by step

`build_profile` as the script of its commands, one for each that looks at or changes what stays on
disk. Run to its end it does what `buildProfile` does (`buildProfile_of_steps`), and a job that is
killed has come to some command of it (`Killed`). What the command leaves then is `Torn`: files half
made, but for `mv`, which renames a directory. -/

namespace HassioInstaller.Mkimage
open Script

/-- The commands that look at or change what stays on disk. -/
inductive Op
  /-- `[ -e "$WORKDIR/${_dir}" ]` -/
  | hasSection (dir : String)
  /-- `rm -rf "$WORKDIR/${_dir}.work"` -/
  | rmWork (dir : String)
  | mkWork (dir : String)
  /-- A command of a builder, at work in `${_dir}.work`. -/
  | tool (dir : String) (t : Tool)
  /-- `mv "$DESTDIR" "$WORKDIR/${_dir}"` -/
  | mvWork (dir : String)
  /-- `[ -e "$WORKDIR/image-..." ]` -/
  | hasMerged (name : String)
  | rmMerged (name : String)
  | mkMerged (name : String)
  /-- `cp -Lrs` of the files of a section, if it is there. -/
  | link (name dir : String)
  /-- `.alpine-release` -/
  | writeRelease (name text : String)
  /-- `[ -e "$output_file" ]` -/
  | hasImage (file : String)
  /-- `create_image_${output_format}` -/
  | create (file name : String)
  | yaml
  deriving DecidableEq

/-- The scripts of a build. A command is answered by whether its status is 0. -/
abbrev Steps := Script Op Bool

/-- A builder in `${_dir}.work`; `ok` is the last status. -/
def bodySteps (dir : String) : List Step → (ok : Bool) → Steps Bool
  | [], ok => return ok
  | .run t :: body, _ => do
    let ok ← issue (.tool dir t)
    bodySteps dir body ok
  | .orReturn t :: body, _ => do
    let ok ← issue (.tool dir t)
    if ok then bodySteps dir body true else return false
  | .skip :: body, _ => bodySteps dir body true

/-- `_dirty`, `_fail` and `_my_sections` -/
structure Flags where
  dirty : Bool
  fail : Bool
  mySections : List String

def Flags.progress {Dir : Type*} (f : Flags) (w : Work Dir) : Progress Dir :=
  ⟨w, f.dirty, f.fail, f.mySections⟩

/-- `build_section` -/
def sectionSteps (simulate : Bool) (q : Request) (f : Flags) : Steps (Bool × Flags) :=
  if q.dir = "" then return (false, { f with fail := true })
  else do
    let there ← issue (.hasSection q.dir)
    if there || simulate then return (true, { f with mySections := f.mySections ++ [q.dir] })
    else do
      let _ ← issue (.rmWork q.dir)
      let _ ← issue (.mkWork q.dir)
      let ok ← bodySteps q.dir q.body true
      if ok then do
        let _ ← issue (.mvWork q.dir)
        return (true, { f with dirty := true, mySections := f.mySections ++ [q.dir] })
      else do
        let _ ← issue (.rmWork q.dir)
        return (false, { f with fail := true })

/-- A `section_*` function. -/
def runSectionSteps (simulate : Bool) (qs : List Request) (f : Flags) : Steps (Bool × Flags) :=
  qs.foldlM (fun r q => sectionSteps simulate q r.2) (true, f)

def runSectionsSteps (simulate : Bool) : List (List Request) → Flags → Steps (Bool × Flags)
  | [], f => return (true, f)
  | qs :: rest, f => do
    let r ← runSectionSteps simulate qs f
    if r.1 then runSectionsSteps simulate rest r.2 else return (false, r.2)

/-- The merging of the sections. -/
def mergeSteps (K : KeyTools) (simulate : Bool) (v : Vars) (f : Flags) : Steps PUnit := do
  let dest := v.destdir K f.mySections
  let there ← issue (.hasMerged dest)
  Script.when ((f.dirty || !there) && !simulate) do
    let _ ← issue (.rmMerged dest)
    let _ ← issue (.mkMerged dest)
    Script.each f.mySections fun dir => do
      let _ ← issue (.link dest dir)
      return ⟨⟩
    let _ ← issue (.writeRelease dest v.release)
    return ⟨⟩

/-- The making of the image. -/
def imageSteps (K : KeyTools) (o : Options) (v : Vars) (f : Flags) : Steps Bool := do
  let there ← issue (.hasImage v.file)
  if f.dirty || !there then do
    let _ ← issue (.create v.file (v.destdir K f.mySections))
    if o.yaml then issue .yaml else return true
  else return true

/-- `build_profile` -/
def profileSteps (K : KeyTools) (o : Options) (v : Vars) : Steps Bool :=
  if !v.supported then return true
  else do
    let r ← runSectionsSteps o.simulate (v.allSections K) ⟨false, false, []⟩
    if !r.1 || r.2.fail then return false
    else do
      mergeSteps K o.simulate v r.2
      imageSteps K o v r.2

/-! ## The disk -/

/-- What is on disk: what stays, and the directories `${_dir}.work` that builders work in. -/
structure Disk (Dir : Type) where
  kept : Work Dir
  work : String → Option Dir

variable {Dir : Type}

namespace Disk

variable (s : Disk Dir)

def setWork (dir : String) (d : Option Dir) : Disk Dir :=
  { s with work := Function.update s.work dir d }

def setMerged (name : String) (m : Option (Merged Dir)) : Disk Dir :=
  { s with kept := { s.kept with merged := Function.update s.kept.merged name m } }

def setImage (file : String) (i : Option (Image Dir)) : Disk Dir :=
  { s with kept := s.kept.setOut file i }

end Disk

/-- A command of the job: its status, and what it does. -/
def Job.step (j : Job Dir) (s : Disk Dir) : Op → Bool × Disk Dir
  | .hasSection dir => ((s.kept.sections dir).isSome, s)
  | .rmWork dir => (true, s.setWork dir none)
  | .mkWork dir => (true, s.setWork dir (some j.tools.empty))
  | .tool dir t =>
    match s.work dir with
    | some d => ((j.tools.exec t d).1, s.setWork dir (some (j.tools.exec t d).2))
    | none => (false, s)
  | .mvWork dir =>
    match s.work dir with
    | some d => (true, { s.setWork dir none with kept := s.kept.addSection dir d })
    | none => (false, s)
  | .hasMerged name => ((s.kept.merged name).isSome, s)
  | .rmMerged name => (true, s.setMerged name none)
  | .mkMerged name => (true, s.setMerged name (some ⟨"", []⟩))
  | .link name dir =>
    match s.kept.merged name, s.kept.sections dir with
    | some m, some d => (true, s.setMerged name (some { m with parts := m.parts ++ [(dir, d)] }))
    | _, _ => (true, s)
  | .writeRelease name text =>
    match s.kept.merged name with
    | some m => (true, s.setMerged name (some { m with release := text }))
    | none => (false, s)
  | .hasImage file => ((s.kept.out file).isSome, s)
  | .create file name => (j.createOk && (s.kept.merged name).isSome,
      s.setImage file (createImage j (s.kept.merged name) (s.kept.out file)))
  | .yaml => (j.yamlOk, s)

/-- The directory `${_dir}.work` that a command works in. -/
def Op.worksIn : Op → Option String
  | .rmWork dir | .tool dir _ => some dir
  | _ => none

/-- The merged directory whose files a command makes or removes. -/
def Op.mergesIn : Op → Option String
  | .rmMerged name | .link name _ | .writeRelease name _ => some name
  | _ => none

/-- What may be on disk when a job is killed at a command. -/
inductive Job.Torn (j : Job Dir) (s : Disk Dir) : Op → Disk Dir → Prop
  | before : j.Torn s c s
  | after : j.Torn s c (j.step s c).2
  | work (d : Option Dir) : c.worksIn = some dir → j.Torn s c (s.setWork dir d)
  | merged (m : Option (Merged Dir)) : c.mergesIn = some name → j.Torn s c (s.setMerged name m)
  | image (i : Option (Image Dir)) : (∀ m, i ≠ some (.made m)) →
    j.Torn s (.create file name) (s.setImage file i)

abbrev Job.next (j : Job Dir) (s : Disk Dir) (c : Op) (ok : Bool) (s' : Disk Dir) : Prop :=
  j.step s c = (ok, s')

/-- The job, started on `w` and killed, has left `w'`. What is in `${_dir}.work` does not matter, since
every builder starts in an empty one. -/
def Killed (K : KeyTools) (o : Options) (j : Job Dir) (w w' : Work Dir) : Prop :=
  ∃ work t c k s s', Script.Run (profileSteps K o j.vars) t (.call c k) ∧ Path j.next ⟨w, work⟩ t s ∧
    j.Torn s c s' ∧ s'.kept = w'

/-- The job, started on `w`, has come to its end with a status. -/
def Finished (K : KeyTools) (o : Options) (j : Job Dir) (w : Work Dir) (ok : Bool) (w' : Work Dir) :
    Prop :=
  ∃ work t s, Script.Run (profileSteps K o j.vars) t (.ret ok) ∧ Path j.next ⟨w, work⟩ t s ∧ s.kept = w'

/-! ## What the steps come to -/

/-- The job at work, where whatever a kill leaves has sections that satisfy `I`. -/
abbrev doing (j : Job Dir) (I : Memo.Store String Dir → Prop) : Contract (Disk Dir) Op Bool where
  next := j.next
  guard s c := ∀ s', j.Torn s c s' → I s'.kept.sections
  exit _ := False

/-- A section that is missing may be added to what satisfies `I` when its builder succeeds. -/
def Admits (I : Memo.Store String Dir → Prop) (T : Tools Dir) (q : Request) : Prop :=
  ∀ st d, I st → st q.dir = none → T.build q = some d → I (Function.update st q.dir (some d))

section
variable {j : Job Dir} {I : Memo.Store String Dir → Prop} {s : Disk Dir} {Q : α → Disk Dir → Prop}
  {k : Bool → Steps α}

/-- What a kill leaves at a command that adds no section. -/
theorem torn_sections (h : j.Torn s c s') (hc : ∀ dir, c ≠ .mvWork dir) :
    s'.kept.sections = s.kept.sections := by
  cases h with
  | before | work | merged | image => rfl
  | after =>
    cases c with
    | mvWork dir => exact absurd rfl (hc dir)
    | tool | link | writeRelease => dsimp only [Job.step]; split <;> rfl
    | _ => rfl

theorem wp_op (hc : ∀ dir, c ≠ .mvWork dir) (hs : I s.kept.sections)
    (hstep : j.step s c = (ok, s')) (hk : wp (doing j I) (k ok) Q s') :
    wp (doing j I) (.call c k) Q s := by
  refine wp_call.mpr ⟨fun s₁ h => ?_, fun r s₁ hn => ?_⟩
  · rwa [torn_sections h hc]
  · obtain ⟨rfl, rfl⟩ := Prod.mk.inj (hstep.symm.trans hn)
    exact hk

theorem wp_mvWork (hs : I s.kept.sections) (hd : s.work dir = some d)
    (hnew : I (s.kept.addSection dir d).sections)
    (hk : wp (doing j I) (k true) Q { s.setWork dir none with kept := s.kept.addSection dir d }) :
    wp (doing j I) (.call (.mvWork dir) k) Q s := by
  have hstep : j.step s (.mvWork dir) =
      (true, { s.setWork dir none with kept := s.kept.addSection dir d }) := by
    simp only [Job.step, hd]
  refine wp_call.mpr ⟨fun s₁ h => ?_, fun r s₁ hn => ?_⟩
  · cases h with
    | before => exact hs
    | after => rwa [hstep]
    | work _ hw => cases hw
    | merged _ hm => cases hm
  · obtain ⟨rfl, rfl⟩ := Prod.mk.inj (hstep.symm.trans hn)
    exact hk

/-- A builder at work in its directory. -/
theorem wp_body (hs : I s.kept.sections) (hd : s.work dir = some d) :
    wp (doing j I) (bodySteps dir body ok) (fun ok' s' => s'.kept = s.kept ∧
      ∃ d', s'.work dir = some d' ∧ j.tools.body body (ok, d) = (ok', d')) s := by
  induction body generalizing s d ok with
  | nil => exact wp_ret.mpr ⟨rfl, d, hd, rfl⟩
  | cons b body ih =>
    have tool : ∀ t, j.step s (.tool dir t) =
        ((j.tools.exec t d).1, s.setWork dir (some (j.tools.exec t d).2)) := fun t => by
      simp only [Job.step, hd]
    have hnew : ∀ d', (s.setWork dir (some d')).work dir = some d' := fun d' =>
      Function.update_self ..
    cases b with
    | run t => exact wp_op (by rintro _ ⟨⟩) hs (tool t) (ih hs (hnew _))
    | skip => exact ih hs hd
    | orReturn t =>
      refine wp_op (by rintro _ ⟨⟩) hs (tool t) ?_
      rw [Tools.body, ret_bind]
      obtain ⟨_ | _, d'⟩ := j.tools.exec t d
      · exact wp_ret.mpr ⟨rfl, d', hnew d', rfl⟩
      · exact ih hs (hnew d')

/-- The steps have done what the function does, and the sections still satisfy `I`. -/
def Agrees (I : Memo.Store String Dir → Prop) (r : Bool × Progress Dir) (r' : Bool × Flags) (s : Disk Dir) :
    Prop :=
  r = (r'.1, r'.2.progress s.kept) ∧ I s.kept.sections

theorem wp_section {f : Flags} (hI : simulate = false → Admits I j.tools q)
    (hs : I s.kept.sections) : wp (doing j I) (sectionSteps simulate q f)
      (Agrees I (buildSection simulate j.tools q (f.progress s.kept))) s := by
  rw [sectionSteps, buildSection, if_neg q.dir_ne, if_neg q.dir_ne]
  refine wp_op (by rintro _ ⟨⟩) hs rfl ?_
  rw [ret_bind]
  by_cases hthere : ((s.kept.sections q.dir).isSome || simulate) = true
  · rw [if_pos hthere]
    exact wp_ret.mpr ⟨if_pos hthere, hs⟩
  rw [if_neg hthere]
  refine wp_op (by rintro _ ⟨⟩) hs rfl (wp_op (by rintro _ ⟨⟩) hs rfl ?_)
  rw [ret_bind]
  refine wp_bind.mpr ((wp_body (s := (s.setWork q.dir none).setWork q.dir (some j.tools.empty)) hs
    (Function.update_self ..)).mono ?_)
  rintro ok s' ⟨hkept, d, hd, hbody⟩
  have hs' : I s'.kept.sections := by
    rw [hkept]
    exact hs
  have hbuild : j.tools.build q = if ok then some d else none := by
    rw [Tools.build, hbody]
    cases ok <;> rfl
  cases ok with
  | true =>
    obtain ⟨hnone, hsim⟩ := not_or.mp (Bool.or_eq_true _ _ ▸ hthere)
    have hnew : I (s'.kept.addSection q.dir d).sections := by
      refine hI (eq_false_of_ne_true hsim) _ d hs' ?_ hbuild
      rw [hkept]
      exact Option.not_isSome_iff_eq_none.mp hnone
    refine wp_mvWork hs' hd hnew (wp_ret.mpr ⟨(if_neg hthere).trans ?_, hnew⟩)
    rw [hbuild, hkept]
    rfl
  | false =>
    refine wp_op (by rintro _ ⟨⟩) hs' rfl (wp_ret.mpr ⟨(if_neg hthere).trans ?_, hs'⟩)
    rw [hbuild]
    exact congrArg (fun w => (false, { f.progress w with fail := true })) hkept.symm

theorem wp_runSection {f : Flags} (hI : simulate = false → ∀ q ∈ qs, Admits I j.tools q)
    (hs : I s.kept.sections) : wp (doing j I) (runSectionSteps simulate qs f)
      (Agrees I (runSection simulate j.tools qs (f.progress s.kept))) s := by
  have general : ∀ (b : Bool) (f : Flags) (s : Disk Dir), I s.kept.sections →
      wp (doing j I) (qs.foldlM (fun r q => sectionSteps simulate q r.2) (b, f))
        (Agrees I (qs.foldl (fun r q => buildSection simulate j.tools q r.2)
          (b, f.progress s.kept))) s := by
    induction qs with
    | nil => exact fun b f s hs => wp_ret.mpr ⟨rfl, hs⟩
    | cons q qs ih =>
      intro b f s hs
      rw [List.foldlM_cons, bind_eq, wp_bind, List.foldl_cons]
      refine (wp_section (fun hsim => hI hsim q List.mem_cons_self) hs).mono ?_
      rintro ⟨b', f'⟩ s' ⟨heq, hs'⟩
      rw [heq]
      exact ih (fun hsim q' hq' => hI hsim q' (List.mem_cons_of_mem q hq')) b' f' s' hs'
  exact general true f s hs

theorem wp_runSections {f : Flags} (hI : simulate = false → ∀ q ∈ ss.flatten, Admits I j.tools q)
    (hs : I s.kept.sections) : wp (doing j I) (runSectionsSteps simulate ss f)
      (Agrees I (runSections simulate j.tools ss (f.progress s.kept))) s := by
  induction ss generalizing f s with
  | nil => exact wp_ret.mpr ⟨rfl, hs⟩
  | cons qs ss ih =>
    rw [runSections]
    refine wp_bind.mpr ((wp_runSection (fun hsim q hq => hI hsim q (List.mem_append_left _ hq)) hs).mono ?_)
    rintro ⟨b, f'⟩ s' ⟨heq, hs'⟩
    rw [heq]
    cases b with
    | true => exact ih (fun hsim q hq => hI hsim q (List.mem_append_right _ hq)) hs'
    | false => exact wp_ret.mpr ⟨rfl, hs'⟩

/-- The sections there are get linked, one after the other. -/
theorem wp_links (v : Vars) (hs : I s.kept.sections) (hm : s.kept.merged name = some m) :
    wp (doing j I) (each ds fun dir => issue (Op.link name dir) >>= fun _ => pure ⟨⟩) (fun _ s' =>
      s'.kept = s.kept.addMerged name { m with
        parts := m.parts ++ (mergeSections v ds s.kept).parts }) s := by
  induction ds generalizing s m with
  | nil =>
    refine wp_ret.mpr ?_
    simp only [mergeSections, List.filterMap_nil, List.append_nil]
    rw [Work.addMerged, ← hm, Function.update_eq_self]
  | cons d ds ih =>
    cases hd : s.kept.sections d with
    | none =>
      have hstep : j.step s (.link name d) = (true, s) := by
        simp only [Job.step, hm, hd]
      refine wp_op (by rintro _ ⟨⟩) hs hstep ((ih hs hm).mono fun _ s' hkept => ?_)
      rw [hkept, mergeSections, mergeSections, List.filterMap_cons_none (by rw [hd]; rfl)]
    | some c =>
      let m' : Merged Dir := { m with parts := m.parts ++ [(d, c)] }
      have hstep : j.step s (.link name d) = (true, s.setMerged name (some m')) := by
        simp only [Job.step, hm, hd, m']
      refine wp_op (by rintro _ ⟨⟩) hs hstep ?_
      refine (ih (s := s.setMerged name (some m')) hs (Function.update_self ..)).mono
        fun _ s' hkept => ?_
      rw [hkept, mergeSections, mergeSections, List.filterMap_cons_some (b := (d, c)) (by rw [hd]; rfl)]
      simp only [Work.addMerged, Disk.setMerged, Function.update_idem, m', List.append_assoc,
        List.singleton_append]

theorem wp_merge {f : Flags} {v : Vars} (hs : I s.kept.sections) :
    wp (doing j I) (mergeSteps K simulate v f) (fun _ s' =>
      s'.kept = merge K simulate v (f.progress s.kept) ∧ I s'.kept.sections) s := by
  let dest := v.destdir K f.mySections
  rw [mergeSteps, merge]
  refine wp_op (by rintro _ ⟨⟩) hs rfl ?_
  rw [ret_bind, Option.not_isSome]
  by_cases hc : ((f.dirty || (s.kept.merged dest).isNone) && !simulate) = true
  swap
  · rw [show ((f.dirty || (s.kept.merged dest).isNone) && !simulate) = false from
      eq_false_of_ne_true hc]
    exact wp_ret.mpr ⟨(if_neg hc).symm, hs⟩
  rw [hc]
  refine wp_op (by rintro _ ⟨⟩) hs rfl (wp_op (by rintro _ ⟨⟩) hs rfl ?_)
  rw [ret_bind]
  refine wp_bind.mpr ((wp_links (s := (s.setMerged dest none).setMerged dest (some ⟨"", []⟩)) v hs
    (Function.update_self ..)).mono fun _ s' hkept => ?_)
  have hs' : I s'.kept.sections := by
    rw [hkept]
    exact hs
  have hstep : j.step s' (.writeRelease dest v.release) = (true, s'.setMerged dest
      (some (mergeSections v f.mySections s.kept))) := by
    have hm : s'.kept.merged dest = some ⟨"", (mergeSections v f.mySections s.kept).parts⟩ := by
      rw [hkept]
      exact Function.update_self ..
    simp only [Job.step, hm]
    rfl
  refine wp_op (by rintro _ ⟨⟩) hs' hstep (wp_ret.mpr ⟨Eq.trans ?_ (if_pos hc).symm, hs'⟩)
  rw [Disk.setMerged, hkept]
  simp only [Work.addMerged, Disk.setMerged, Function.update_idem, Flags.progress, dest]

theorem wp_image {f : Flags} (hs : I s.kept.sections) :
    wp (doing j I) (mergeSteps K o.simulate j.vars f >>= fun _ => imageSteps K o j.vars f)
      (fun b s' => makeImage K o j (f.progress s.kept) = (b, s'.kept) ∧
        I s'.kept.sections) s := by
  refine wp_bind.mpr ((wp_merge hs).mono ?_)
  rintro - s₁ ⟨hkept, hs₁⟩
  rw [imageSteps, makeImage, ← hkept]
  refine wp_op (by rintro _ ⟨⟩) hs₁ rfl ?_
  rw [ret_bind, Option.not_isSome]
  by_cases hc : (f.dirty || (s₁.kept.out j.vars.file).isNone) = true
  swap
  · rw [if_neg hc]
    exact wp_ret.mpr ⟨if_neg hc, hs₁⟩
  rw [if_pos hc]
  refine wp_op (by rintro _ ⟨⟩) hs₁ rfl ?_
  rw [ret_bind]
  cases hy : o.yaml with
  | true => exact wp_op (by rintro _ ⟨⟩) hs₁ rfl (wp_ret.mpr ⟨if_pos hc, hs₁⟩)
  | false => exact wp_ret.mpr ⟨if_pos hc, hs₁⟩

/-- A job whose steps have all been done has done what `buildProfile` does, and was at no point at
which a kill would have left sections that do not satisfy `I`. -/
theorem wp_profile (hI : o.simulate = false → ∀ q ∈ j.vars.requests K, Admits I j.tools q)
    (hs : I s.kept.sections) :
    wp (doing j I) (profileSteps K o j.vars) (fun b s' =>
      buildProfile K o j s.kept = (b, s'.kept) ∧ I s'.kept.sections) s := by
  rw [profileSteps, buildProfile]
  cases j.vars.supported with
  | false => exact wp_ret.mpr ⟨rfl, hs⟩
  | true =>
    refine wp_bind.mpr ((wp_runSections (f := ⟨false, false, []⟩) hI hs).mono ?_)
    rintro ⟨ok, f⟩ s' ⟨heq, hs'⟩
    rw [Flags.progress] at heq
    rw [heq]
    cases ok with
    | false => exact wp_ret.mpr ⟨rfl, hs'⟩
    | true =>
      cases hfail : f.fail with
      | true => exact wp_ret.mpr ⟨if_pos hfail, hs'⟩
      | false =>
        refine (wp_image hs').mono fun b s'' h => ⟨?_, h.2⟩
        exact (if_neg (ne_true_of_eq_false hfail)).trans h.1

/-! ## To the end, and killed -/

theorem buildProfile_of_finished {w w' : Work Dir} (h : Finished K o j w ok w') :
    buildProfile K o j w = (ok, w') := by
  obtain ⟨work, t, s, hr, hp, rfl⟩ := h
  have hwp := wp_profile (K := K) (o := o) (j := j) (I := fun _ => True) (s := ⟨w, work⟩)
    (fun _ _ _ _ _ _ _ _ => trivial) trivial
  exact (hwp t _ s hr hp).1

/-- What a builder's result keeps, a kill keeps. -/
theorem sections_of_killed {w w' : Work Dir} (h : Killed K o j w w')
    (hI : o.simulate = false → ∀ q ∈ j.vars.requests K, Admits I j.tools q) (hs : I w.sections) :
    I w'.sections := by
  obtain ⟨work, t, c, k, s, s', hr, hp, htorn, rfl⟩ := h
  exact wp_profile hI (s := ⟨w, work⟩) hs t _ s hr hp s' htorn

/-! ## There is a run -/

theorem settles_body : Settles (fun _ _ => True) (bodySteps dir body ok) := by
  induction body generalizing ok with
  | nil => exact settles_ret ok
  | cons b body ih =>
    cases b with
    | run t => exact settles_call fun _ => ih
    | skip => exact ih
    | orReturn t =>
      refine settles_call fun r => ?_
      cases r with
      | true => exact ih
      | false => exact settles_ret _

theorem settles_section (q : Request) (f : Flags) :
    Settles (fun _ _ => True) (sectionSteps simulate q f) := by
  rw [sectionSteps, if_neg q.dir_ne]
  refine settles_call fun there => ?_
  rw [ret_bind]
  split
  · exact settles_ret _
  refine settles_call fun _ => settles_call fun _ => settles_body.bind fun ok => ?_
  cases ok with
  | true => exact settles_call fun _ => settles_ret _
  | false => exact settles_call fun _ => settles_ret _

theorem settles_runSections (ss : List (List Request)) (f : Flags) :
    Settles (fun _ _ => True) (runSectionsSteps simulate ss f) := by
  induction ss generalizing f with
  | nil => exact settles_ret _
  | cons qs ss ih =>
    have hqs : Settles (fun _ _ => True) (runSectionSteps simulate qs f) :=
      settles_foldlM (f := fun r q => sectionSteps simulate q r.2)
        (fun r q => settles_section q r.2) qs (true, f)
    rw [runSectionsSteps, bind_eq]
    refine hqs.bind fun r => ?_
    split
    · exact ih r.2
    · exact settles_ret _

theorem settles_merge {f : Flags} : Settles (fun _ _ => True) (mergeSteps K simulate v f) := by
  refine settles_call fun there => ?_
  rw [ret_bind]
  refine settles_when fun _ => settles_call fun _ => settles_call fun _ => ?_
  rw [ret_bind]
  refine (settles_each fun dir _ => ?_).bind fun _ => ?_
  · exact settles_call fun _ => settles_ret _
  · exact settles_call fun _ => settles_ret _

/-- Every command has a status, so a part of a job has a run to its end. -/
theorem exists_run {p : Steps α} (hp : Settles (fun _ _ => True) p) (h : wp (doing j I) p Q s) :
    ∃ t a s', Script.Run p t (.ret a) ∧ Path j.next s t s' ∧ Q a s' := by
  have answered : ∀ s c, ∃ ok s', True ∧ j.next s c ok s' := fun s c => ⟨_, _, trivial, rfl⟩
  obtain ⟨t, q, s', hr, hpath, hend⟩ :=
    hp.halts.exists_ended answered s
  have hq := h t q s' hr hpath
  cases q with
  | ret a => exact ⟨t, a, s', hr, hpath, hq⟩
  | exit => exact hq.elim
  | call | loop => exact hend.elim

theorem settles_profile : Settles (fun _ _ => True) (profileSteps K o v) := by
  rw [profileSteps]
  split
  · exact settles_ret _
  refine (settles_runSections _ _).bind fun r => ?_
  split
  · exact settles_ret _
  refine settles_merge.bind fun _ => settles_call fun there => ?_
  rw [ret_bind]
  split
  · refine settles_call fun _ => ?_
    rw [ret_bind]
    split
    · exact settles_call fun _ => settles_ret _
    · exact settles_ret _
  · exact settles_ret _

theorem finished_buildProfile (K : KeyTools) (o : Options) (j : Job Dir) (w : Work Dir) :
    Finished K o j w (buildProfile K o j w).1 (buildProfile K o j w).2 := by
  obtain ⟨t, b, s, hr, hp, heq, -⟩ := exists_run (s := ⟨w, fun _ => none⟩) settles_profile
    (wp_profile (K := K) (o := o) (j := j) (I := fun _ => True)
      (fun _ _ _ _ _ _ _ _ => trivial) trivial)
  rw [heq]
  exact ⟨_, t, s, hr, hp, rfl⟩

/-- The steps of a job and `buildProfile` come to the same. -/
theorem finished_iff {w w' : Work Dir} : Finished K o j w ok w' ↔ buildProfile K o j w = (ok, w') := by
  refine ⟨buildProfile_of_finished, fun h => ?_⟩
  have hf := finished_buildProfile K o j w
  rwa [h] at hf

theorem sections_of_buildProfile {w : Work Dir}
    (hI : o.simulate = false → ∀ q ∈ j.vars.requests K, Admits I j.tools q) (hs : I w.sections) :
    I (buildProfile K o j w).2.sections := by
  obtain ⟨work, t, s, hr, hp, hkept⟩ := finished_buildProfile K o j w
  rw [← hkept]
  exact (wp_profile hI (s := ⟨w, work⟩) hs t _ s hr hp).2

/-- A job that is to make an image comes to the point at which the image is made. -/
theorem comes_to_create {w : Work Dir} (hs : j.vars.supported = true)
    (hbuild : ∀ q ∈ j.vars.requests K, (j.tools.build q).isSome) (hneeded : j.vars.Needed K o w) :
    ∃ p t k s, Built o.simulate (j.vars.requests K) ⟨w, false, false, []⟩ p ∧
      Script.Run (profileSteps K o j.vars) t
        (.call (.create j.vars.file (j.vars.destdir K (j.vars.dirs K))) k) ∧
      Path j.next ⟨w, fun _ => none⟩ t s ∧ s.kept = merge K o.simulate j.vars p := by
  obtain ⟨p, hret, hfail⟩ : ∃ p, runSections o.simulate j.tools (j.vars.allSections K)
      ⟨w, false, false, []⟩ = (true, p) ∧ p.fail = false := runSections_returns hbuild rfl
  have hb : Built o.simulate (j.vars.requests K) ⟨w, false, false, []⟩ p :=
    (runSections_built hret hfail).2
  have hsections : wp (doing j fun _ => True)
      (runSectionsSteps o.simulate (j.vars.allSections K) ⟨false, false, []⟩)
      (Agrees (fun _ => True) (runSections o.simulate j.tools (j.vars.allSections K)
        ⟨w, false, false, []⟩)) ⟨w, fun _ => none⟩ :=
    wp_runSections (fun _ _ _ _ _ _ _ _ => trivial) trivial
  obtain ⟨t₁, ⟨ok, f⟩, s₁, hr₁, hp₁, heq, -⟩ := exists_run (settles_runSections _ _) hsections
  obtain ⟨rfl, rfl⟩ := Prod.mk.inj (heq.symm.trans hret)
  have hmerge : wp (doing j fun _ => True) (mergeSteps K o.simulate j.vars f) (fun _ s' =>
      s'.kept = merge K o.simulate j.vars (f.progress s₁.kept) ∧ True) s₁ := wp_merge trivial
  obtain ⟨t₂, _, s₂, hr₂, hp₂, hkept, -⟩ := exists_run settles_merge hmerge
  have hc : (f.dirty || !(s₂.kept.out j.vars.file).isSome) = true := by
    have hneeded' : f.dirty = true ∨ w.out j.vars.file = none := hneeded.imp_left hb.dirty_iff.mpr
    have hout : s₁.kept.out = w.out := hb.grows.out
    rw [hkept, merge_out, Bool.or_eq_true]
    refine hneeded'.imp_right fun hnone => ?_
    rw [Flags.progress, hout, hnone]
    rfl
  have hmy : f.mySections = j.vars.dirs K := hb.mySections_eq
  let there := (Op.hasImage j.vars.file, (s₂.kept.out j.vars.file).isSome)
  obtain ⟨k, hr₃⟩ : ∃ k, Script.Run (imageSteps K o j.vars f) [there]
      (.call (.create j.vars.file (j.vars.destdir K (j.vars.dirs K))) k) := by
    refine ⟨fun _ => if o.yaml then issue .yaml else return true, .call _ ?_⟩
    rw [ret_bind, if_pos hc, hmy]
    exact .refl
  have hp₃ : Path j.next s₂ [there] s₂ := .cons rfl .nil
  have hrun : Script.Run (profileSteps K o j.vars) (t₁ ++ (t₂ ++ [there]))
      (.call (.create j.vars.file (j.vars.destdir K (j.vars.dirs K))) k) := by
    rw [profileSteps, hs]
    refine hr₁.bind_ret ?_
    have hno : f.fail = false := hfail
    rw [hno]
    exact hr₂.bind_ret hr₃
  exact ⟨_, _, k, s₂, hb, hrun, hp₁.append (hp₂.append hp₃), hkept⟩

end

end HassioInstaller.Mkimage
