import HassioInstaller.Cache.Memo
import HassioInstaller.Mkimage.Sections

/-! # `mkimage.sh`

The state is what stays on disk between runs that share `WORKDIR` and `OUTDIR`: the built sections,
the directories they were merged in, and the images. `build_profile` is called as
`(build_profile) || exit 1`, so `set -e` is off in it and only the tests it makes itself end it.
Sections are made with tools that are a parameter. -/

namespace HassioInstaller.Mkimage

/-- The commands of the builders at work on a directory, and an empty directory. -/
structure Tools (Dir : Type*) where
  exec : Tool → Dir → Bool × Dir
  empty : Dir

variable {Dir : Type*}

/-- The commands of a builder, from one command's status to the builder's. -/
def Tools.body (T : Tools Dir) : List Step → Bool × Dir → Bool × Dir
  | [], r => r
  | .run t :: body, (_, d) => T.body body (T.exec t d)
  | .orReturn t :: body, (_, d) =>
    match T.exec t d with
    | (true, d) => T.body body (true, d)
    | (false, d) => (false, d)
  | .skip :: body, (_, d) => T.body body (true, d)

/-- `build_${section} "$@"` in an empty work directory. A failed build is thrown away. -/
def Tools.build (T : Tools Dir) (q : Request) : Option Dir :=
  match T.body q.body (true, T.empty) with
  | (true, d) => some d
  | (false, _) => none

/-- The merged directory: `.alpine-release` and the sections it links to. -/
structure Merged (Dir : Type*) where
  release : String
  parts : List (String × Dir)

/-- An image file. -/
inductive Image (Dir : Type*)
  /-- Made by a `create_image_*` that returned 0. -/
  | made (merged : Merged Dir)
  /-- Any other file. -/
  | other

/-- What stays on disk. -/
structure Work (Dir : Type*) where
  /-- `$WORKDIR/$_dir` -/
  sections : Memo.Store String Dir
  /-- `$WORKDIR/image-*` -/
  merged : String → Option (Merged Dir)
  /-- `$OUTDIR` -/
  out : String → Option (Image Dir)

namespace Work

variable (w : Work Dir)

def addSection (d : String) (c : Dir) : Work Dir :=
  { w with sections := Function.update w.sections d (some c) }

def addMerged (name : String) (m : Merged Dir) : Work Dir :=
  { w with merged := Function.update w.merged name (some m) }

def setOut (file : String) (image : Option (Image Dir)) : Work Dir :=
  { w with out := Function.update w.out file image }

@[simp] theorem addSection_sections :
    (w.addSection d c).sections = Function.update w.sections d (some c) := rfl
@[simp] theorem addSection_merged : (w.addSection d c).merged = w.merged := rfl
@[simp] theorem addSection_out : (w.addSection d c).out = w.out := rfl
@[simp] theorem addMerged_sections : (w.addMerged name m).sections = w.sections := rfl
@[simp] theorem addMerged_merged :
    (w.addMerged name m).merged = Function.update w.merged name (some m) := rfl
@[simp] theorem addMerged_out : (w.addMerged name m).out = w.out := rfl
@[simp] theorem setOut_sections : (w.setOut file image).sections = w.sections := rfl
@[simp] theorem setOut_merged : (w.setOut file image).merged = w.merged := rfl
@[simp] theorem setOut_out : (w.setOut file image).out = Function.update w.out file image := rfl

end Work

/-- A fresh `WORKDIR`; no image in `OUTDIR` has been made from it. -/
structure Work.Fresh (w : Work Dir) : Prop where
  sections : w.sections = fun _ => none
  merged : w.merged = fun _ => none
  out : ∀ f m, w.out f ≠ some (.made m)

structure Options where
  simulate : Bool
  yaml : Bool

/-- What a failing `create_image_*` leaves under the name of the image. -/
inductive Leaves
  | untouched
  | nothing
  | garbage

/-- One `(build_profile)`: the variables once `profile_$PROFILE` has set its own, the tools, and how
`create_image_*` and `mkimage-yaml.sh` come out. -/
structure Job (Dir : Type*) where
  vars : Vars
  tools : Tools Dir
  createOk : Bool
  leaves : Leaves
  yamlOk : Bool

/-- The variables of `build_profile` while it goes through the sections. -/
structure Progress (Dir : Type*) where
  work : Work Dir
  dirty : Bool
  fail : Bool
  mySections : List String

def buildSection (simulate : Bool) (T : Tools Dir) (q : Request) (p : Progress Dir) :
    Bool × Progress Dir :=
  if q.dir = "" then (false, { p with fail := true })
  else if (p.work.sections q.dir).isSome || simulate then
    (true, { p with mySections := p.mySections ++ [q.dir] })
  else
    match T.build q with
    | some d => (true, { p with
        work := p.work.addSection q.dir d
        dirty := true
        mySections := p.mySections ++ [q.dir] })
    | none => (false, { p with fail := true })

/-- A `section_*` function calls `build_section` for one request after the other, and returns the
status of the last call. -/
def runSection (simulate : Bool) (T : Tools Dir) (qs : List Request) (p : Progress Dir) :
    Bool × Progress Dir :=
  qs.foldl (fun r q => buildSection simulate T q r.2) (true, p)

/-- `section_$SECTION || return 1`, for every section -/
def runSections (simulate : Bool) (T : Tools Dir) :
    List (List Request) → Progress Dir → Bool × Progress Dir
  | [], p => (true, p)
  | qs :: rest, p =>
    match runSection simulate T qs p with
    | (true, p) => runSections simulate T rest p
    | (false, p) => (false, p)

/-- `echo -n $words` -/
def echoed (words : List String) : String :=
  String.ofList ([' '].intercalate (words.map String.toList))

namespace Vars

variable (K : KeyTools) (v : Vars)

def name : String := orElse v.imageName v.PROFILE

/-- `$output_filename` -/
def file : String :=
  orElse v.outputFilename (v.name ++ "-" ++ v.RELEASE ++ "-" ++ v.ARCH ++ "." ++ v.imageExt)

/-- `$DESTDIR` of the merged sections; `sort` leaves the one line of `echo` as it is. -/
def destdir (mySections : List String) : String :=
  "image-" ++ K.checksum [echoed mySections] ++ "-" ++ v.ARCH ++ "-" ++ v.PROFILE

/-- The first line of `.alpine-release` -/
def release : String := v.name ++ "-" ++ v.RELEASE ++ " " ++ v.buildDate

/-- `list_has $ARCH $arch` -/
def supported : Bool := v.ARCH ∈ v.arch

end Vars

/-- The sections that are there are linked together. -/
def mergeSections (v : Vars) (mySections : List String) (w : Work Dir) : Merged Dir where
  release := v.release
  parts := mySections.filterMap fun d => (w.sections d).map (d, ·)

/-- The merged directory is made anew when a section was built or it is missing. -/
def merge (K : KeyTools) (simulate : Bool) (v : Vars) (p : Progress Dir) : Work Dir :=
  let dest := v.destdir K p.mySections
  if (p.dirty || (p.work.merged dest).isNone) && !simulate then
    p.work.addMerged dest (mergeSections v p.mySections p.work)
  else p.work

/-- `create_image_${output_format}` under the name `file`. Without a merged directory it fails. -/
def createImage (j : Job Dir) (merged : Option (Merged Dir)) (before : Option (Image Dir)) :
    Option (Image Dir) :=
  match j.createOk, merged with
  | true, some m => some (.made m)
  | _, _ =>
    match j.leaves with
    | .untouched => before
    | .nothing => none
    | .garbage => some .other

/-- The image is made when a section was built or it is missing. The status of `create_image_*` is
stored in `_fail`, which is not read again. -/
def makeImage (K : KeyTools) (o : Options) (j : Job Dir) (p : Progress Dir) : Bool × Work Dir :=
  let w := merge K o.simulate j.vars p
  if p.dirty || (w.out j.vars.file).isNone then
    let image := createImage j (w.merged (j.vars.destdir K p.mySections)) (w.out j.vars.file)
    (!o.yaml || j.yamlOk, w.setOut j.vars.file image)
  else (true, w)

def buildProfile (K : KeyTools) (o : Options) (j : Job Dir) (w : Work Dir) : Bool × Work Dir :=
  if !j.vars.supported then (true, w)
  else
    match runSections o.simulate j.tools (j.vars.allSections K) ⟨w, false, false, []⟩ with
    | (false, p) => (false, p.work)
    | (true, p) => if p.fail then (false, p.work) else makeImage K o j p

/-- The jobs of one architecture, `(build_profile) || exit 1` for each. -/
def buildProfiles (K : KeyTools) (o : Options) : List (Job Dir) → Work Dir → Bool × Work Dir
  | [], w => (true, w)
  | j :: js, w =>
    match buildProfile K o j w with
    | (true, w) => buildProfiles K o js w
    | (false, w) => (false, w)

/-- A run: for every architecture whether its package root could be set up, and its jobs. -/
structure Run (Dir : Type*) where
  options : Options
  archs : List (Bool × List (Job Dir))

/-- The main loop. A failing command outside of `build_profile` ends the script, by `set -e`. -/
def buildArchs (K : KeyTools) (o : Options) :
    List (Bool × List (Job Dir)) → Work Dir → Bool × Work Dir
  | [], w => (true, w)
  | (false, _) :: _, w => (false, w)
  | (true, js) :: archs, w =>
    match buildProfiles K o js w with
    | (true, w) => buildArchs K o archs w
    | (false, w) => (false, w)

/-- `mkimage.sh`: its exit status and what it leaves on disk. -/
def mkimage (K : KeyTools) (r : Run Dir) (w : Work Dir) : Bool × Work Dir :=
  buildArchs K r.options r.archs w

/-- What is on disk after one run after another. -/
def history (K : KeyTools) (rs : List (Run Dir)) (w : Work Dir) : Work Dir :=
  rs.foldl (fun w r => (mkimage K r w).2) w

end HassioInstaller.Mkimage
