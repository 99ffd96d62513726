import HassioInstaller.Mkimage.Current
import HassioInstaller.Mkimage.Options
import HassioInstaller.Release.Image
import HassioInstaller.Shell.Test
import HassioInstaller.Text.Match
import HassioInstaller.Text.Rows

/-! # The version in the name of the image

Two scripts read the version out of `installer.sh`: `start.sh` names the image after it, and `build.py`
looks for an image of that name. The one evaluates the lines that begin with the assignment, and so
takes the last, the other takes the first line that has the text in it. -/

namespace HassioInstaller.Release
open Text Mkimage

/-! ## `start.sh` -/

/-- `egrep '^export INSTALLER_VERSION' ../custom-scripts/installer.sh` -/
def exportLines (script : String) : List String :=
  (lines script).filter fun l => "export INSTALLER_VERSION".toList.isPrefixOf l.toList

/-- The characters that end a value in double quotes, or that a shell replaces in it or in the words it
is expanded to. -/
def special : List Char := ['"', '$', '\x60', '\\', '*', '?', '[']

/-- The value in a word `INSTALLER_VERSION="value"`. Nothing is said of other words, and of values that
the shell does not leave as they are. -/
def assigned (w : String) : Option String :=
  match fields '"' w with
  | [name, value, ""] =>
    if name = "INSTALLER_VERSION=" ∧ ∀ c ∈ value.toList, c ∉ special then some value else none
  | _ => none

/-- `eval` of assignments, each after `export`; the last one counts. -/
def evalExports : List String → String → Option String
  | "export" :: w :: ws, _ => (assigned w).bind (evalExports ws)
  | [], value => some value
  | _, _ => none

/-- `[ -z $RELEASE ]`; a text of several words is an expression, or an error. -/
def notReleased (test : Shell.Primaries) (RELEASE : String) : Bool :=
  test.test ("-z" :: words RELEASE) = some true

/-- `$INSTALLER_VERSION` of `start.sh`, which is not set in the container before. -/
def startVersion (test : Shell.Primaries) (RELEASE script : String) : Option String :=
  if notReleased test RELEASE then some "test"
  else evalExports ((exportLines script).flatMap words) ""

/-- The arguments of `mkimage.sh`; `~` is the home of the user `build`. -/
def mkimageArgs (INSTALLER_VERSION : String) : List String :=
  "--tag" :: words INSTALLER_VERSION ++ ["--outdir", "/build/iso", "--arch", "x86_64",
    "--repository", "http://dl-cdn.alpinelinux.org/alpine/v3.16/main",
    "--repository", "http://dl-cdn.alpinelinux.org/alpine/v3.16/community",
    "--profile", "hassio_installer"]

variable {Dir : Type*} (mk : Mkimage.Site Dir) (base : Mkimage.Vars)

/-- The variables with which `build_profile` begins. -/
def Vars.start (c : Config) : Mkimage.Vars :=
  { base with
    ARCH := c.reqArch
    PROFILE := c.reqProfiles
    RELEASE := c.release mk
    hostkeys := c.hostkeys }

/-- `$output_file`, where the options were right. `start.sh` has changed to its own directory. -/
def builtImage (INSTALLER_VERSION : String) : Option String :=
  match parse (mkimageArgs INSTALLER_VERSION) (.initial "/build/aports/scripts" mk.buildDate) with
  | .config c => some (c.OUTDIR ++ "/" ++ (profileHassioInstaller (Vars.start mk base c)).file)
  | _ => none

/-- `vols/build` is `/build` in the container. -/
def onHost (site : Site) (path : String) : String := site.SD ++ "/vols" ++ path

/-- `$RELEASE` in the container of a build. -/
def releaseVar (args : Args) : String := if args.release then "1" else ""

/-- The image that a build makes. -/
def madeImage (site : Site) (test : Shell.Primaries) (args : Args) (script : String) : Option String :=
  ((startVersion test (releaseVar args) script).bind (builtImage mk base)).map (onHost site)

/-! ## The lines with the version -/

/-- A line `export INSTALLER_VERSION="version"`, perhaps indented or commented out. -/
structure Mention where
  indent : String
  version : String
  blank : ∀ c ∈ indent.toList, c ∈ [' ', '\t', '#']
  word : IsWord version
  plain : ∀ c ∈ version.toList, c ∉ '=' :: special

namespace Mention

def line (m : Mention) : String :=
  m.indent ++ "export INSTALLER_VERSION=\"" ++ m.version ++ "\""

/-- The line begins with the assignment. -/
def active (m : Mention) : Bool := m.indent = ""

variable {m : Mention} {ms : List Mention}

theorem not_mem_version (m : Mention) (hc : c ∈ '=' :: special) : c ∉ m.version.toList :=
  fun h => m.plain c h hc

theorem lineVersion_line (m : Mention) : lineVersion m.line = m.version := by
  have hline : m.line = (m.indent ++ "export INSTALLER_VERSION") ++ String.singleton '=' ++
      ("\"" ++ m.version ++ "\"") := by
    simp only [line, String.append_assoc]
    rfl
  have hvalue : '=' ∉ ("\"" ++ m.version ++ "\"").toList := by
    have := m.not_mem_version (List.mem_cons_self (a := '=') (l := special))
    simp [this]
  have hfields : ((m.line.toList.splitOn '=').map String.ofList).getLast? =
      some ("\"" ++ m.version ++ "\"") := by
    change (fields '=' m.line).getLast? = _
    rw [hline, fields_append, fields_self hvalue, List.getLast?_concat]
  rw [List.getLast?_map] at hfields
  obtain ⟨cs, hcs, hof⟩ := Option.map_eq_some_iff.mp hfields
  have hlist : cs = ("\"" ++ m.version ++ "\"").toList := by rw [← hof, String.toList_ofList]
  have hquote := m.not_mem_version (c := '"') (by decide)
  have hword := m.word.2
  have hkeep : m.version.toList.filter (fun c => c ≠ '"' ∧ c ≠ '\n') = m.version.toList := by
    refine List.filter_eq_self.mpr fun c hc => ?_
    have hblank := m.word.2 c hc
    have hne : c ≠ '"' := fun h => hquote (h ▸ hc)
    simp_all [isBlank]
  rw [lineVersion, List.getLastD_eq_getLast?, hcs, Option.getD_some, hlist, String.toList_append,
    String.toList_append, List.filter_append, List.filter_append, hkeep]
  simp

theorem prefix_line (m : Mention) :
    "export INSTALLER_VERSION".toList.isPrefixOf m.line.toList = m.active := by
  by_cases h : m.indent = ""
  · rw [active, h, line, h, String.empty_append, String.toList_append, String.toList_append]
    simp
  · obtain ⟨c, cs, hcs⟩ := List.exists_cons_of_ne_nil
      (fun hnil => h (String.toList_eq_nil_iff.mp hnil) : m.indent.toList ≠ [])
    have hc := m.blank c (by simp [hcs])
    have hne : c ≠ 'e' := fun he => by simp [he] at hc
    have hlist : m.line.toList =
        c :: (cs ++ ("export INSTALLER_VERSION=\"" ++ m.version ++ "\"").toList) := by
      simp [line, hcs]
    rw [active, decide_eq_false h, hlist]
    exact Bool.and_eq_false_iff.mpr (.inl (beq_eq_false_iff_ne.mpr hne.symm))

theorem words_line (h : m.active = true) :
    words m.line = ["export", "INSTALLER_VERSION=\"" ++ m.version ++ "\""] := by
  have hline : m.line = "export " ++ ("INSTALLER_VERSION=\"" ++ m.version ++ "\"") := by
    rw [line, of_decide_eq_true h, String.empty_append, ← String.append_assoc,
      ← String.append_assoc]
    rfl
  have hword : IsWord ("INSTALLER_VERSION=\"" ++ m.version ++ "\"") :=
    ((by decide : IsWord "INSTALLER_VERSION=\"").append m.word.2).append (by decide)
  rw [hline, words_keyword "export " "export" ' ' rfl rfl rfl, words_self hword]

theorem assigned_word (m : Mention) :
    assigned ("INSTALLER_VERSION=\"" ++ m.version ++ "\"") = some m.version := by
  have hsplit : "INSTALLER_VERSION=\"" ++ m.version ++ "\"" =
      "INSTALLER_VERSION=" ++ String.singleton '"' ++ (m.version ++ String.singleton '"' ++ "") := by
    simp only [String.append_assoc, String.append_empty]
    rfl
  have hquote := m.not_mem_version (c := '"') (by decide)
  have hplain : ∀ c ∈ m.version.toList, c ∉ special :=
    fun c hc hs => m.plain c hc (List.mem_cons_of_mem _ hs)
  rw [assigned, hsplit, fields_append, fields_append, fields_self (by decide), fields_self hquote,
    fields_self (by decide)]
  exact if_pos ⟨rfl, hplain⟩

theorem evalExports_lines (h : ∀ m ∈ ms, m.active) (value : String) :
    evalExports ((ms.map line).flatMap words) value =
      some ((ms.getLast?.map version).getD value) := by
  induction ms generalizing value with
  | nil => rfl
  | cons m ms ih =>
    obtain ⟨hm, hms⟩ := List.forall_mem_cons.mp h
    rw [List.map_cons, List.flatMap_cons, words_line hm, List.cons_append, List.singleton_append,
      evalExports, assigned_word, Option.bind_some, ih hms]
    cases ms with
    | nil => rfl
    | cons m' ms =>
      rw [List.getLast?_cons_cons, List.getLast?_eq_some_getLast (List.cons_ne_nil m' ms)]
      rfl

end Mention

/-! ## The two of them -/

/-- The lines of a script that have the text of an assignment in them. -/
def Mentions (script : String) (ms : List Mention) : Prop :=
  (lines script).filter (matchesIn (.lit "export INSTALLER_VERSION")) = ms.map Mention.line

variable {script : String} {ms : List Mention}

instance : Decidable (Mentions script ms) := inferInstanceAs (Decidable (_ = _))

theorem extractVersion_eq (h : Mentions script ms) :
    extractVersion script = (ms.head?.map Mention.version).getD "test" := by
  rw [extractVersion, ← List.head?_filter, h, List.head?_map]
  cases ms with
  | nil => rfl
  | cons m ms => exact m.lineVersion_line

theorem exportLines_eq (h : Mentions script ms) :
    exportLines script = (ms.filter Mention.active).map Mention.line := by
  have hboth : exportLines script =
      ((lines script).filter (matchesIn (.lit "export INSTALLER_VERSION"))).filter
        fun l => "export INSTALLER_VERSION".toList.isPrefixOf l.toList := by
    rw [List.filter_filter, exportLines]
    refine List.filter_congr fun l _ => ?_
    cases hstart : "export INSTALLER_VERSION".toList.isPrefixOf l.toList with
    | false => rfl
    | true => rw [matchesIn_of_start (List.isPrefixOf_iff_prefix.mp hstart), Bool.and_self]
  rw [hboth, h, List.filter_map]
  congr 1
  exact List.filter_congr fun m _ => m.prefix_line

/-- The version of `start.sh` is that of the last line that begins with an assignment. -/
theorem startVersion_eq (h : Mentions script ms) (hR : ¬ notReleased test RELEASE) :
    startVersion test RELEASE script =
      some (((ms.filter Mention.active).getLast?.map Mention.version).getD "") := by
  rw [startVersion, if_neg hR, exportLines_eq h]
  exact Mention.evalExports_lines (fun m hm => (List.mem_filter.mp hm).2) ""

variable {Dir : Type*} (mk : Mkimage.Site Dir) (base : Mkimage.Vars)

theorem builtImage_of_config {V : String} {c : Config}
    (hc : parse (mkimageArgs V) (.initial "/build/aports/scripts" mk.buildDate) = .config c)
    (hname : base.imageName = "") (hfile : base.outputFilename = "") :
    builtImage mk base V = some (c.OUTDIR ++ "/" ++
      (orElse "" c.reqProfiles ++ "-" ++ c.release mk ++ "-" ++ c.reqArch ++ "." ++ "iso")) := by
  rw [builtImage, hc]
  change some (_ ++ orElse base.outputFilename
    (orElse base.imageName c.reqProfiles ++ _ ++ _ ++ _ ++ _ ++ _ ++ _)) = _
  rw [hname, hfile]
  rfl

theorem parse_mkimageArgs {V : String} (hV : IsWord V) (c : Config) :
    ∃ c', parse (mkimageArgs V) c = .config c' ∧ c'.OUTDIR = "/build/iso" ∧
      c'.reqProfiles = "hassio_installer" ∧ c'.RELEASE = V ∧ c'.reqArch = "x86_64" := by
  rw [mkimageArgs, words_self hV]
  exact ⟨_, rfl, rfl, rfl, rfl, rfl⟩

theorem isoName_eq (V : String) : "/build/iso" ++ "/" ++
    (orElse "" "hassio_installer" ++ "-" ++ V ++ "-" ++ "x86_64" ++ "." ++ "iso") =
    "/build/iso/" ++ isoName V := by
  have hdir : "/build/iso" ++ "/" = "/build/iso/" := rfl
  have hhead : "hassio_installer" ++ "-" = "hassio_installer-" := rfl
  have htail : "-" ++ "x86_64" ++ "." ++ "iso" = "-x86_64.iso" := rfl
  calc _ = "/build/iso" ++ "/" ++
          ("hassio_installer" ++ "-" ++ V ++ ("-" ++ "x86_64" ++ "." ++ "iso")) := by
        simp only [orElse, if_true, String.append_assoc]
    _ = _ := congrArg₂ (· ++ ·) hdir
        (congrArg₂ (fun head tail => head ++ V ++ tail) hhead htail)

theorem builtImage_word (hname : base.imageName = "") (hfile : base.outputFilename = "")
    {V : String} (hV : IsWord V) : builtImage mk base V = some ("/build/iso/" ++ isoName V) := by
  obtain ⟨c, hc, hout, hprofile, hrelease, harch⟩ :=
    parse_mkimageArgs hV (.initial "/build/aports/scripts" mk.buildDate)
  have hR : c.release mk = V := by rw [Config.release, hrelease, if_pos hV.1]
  rw [builtImage_of_config mk base hc hname hfile, hout, hprofile, hR, harch, isoName_eq]

/-- Without a version `--outdir` becomes the tag, and the image is left among the scripts. -/
theorem builtImage_empty (hname : base.imageName = "") (hfile : base.outputFilename = "")
    (V : String) : builtImage mk base "" ≠ some ("/build/iso/" ++ isoName V) := by
  obtain ⟨c, hc, hout⟩ : ∃ c,
      parse (mkimageArgs "") (.initial "/build/aports/scripts" mk.buildDate) = .config c ∧
      c.OUTDIR = "/build/aports/scripts" := ⟨_, rfl, rfl⟩
  rw [builtImage_of_config mk base hc hname hfile, hout]
  intro h
  have hstart := congrArg (fun s => s.toList.take 8) (Option.some.inj h)
  simp only [String.toList_append, List.append_assoc] at hstart
  exact absurd hstart (by simp)

theorem append_cancel {s t V W : String} (h : s ++ V ++ t = s ++ W ++ t) : V = W := by
  have hlist := congrArg String.toList h
  simp only [String.toList_append] at hlist
  exact String.toList_injective (List.append_cancel_left (List.append_cancel_right hlist))

theorem isoName_injective {V W : String} (h : isoName V = isoName W) : V = W := append_cancel h

theorem builtImage_iff (hname : base.imageName = "") (hfile : base.outputFilename = "")
    {V W : String} (hV : V = "" ∨ IsWord V) :
    builtImage mk base V = some ("/build/iso/" ++ isoName W) ↔ V ≠ "" ∧ V = W := by
  rcases hV with rfl | hV
  · exact iff_of_false (builtImage_empty mk base hname hfile W) fun h => h.1 rfl
  · rw [builtImage_word mk base hname hfile hV, Option.some_inj, String.append_right_inj]
    exact ⟨fun h => ⟨hV.1, isoName_injective h⟩, fun h => congrArg isoName h.2⟩

/-- `start.sh` asks for one job, that of the installer. -/
theorem run_mkimageArgs {V : String} (hV : IsWord V) : ∃ c,
    parse (mkimageArgs V) (.initial "/build/aports/scripts" mk.buildDate) = .config c ∧
    (c.run mk).archs = [(mk.ready "x86_64", [mk.job "x86_64" "hassio_installer"])] := by
  obtain ⟨c, hc, -, hprofile, -, harch⟩ :=
    parse_mkimageArgs hV (.initial "/build/aports/scripts" mk.buildDate)
  have harchs : c.archs mk = ["x86_64"] := by
    rw [Config.archs, harch]
    exact words_request (by decide) (by decide) _ _
  have hprofiles : c.profiles mk = ["hassio_installer"] := by
    rw [Config.profiles, hprofile]
    exact words_request (by decide) (by decide) _ _
  refine ⟨c, hc, ?_⟩
  rw [Config.run, harchs, hprofiles]
  rfl

theorem onHost_isoName (site : Site) (V : String) :
    onHost site ("/build/iso/" ++ isoName V) = isoPath site V := by
  have hdir : "/vols" ++ "/build/iso/" = "/vols/build/iso/" := rfl
  calc site.SD ++ "/vols" ++ ("/build/iso/" ++ isoName V)
      = site.SD ++ ("/vols" ++ "/build/iso/") ++ isoName V := by simp only [String.append_assoc]
    _ = _ := congrArg (fun dir => site.SD ++ dir ++ isoName V) hdir

theorem onHost_iff (site : Site) (V : String) (image : Option String) :
    image.map (onHost site) = some (isoPath site V) ↔ image = some ("/build/iso/" ++ isoName V) := by
  have hinj : Function.Injective (onHost site) := fun _ _ h => (String.append_right_inj _).mp h
  rw [← onHost_isoName, ← Option.map_some]
  exact (Option.map_injective hinj).eq_iff

theorem notReleased_releaseVar (test : Shell.Primaries) (args : Args) :
    notReleased test (releaseVar args) = !args.release := by
  unfold releaseVar
  cases args.release <;> rfl

theorem madeImage_test (hname : base.imageName = "") (hfile : base.outputFilename = "")
    (hno : args.release = false) :
    madeImage mk base site test args script = some (isoPath site "test") := by
  have hstart : startVersion test (releaseVar args) script = some "test" :=
    if_pos (by rw [notReleased_releaseVar, hno, Bool.not_false])
  refine (onHost_iff site "test" _).mpr ?_
  rw [hstart]
  exact builtImage_word mk base hname hfile (by decide : IsWord "test")

theorem madeImage_iff (hname : base.imageName = "") (hfile : base.outputFilename = "")
    (h : Mentions script ms) (hyes : args.release = true) (m : Mention) :
    madeImage mk base site test args script = some (isoPath site m.version) ↔
      (ms.filter Mention.active).getLast?.map Mention.version = some m.version := by
  have hR : ¬ notReleased test (releaseVar args) := by rw [notReleased_releaseVar, hyes]; decide
  refine (onHost_iff site m.version _).trans ?_
  rw [startVersion_eq h hR, Option.bind_some]
  cases (ms.filter Mention.active).getLast? with
  | none => exact iff_of_false (builtImage_empty mk base hname hfile _) (by simp)
  | some last =>
    refine (builtImage_iff mk base hname hfile (.inr last.word)).trans ?_
    rw [Option.map_some, Option.some_inj]
    exact and_iff_right last.word.1

/-- The run looks for an image there. -/
def Seeks (t : List Event) (path : String) : Prop :=
  (∃ r, (.exists path, r) ∈ t) ∧ path ≠ "CHANGELOG.md" ∧ path ≠ rnfile

theorem named_of_seeks (hr : Script.Run (build site args) t q) (hseek : Seeks t path) :
    ∃ VERSION, path = isoPath site VERSION ∧ Named site args t VERSION := by
  obtain ⟨⟨r, hmem⟩, hlog, hnotes⟩ := hseek
  obtain ⟨pre, post, rfl⟩ := List.append_of_mem hmem
  rcases justified_split hr with h | h | ⟨VERSION, hpath, hV⟩
  · exact absurd h hlog
  · exact absurd h hnotes
  · refine ⟨VERSION, hpath, ?_⟩
    unfold Named at hV ⊢
    split at hV
    · next hpub =>
      obtain ⟨hne, htest, r, hread, hversion⟩ := hV
      rw [if_pos hpub]
      exact ⟨hne, htest, r, List.mem_append_left _ hread, hversion⟩
    · next hpub => rwa [if_neg hpub]

/-- What `build.py` looks for after a build is what `start.sh` had made: always when no version is
asked for, else just if the first line with an assignment has the version of the last one that takes
effect. Where that first line has the version `test`, or there is none, nothing is looked for. -/
theorem same_image_iff (hname : base.imageName = "") (hfile : base.outputFilename = "")
    (h : Mentions script ms) (test : Shell.Primaries) (hr : Script.Run (build site args) t q)
    (hscript : ∀ r, (.read (installerPath site), r) ∈ t → r.text = some script)
    (hbuild : args.release_only = false) (hseek : Seeks t path) :
    (args.release = false → madeImage mk base site test args script = some path) ∧
    (args.release = true → ∃ m ∈ ms.head?, m.version ≠ "test" ∧ path = isoPath site m.version ∧
      (madeImage mk base site test args script = some path ↔
        (ms.filter Mention.active).getLast?.map Mention.version = some m.version)) := by
  obtain ⟨VERSION, rfl, hV⟩ := named_of_seeks hr hseek
  constructor
  · intro hno
    have hV : VERSION = "test" := by rwa [Named, hno, hbuild, if_neg (by decide)] at hV
    rw [hV]
    exact madeImage_test mk base hname hfile hno
  · intro hyes
    obtain ⟨-, htest, r, hread, hversion⟩ := hV.published (by rw [hyes]; rfl)
    rw [hscript r hread, Option.getD_some, extractVersion_eq h] at hversion
    cases hhead : ms.head? with
    | none =>
      rw [hhead] at hversion
      exact absurd hversion.symm htest
    | some m =>
      rw [hhead] at hversion
      obtain rfl : m.version = VERSION := hversion
      exact ⟨m, rfl, htest, rfl, madeImage_iff mk base hname hfile h hyes m⟩

def oldMention : Mention where
  indent := "# "
  version := "v0.1.0"
  blank := by decide
  word := by decide
  plain := by decide

def newMention : Mention where
  indent := ""
  version := "v0.2.0"
  blank := by decide
  word := by decide
  plain := by decide

def raised : String :=
  "#!/bin/bash\n# export INSTALLER_VERSION=\"v0.1.0\"\nexport INSTALLER_VERSION=\"v0.2.0\"\n"

def workshop : Mkimage.Site Unit where
  describe := none
  buildDate := "240101"
  allProfiles := "base hassio_installer"
  defaultArch := "x86_64"
  allArch := ""
  ready _ := true
  job ARCH PROFILE := {
    vars := { container "#!/bin/bash" with ARCH, PROFILE }
    tools := ⟨fun _ d => (true, d), ()⟩
    createOk := true
    leaves := .untouched
    yamlOk := true }

def checkout : Site := ⟨"/home/dev/hassio-installer", id⟩

def noFiles : Shell.Primaries := ⟨fun _ _ => some false, fun _ _ _ => none⟩

/-- `build.py --release` -/
def releasing : Args := ⟨false, false, false, "", true, false, false, "", false, false⟩

/-- Every command succeeds, and every file is there. -/
def willing : Act → Answer
  | .read _ => ⟨none, 0, true, some raised, none⟩
  | _ => ⟨none, 0, true, none, none⟩

def released : List Event × Py PUnit := Script.play (fun _ => willing) 200 [] (build checkout releasing)

/-- The old version stands above the new one in a comment. -/
theorem same_image_iff_old : madeImage workshop (container "#!/bin/bash") checkout noFiles releasing raised ≠
    some (isoPath checkout "v0.1.0") := by
  have hmentions : Mentions raised [oldMention, newMention] := by decide +kernel
  have hread : ∀ r, (.read (installerPath checkout), r) ∈ released.1 → r.text = some raised := by
    intro r he
    rw [show r = willing (.read (installerPath checkout)) from Script.play_answers willing 200 _ _ he]
    rfl
  have hseek : Seeks released.1 (isoPath checkout "v0.1.0") :=
    ⟨⟨willing (.exists ""), by decide +kernel⟩, by decide +kernel, by decide +kernel⟩
  obtain ⟨m, hm, -, -, hsame⟩ := (same_image_iff workshop (container "#!/bin/bash") rfl rfl hmentions
    noFiles (Script.run_play _ _ _ : Script.Run (build checkout releasing) released.1 released.2) hread rfl hseek).2 rfl
  cases hm
  exact fun hmade => absurd (hsame.mp hmade) (by decide)

end HassioInstaller.Release
