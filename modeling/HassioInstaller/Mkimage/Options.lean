import HassioInstaller.Mkimage.Specs
import HassioInstaller.Text.Fields

/-! # The options of `mkimage.sh`

The loop that reads the options, and the run that comes of them. Words that are no options are passed
over, and `--` ends the loop. -/

namespace HassioInstaller.Mkimage
open Text

/-- What the options set. -/
structure Config where
  REPOS : String
  EXTRAREPOS : String
  WORKDIR : String
  OUTDIR : String
  RELEASE : String
  reqArch : String
  reqProfiles : String
  hostkeys : Bool
  simulate : Bool
  checksum : Bool
  yaml : Bool
  deriving DecidableEq

/-- The variables before the loop. -/
def Config.initial (PWD buildDate : String) : Config where
  REPOS := ""
  EXTRAREPOS := ""
  WORKDIR := ""
  OUTDIR := PWD
  RELEASE := buildDate
  reqArch := ""
  reqProfiles := ""
  hostkeys := false
  simulate := false
  checksum := false
  yaml := false

/-- The options with a value. -/
def setting : String → Option (String → Config → Config)
  | "--repository" => some fun x c =>
    { c with REPOS := if c.REPOS = "" then x else c.REPOS ++ "\n" ++ x }
  | "--extra-repository" => some fun x c => { c with EXTRAREPOS := c.EXTRAREPOS ++ " " ++ x }
  | "--workdir" => some fun x c => { c with WORKDIR := x }
  | "--outdir" => some fun x c => { c with OUTDIR := x }
  | "--tag" => some fun x c => { c with RELEASE := x }
  | "--arch" => some fun x c => { c with reqArch := x }
  | "--profile" => some fun x c => { c with reqProfiles := x }
  | _ => none

/-- The options without one. -/
def flag : String → Option (Config → Config)
  | "--hostkeys" => some fun c => { c with hostkeys := true }
  | "--simulate" => some fun c => { c with simulate := true }
  | "--checksum" => some fun c => { c with checksum := true }
  | "--yaml" => some fun c => { c with yaml := true }
  | _ => none

inductive Parsed
  | config (c : Config)
  /-- `usage; exit` -/
  | usage (status : Nat)
  /-- The last option lacks its value, and there is nothing to `shift`. -/
  | missing
  deriving DecidableEq

def parse : List String → Config → Parsed
  | [], c => .config c
  | opt :: rest, c =>
    match setting opt, flag opt with
    | some set, _ =>
      match rest with
      | [] => .missing
      | x :: rest => parse rest (set x c)
    | none, some set => parse rest (set c)
    | none, none =>
      if opt = "--help" then .usage 0
      else if opt = "--" then .config c
      else if "-".toList.isPrefixOf opt.toList then .usage 1
      else parse rest c

/-- What the script asks its surroundings for. -/
structure Site (Dir : Type*) where
  /-- `git describe --exact-match` -/
  describe : Option String
  buildDate : String
  allProfiles : String
  defaultArch : String
  /-- `$all_arch`; the list of architectures that the script sets is `all_arches`. -/
  allArch : String
  /-- The package root of an architecture can be set up. -/
  ready : String → Bool
  job : String → String → Job Dir

variable {Dir : Type*} (site : Site Dir) (c : Config)

/-- `$RELEASE` -/
def Config.release : String :=
  if c.RELEASE ≠ "" then c.RELEASE
  else match site.describe with
    | some tag => if "v".toList.isPrefixOf tag.toList then String.ofList (tag.toList.drop 1) else tag
    | none => site.buildDate

/-- `$req_profiles` -/
def Config.profiles : List String :=
  let req := orElse c.reqProfiles site.allProfiles
  words (if req = "all" then site.allProfiles else req)

/-- `$req_arch` -/
def Config.archs : List String :=
  let req := orElse c.reqArch site.defaultArch
  words (if req = "all" then site.allArch else req)

/-- The run that the options ask for. -/
def Config.run : Run Dir where
  options := ⟨c.simulate, c.yaml⟩
  archs := (c.archs site).map fun ARCH => (site.ready ARCH, (c.profiles site).map (site.job ARCH))

/-- A single profile or architecture that is asked for. -/
theorem words_request {x : String} (hx : IsWord x) (hne : x ≠ "all") (default all : String) :
    words (if orElse x default = "all" then all else orElse x default) = [x] := by
  have hreq : orElse x default = x := if_neg hx.1
  rw [hreq, if_neg hne, words_self hx]

/-- For `--arch all` nothing is built, and the script still exits 0: `$all_arch` is never set. -/
theorem mkimage_arch_all (K : KeyTools) (harch : c.reqArch = "all") (hall : site.allArch = "")
    (w : Work Dir) : mkimage K (c.run site) w = (true, w) := by
  have harchs : c.archs site = [] := by
    rw [Config.archs, harch, hall]
    rfl
  rw [mkimage, Config.run, harchs]
  rfl

end HassioInstaller.Mkimage
