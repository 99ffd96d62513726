import HassioInstaller.Script.Logic
import HassioInstaller.Text

/-! # `build.py`

The script that starts a build and publishes what came of it. A call that raises an exception ends the
script, as nothing but `sh` catches one. Debug output is left out, and so are the colours. -/

namespace HassioInstaller.Release
open Text

/-- The exceptions that are told apart. -/
inductive Exn
  | fileNotFound
  | other
  deriving DecidableEq, Repr

/-- A JSON object: its members by their texts, and what `json.dumps(..., indent=4)` makes of it. -/
structure Json where
  members : List (String × String)
  dump : String
  deriving DecidableEq, Repr

/-- What a call comes to: the exception it raises, or the number it returns (an exit status or the
status code of a response), the truth value, the text and the JSON object it gives. -/
structure Answer where
  raised : Option Exn
  status : Int
  yes : Bool
  text : Option String
  json : Option Json
  deriving DecidableEq, Repr

/-- The body of a request to create a release. -/
structure Payload where
  tag_name : String
  target_commitish : String
  name : String
  body : String
  draft : Bool
  prerelease : Bool
  generate_release_notes : Bool
  deriving DecidableEq, Repr

inductive Body
  | json (payload : Payload)
  | data (contentType content : String)
  deriving DecidableEq, Repr

/-- The calls of the script; `token` is the one of the header `Authorization`. -/
inductive Act
  | print (line : String)
  | now
  | getenv (name : String)
  /-- `Popen(line.split())`, and waiting for it -/
  | popen (line : String)
  /-- `os.system` -/
  | system (line : String)
  | input (prompt : String)
  | exists (path : String)
  | read (path : String)
  | write (path text : String)
  | remove (path : String)
  | get (url token : String)
  | post (url token : String) (body : Body)
  | delete (url token : String)
  /-- `sys.exit` -/
  | sysExit (rc : Int)
  deriving DecidableEq, Repr

abbrev Event := Act × Answer

/-- The scripts of `build.py`. -/
abbrev Py := Script Act Answer

/-- `--send-to` is empty when it is not given, and so is `--cmd`, whose words are joined. -/
structure Args where
  build_dockerimage : Bool
  build_iso : Bool
  remove : Bool
  upload_to : String
  release : Bool
  release_only : Bool
  delete_latest : Bool
  cmd : String
  fix_perms : Bool
  verbose : Bool

/-- The directory of the script, and `hashlib.sha256(...).hexdigest()`. -/
structure Site where
  SD : String
  sha256 : String → String

/-- A call; nothing of the script runs after an exception. -/
def call (a : Act) : Py Answer := .call a fun r => if r.raised.isSome then .exit else .ret r

def exec (a : Act) : Py PUnit := do
  let _ ← call a
  return ⟨⟩

/-- The member of the JSON object, if the body is one and has it. -/
def Answer.get (r : Answer) (name : String) : Option String := r.json.bind fun j => j.members.lookup name

/-- `r.json()["name"]`, with an exception if there is no such member or no JSON object. -/
def member (name : String) (r : Answer) : Py String :=
  match r.get name with
  | some value => .ret value
  | none => .exit

/-- `json.dumps(r.json(), indent=4)` -/
def dumps (r : Answer) : Py String :=
  match r.json with
  | some j => .ret j.dump
  | none => .exit

def iprint (m : String) : Py PUnit := exec (.print (">>> " ++ m))

def eprint (m : String) : Py PUnit := exec (.print (">>> " ++ m))

/-- `sys.exit` does not come back. -/
def sysExit (rc : Int) : Py α := .call (.sysExit rc) fun _ => .exit

/-- `fprint(m, rc)` -/
def fprint (m : String) (rc : Int) : Py α := do
  eprint m
  sysExit rc

/-- `sh(c, verbose)`. A status below 0, which is that of a process killed by a signal, passes. The text
of the answer is the output that is shown, or what goes into the message. -/
def sh (verbose : Bool) (c : String) : Py PUnit :=
  .call (.popen c) fun r =>
    match r.raised with
    | some .fileNotFound => fprint ("Command not found: " ++ firstWord c) 1
    | some .other => .exit
    | none => do
      Script.when verbose (exec (.print (r.text.getD "")))
      if r.status > 0 then
        fprint (if verbose then "Command: " ++ c ++ " finished with exit code: " ++ toString r.status ++ "."
          else "Command: " ++ c ++ " failed with exit code: " ++ toString r.status ++ ". Output:\n" ++
            r.text.getD "") r.status
      else return ⟨⟩

/-- `i.split("=")[-1].replace('"','').replace('\n','')` -/
def lineVersion (line : String) : String :=
  String.ofList (((line.toList.splitOn '=').getLastD []).filter fun c => c ≠ '"' ∧ c ≠ '\n')

/-- The version of the first line with `export INSTALLER_VERSION` in it, `test` if there is none. -/
def extractVersion (script : String) : String :=
  match (lines script).find? (matchesIn (.lit "export INSTALLER_VERSION")) with
  | some line => lineVersion line
  | none => "test"

def isoName (VERSION : String) : String := "hassio_installer-" ++ VERSION ++ "-x86_64.iso"

variable (site : Site) (args : Args)

def installerPath : String := site.SD ++ "/vols/build/aports/custom-scripts/installer.sh"

def isoPath (VERSION : String) : String := site.SD ++ "/vols/build/iso/" ++ isoName VERSION

/-- `getIsoFileName`, as the version that gives the path and the name. -/
def getIsoFileName : Py String :=
  if args.release || args.release_only then do
    let script ← call (.read (installerPath site))
    let VERSION := extractVersion (script.text.getD "")
    if VERSION = "" ∨ VERSION = "test" then fprint "Unable to extract Release Version." 1
    else return VERSION
  else return "test"

/-- `getGHAuthHeader`, as the token. Without one in the environment `args.github_token` is read, which
no option sets: an `AttributeError`. -/
def getGHAuthHeader : Py String := do
  let token ← call (.getenv "GITHUB_MASTER_KEY")
  match token.text with
  | some token => return token
  | none => .exit

def api : String := "https://api.github.com/repos/maretodoric/hassio-installer"

def releaseUrl (id : String) : String := api ++ "/releases/" ++ id

def tagUrl (tag : String) : String := api ++ "/git/refs/tags/" ++ tag

/-- `res = requests.delete(url)`, which must be answered 204. -/
def deleteOrFail (url token what : String) : Py PUnit := do
  let res ← call (.delete url token)
  if res.status = 204 then iprint ("Successfully removed " ++ what)
  else do
    let reply ← dumps res
    fprint ("Failed to remove " ++ what ++ ", status code: " ++ toString res.status ++ ", reply:\n" ++
      reply) 1

/-- `deleteRelease` -/
def deleteRelease : Py PUnit := do
  iprint "Deleting latest release, generating GitHub Auth Header"
  let token ← getGHAuthHeader
  let latest ← call (.get (api ++ "/releases/latest") token)
  let tag_name ← member "tag_name" latest
  let rel_id ← member "id" latest
  iprint ("Removing Release ID: " ++ rel_id)
  deleteOrFail (releaseUrl rel_id) token "release"
  deleteOrFail (tagUrl tag_name) token "tag"

/-- The text without the occurrences of `pat`; the first `n` characters are still of one. -/
def dropAll (pat : List Char) : Nat → List Char → List Char
  | _, [] => []
  | n + 1, _ :: cs => dropAll pat n cs
  | 0, c :: cs =>
    if pat.isPrefixOf (c :: cs) then dropAll pat (pat.length - 1) cs else c :: dropAll pat 0 cs

/-- `upload_url.replace("{?name,label}","")` -/
def dropTemplate (url : String) : String :=
  String.ofList (dropAll "\x7b?name,label\x7d".toList 0 url.toList)

example : dropTemplate "https://uploads.github.com/1/assets\x7b?name,label\x7d" =
    "https://uploads.github.com/1/assets" := by
  decide +kernel

def rnfile : String := "release_notes.txt"

/-- The release notes: the changelog is a stub of them, and they are edited by hand. -/
def releaseNotes : Py String := do
  let changelog ← call (.exists "CHANGELOG.md")
  let stub ← (if changelog.yes then do
    let notes ← call (.exists rnfile)
    return !notes.yes
  else return false)
  Script.when stub (sh args.verbose ("cp CHANGELOG.md " ++ rnfile))
  exec (.input ("Upon pressing ENTER, vim editor will open " ++ rnfile ++ " that you can edit which " ++
    "will be used as release notes."))
  exec (.system ("vim " ++ rnfile))
  let notes ← call (.exists rnfile)
  if !notes.yes then fprint "Release Notes file does not exists! Exiting." 1
  else do
    let body ← call (.read rnfile)
    return body.text.getD ""

def payload (VERSION body : String) : Payload where
  tag_name := VERSION
  target_commitish := "main"
  name := "Release " ++ VERSION
  body := body
  draft := false
  prerelease := false
  generate_release_notes := false

/-- The image and its checksum are sent to the release that has been created. Without the image the
release is taken back, the answers to which are not looked at. -/
def uploadAssets (token VERSION : String) (created : Answer) : Py PUnit := do
  let upload_url ← member "upload_url" created
  let release_id ← member "id" created
  let html_url ← member "html_url" created
  let isoasset ← call (.read (isoPath site VERSION))
  let blocks ← call (.read (isoPath site VERSION))
  exec (.write (isoPath site VERSION ++ ".sha256") (site.sha256 (blocks.text.getD "")))
  let shaasset ← call (.read (isoPath site VERSION ++ ".sha256"))
  iprint ("Release with ID: " ++ release_id ++ " and version: " ++ VERSION ++
    " successfully created! Pushing ISO Image...")
  let url := dropTemplate upload_url ++ "?name=" ++ isoName VERSION
  let asset ← call (.post url token (.data "application/octet-stream" (isoasset.text.getD "")))
  exec (.post (url ++ ".sha256") token (.data "text/plan" (shaasset.text.getD "")))
  if asset.status = 201 then iprint ("Asset successfully uploaded, link to release: " ++ html_url)
  else do
    let reply ← dumps asset
    eprint ("Failed to upload ISO Image as Asset! Response:\n" ++ reply)
    exec (.delete (releaseUrl release_id) token)
    exec (.delete (tagUrl VERSION) token)
    iprint "Falling back created release."
    sysExit 1

/-- `release` -/
def release : Py PUnit := do
  iprint "Creating release, generating GitHub Auth Header..."
  let token ← getGHAuthHeader
  iprint "Getting file and version name"
  let VERSION ← getIsoFileName site args
  let there ← call (.exists (isoPath site VERSION))
  if !there.yes then fprint ("ISO Image does not exist at path: " ++ isoPath site VERSION) 1
  else do
    let body ← releaseNotes args
    iprint "Creating request body"
    iprint "Sending payload to GitHub..."
    let created ← call (.post (api ++ "/releases") token (.json (payload VERSION body)))
    if created.status = 201 then uploadAssets site token VERSION created
    else do
      let reply ← dumps created
      fprint ("Failed to create release! Response:\n" ++ reply) 1
    exec (.remove rnfile)

/-- The command line of the build container. -/
def dockerRun : String :=
  "docker run -it --rm -v " ++ site.SD ++ "/vols/build:/build -v " ++ site.SD ++ "/vols/tmp:/tmp " ++
    "-a STDOUT -a STDERR " ++ (if args.release then "-e RELEASE=1" else "") ++ " alpine-build-iso " ++
    args.cmd

/-- `buildIso` -/
def buildIso : Py PUnit :=
  if args.cmd ≠ "" then do
    iprint "Custom command requested, not automatically building ISO"
    let rc ← call (.system (dockerRun site args))
    sysExit rc.status
  else do
    iprint (if args.release then "Started building Tagged ISO image and publish release..."
      else "Started building ISO image ...")
    exec .now
    sh args.verbose (dockerRun site args)
    let time ← call .now
    iprint ("Build time took: " ++ time.text.getD "")
    let VERSION ← getIsoFileName site args
    let there ← call (.exists (isoPath site VERSION))
    if !there.yes then fprint ("Unable to find ISO at path: " ++ isoPath site VERSION ++
      ", build possibly failed") 1
    else do
      Script.when (args.upload_to ≠ "") do
        let host := if ':' ∈ args.upload_to.toList then args.upload_to else args.upload_to ++ ":"
        iprint ("Upload of ISO Image to remote host requested, sending to " ++ host)
        sh args.verbose ("scp " ++ isoPath site VERSION ++ " " ++ host)
      Script.when args.release (release site args)

/-- What comes after the arguments have been read. -/
def build : Py PUnit := do
  Script.when args.build_dockerimage do
    iprint "Building Docker Image..."
    sh args.verbose "docker build -t alpine-build-iso ."
  Script.when args.fix_perms do
    iprint "Fixing permissions"
    sh true ("chmod -v 777 " ++ site.SD ++ "/vols/tmp")
    sh true ("chown -cR 1000:300 " ++ site.SD ++ "/vols/build")
  Script.when args.delete_latest do
    deleteRelease
    iprint ("Script will exit now, please re-run if you need to create new release or re-build " ++
      "the ISO")
    sysExit 0
  if args.release_only then release site args
  else if args.build_dockerimage then Script.when args.build_iso (buildIso site args)
  else buildIso site args
  Script.when args.remove do
    iprint "Auto-removal of created ISO requested, removing ..."
    let VERSION ← getIsoFileName site args
    exec (.remove (isoName VERSION))
  iprint "Work completed"

end HassioInstaller.Release
