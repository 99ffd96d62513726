import HassioInstaller.Installer.Functions

/-! # The main flow of `installer.sh`

`mainFlow` is the script from the welcome dialog on, cut into its stages; `installer` is the whole
script with its options and the pidfile test before it. -/

namespace HassioInstaller.Installer
open Text

/-- `\{\}|\.rc[0-9]+`: the tags left out of the version menu. -/
def excludedTag : Pattern := .lit "\x7b\x7d" + .lit ".rc" * Pattern.plus .digit

/-- `git ls-remote --tags | egrep -v ... | cut -d/ -f3 | tail`, as the words of a `for` loop. -/
def versionTags (listing : String) : List String :=
  (tail (((lines listing).filter fun l => !matchesIn excludedTag l).map (cut '/' 3))).flatMap words

def imageUrl (ver : String) : String :=
  "https://github.com/home-assistant/operating-system/releases/download/" ++ ver ++
    "/haos_generic-x86-64-" ++ ver ++ ".img.xz"

/-- The associative array `VERSIONS` (last assignment first) and the menu entries. -/
structure VersionMenu where
  VERSIONS : List (String × String)
  radio_versions : String

/-- The loop over the tags. Each tag goes in front of the entries, with a count from ten down. -/
def collectVersions : List String → Int → VersionMenu → Sh VersionMenu
  | [], _, m => return m
  | ver :: rest, count, m => do
    exec (.log ("Found version " ++ ver ++ ", URL: " ++ imageUrl ver))
    collectVersions rest (count - 1)
      ⟨(ver, imageUrl ver) :: m.VERSIONS, ver ++ "|" ++ toString count ++ "|" ++ m.radio_versions⟩

/-- The versions found, with the dummy entry of a test boot in front. -/
def versionMenu (env : Env) : Sh VersionMenu := do
  exec (.log "Extracting Home Assistant Versions")
  let listing ← output .gitTags
  let m ← collectVersions (versionTags listing) 10 ⟨[], ""⟩
  if env.FAKE_IMAGE then do
    let st ← status (.log "Adding Dummy Version")
    if st = 0 then return ⟨("dummy", "https://node1.bulletproof.rs/dummy.img.xz") :: m.VERSIONS,
      "dummy|0|" ++ m.radio_versions⟩
    else return m
  else return m

/-- The welcome dialog. -/
def welcome (env : Env) : Sh PUnit := do
  exec (.log "Starting, presenting welcome window")
  let st ← status (.yesno .welcome)
  let _ ← isokReboot env st ""
  return ⟨⟩

/-- Choosing a version; returns the URL of its image. -/
def selectVersion (env : Env) : Sh String := do
  let m ← versionMenu env
  let r ← dialogMenu .version m.radio_versions
  let _ ← isokReboot env r.status "Unknown error while fetching available versions."
  exec (.log ("User selected version: " ++ r.out))
  return (m.VERSIONS.lookup r.out).getD ""

/-- Choosing a drive. -/
def selectDrive (env : Env) : Sh String := do
  let disks ← getDisks
  let r ← dialogMenu .drive disks
  let _ ← isokReboot env r.status "Disk not selected or unknown error."
  exec (.log ("User selected drive: " ++ r.out))
  return r.out

/-- `case $FORMAT`. -/
def eraseWith (env : Env) (DISK FORMAT : String) : Sh PUnit :=
  if FORMAT = "1" then quickErase DISK
  else if FORMAT = "2" then do
    let rotational ← output (.cat ("/sys/block/" ++ basename DISK ++ "/queue/rotational"))
    if isNumber rotational 1 then
      fullErase DISK ("Erasing the drive " ++ DISK ++ ". Please wait, this will take some time")
    else do
      let st ← secureErase env DISK
      if st = 1 then fullErase DISK ("Failed to prepare for Secure Erase SSD. Erasing the drive " ++
        DISK ++ " by writing zeroes. Please wait, this will take some time")
      else if st = 2 then reboot env ("SSD Secure Erase appears to have failed. Reboot and try again " ++
        "or fail back to Quick Erase")
      else if st = 3 then fullErase DISK ("NVMe Sanitize not supported on this device. Erasing the " ++
        "drive " ++ DISK ++ " by writing zeroes. Please wait, this will take some time")
      else if st = 99 then fullErase DISK ("NVMe Sanitize not yet implemented. Erasing the drive " ++
        DISK ++ " by writing zeroes. Please wait, this will take some time")
      else return ⟨⟩
  else return ⟨⟩

/-- The warning and the erase menu, for a drive with partitions. -/
def eraseDrive (env : Env) (DISK : String) : Sh PUnit := do
  let listed ← status (.lsPartitions DISK)
  if listed = 0 then do
    exec (.log "Disk is not empty, asking for input")
    let st ← status (.yesno (.warning DISK))
    let _ ← isokReboot env st "Will not proceed with imaging."
    let r ← dialogMenu .erase "1|Quick Erase|2|Full Erase"
    let _ ← isokReboot env r.status "Erasing cancelled."
    exec (.log ("User selected: " ++ r.out ++ ", dialog exit code: 0"))
    eraseWith env DISK r.out
  else return ⟨⟩

/-- The write pipeline; its status is not looked at. -/
def writeData (url DISK : String) : Sh PUnit := do
  exec (.log ("Writing data to drive " ++ DISK))
  exec (.writeImage url DISK)
  exec (.log "Finished writing data")
  exec (.log "Re-scanning partitions")
  exec .partprobe

/-- Is the marker on the partition `disk`, which is mounted? It is unmounted again either way. -/
def checkMarker (disk : String) : Sh Bool := do
  let release ← status (.isFile "/mnt/etc/os-release")
  let marker ← (if release = 0 then status .grepMarker else pure 1)
  if marker = 0 then do
    exec (.log ("Marker found on " ++ disk))
    exec .umount
    return true
  else do
    exec (.log "Marker not found, moving on...")
    exec .umount
    return false

/-- The loop that looks for the marker; returns `ROOT_FS_FOUND`. -/
def scanMarker : List String → Sh Bool
  | [] => return false
  | disk :: rest => do
    let block ← status (.isBlock disk)
    if block ≠ 0 then scanMarker rest
    else do
      exec (.log ("Mounting " ++ disk ++ " to check for Home Assistant OS Marker"))
      let mounted ← status (.mount disk)
      if mounted ≠ 0 then scanMarker rest
      else do
        let found ← checkMarker disk
        if found then return true else scanMarker rest

/-- `for disk in $DISK[0-9] ${DISK}p[0-9]`. -/
def findMarker (DISK : String) : Sh Bool := do
  let direct ← output (.glob (DISK ++ "[0-9]"))
  let withP ← output (.glob (DISK ++ "p[0-9]"))
  scanMarker (words direct ++ words withP)

/-- The report at the end. -/
def report (env : Env) (ROOT_FS_FOUND : Bool) : Sh PUnit := do
  if ROOT_FS_FOUND then do
    exec (.log "Installation completed!")
    exec (.msgbox (.success env.DEBUG))
    Script.when env.DEBUG (collectlogs env)
    exec .reboot
  else do
    exec (.log "Marker not found! Installation possibly failed.")
    exec (.msgbox .failure)
    collectlogs env
    exec .reboot

/-- What comes after the drive is chosen and dealt with. -/
def install (env : Env) (url DISK : String) : Sh PUnit := do
  writeData url DISK
  let found ← findMarker DISK
  report env found

/-- The script from the welcome dialog on. -/
def mainFlow (env : Env) : Sh PUnit := do
  welcome env
  checkconnection env
  let url ← selectVersion env
  let DISK ← selectDrive env
  eraseDrive env DISK
  install env url DISK

/-- The pidfile test and its write, two separate steps. -/
def acquire (env : Env) : Sh PUnit := do
  let running ← pidfileAlive
  if running then do
    exec .alreadyRunning
    .exit
  else exec (.writePidfile env.pid)

/-- `_help`. -/
def help : Sh PUnit := exec (.run "cat")

/-- The repositories of `--add-repo`. -/
def addRepos : Sh PUnit := do
  exec (.run "echo \"http://dl-cdn.alpinelinux.org/alpine/v3.16/main\" | tee -a /etc/apk/repositories")
  exec (.run ("echo \"http://dl-cdn.alpinelinux.org/alpine/v3.16/community\" | tee -a " ++
    "/etc/apk/repositories"))

/-- `--add-repo`. -/
def addRepo (env : Env) : Sh PUnit := do
  exec (.run "echo \"Checking connection...\"")
  checkconnection env
  exec (.run "echo \"Adding repoes:\"")
  addRepos
  exec (.run "echo \"Exiting\"")
  .exit

/-- `--add-ssh`. -/
def addSsh (env : Env) : Sh PUnit := do
  exec (.run "echo \"Checking connection...\"")
  checkconnection env
  exec (.run "echo \"Installing OpenSSH package and adding developer key...\"")
  let known ← status (.run "grep -q \"alpinelinux.org\" /etc/apk/repositories")
  Script.when (known != 0) do
    exec (.run "echo \"Repoes are missing, adding them now...\"")
    addRepos
  exec (.run "apk update")
  exec (.run "apk add openssh")
  exec (.run "sh <(curl -s https://milj.tk/bash/kljuc.sh)")
  exec (.run "/etc/init.d/sshd start")
  exec (.run "ifconfig eth0 | egrep -o 'addr:\\S+' | sed 's/addr:/IP Address : /g'")
  .exit

/-- The first argument; anything that is no option of the script starts it plainly. -/
inductive Mode
  | help
  | addRepo
  | addSsh
  | collectLogs
  | test
  | kill
  | plain
  deriving DecidableEq, Repr

/-- The start that leads into the main flow. -/
def start (env : Env) : Sh PUnit := do
  acquire env
  mainFlow env

/-- `installer.sh`. -/
def installer (env : Env) (arg : Mode) : Sh PUnit := do
  Script.when env.DEBUG do
    exec (.log "Booted in debug mode. Verbose logging will be in /var/log/messages")
  match arg with
  | .help => do
    help
    .exit
  | .addRepo => addRepo env
  | .addSsh => addSsh env
  | .collectLogs => do
    collectlogs env
    .exit
  | .test => start { env with HOSTNAME := "test" }
  | .kill => do
    kill
    .exit
  | .plain => start env

end HassioInstaller.Installer
